import Mathlib

/-!
# The state of a provider login

A callback consumes its state row: it reads the row, deletes it and checks the expiry of what it
has read. Whether the delete found anything is not looked at, so callbacks that read the row before
one of them has deleted it all get it (`state_used_twice`).
-/

namespace Flexiq.Auth

/-- What a state row says, as far as the row's own use goes. -/
structure OAuthState where
  /-- In seconds. -/
  expiresAt : Int

def OAuthState.isExpired (state : OAuthState) (now : Int) : Bool := state.expiresAt ≤ now

/-- The row of one token, and the calls of `consume` for it. -/
structure StateRow where
  stored : Bool := true
  /-- Calls that have read the row and are to delete it. -/
  reading : Nat := 0
  /-- Calls that have deleted the row and are to check the expiry. -/
  checking : Nat := 0
  /-- What the clock said, in seconds, when a call returned the state. -/
  returned : List Int := []

/-- The steps of `consume` and `pruneExpired`. -/
inductive StateAct where
  | get
  | delete
  | deleteFails
  | check (nowMillis : Int)
  | prune (nowMillis : Int)
  deriving DecidableEq

namespace StateRow

-- what the text of the row parses to
variable (parsed : Option OAuthState)

/-- One step. A failing read changes nothing; a sweep deletes a row that it found to be expired, or
unreadable, some time after it has read the clock. -/
def step (s : StateRow) : StateAct → StateRow
  | .get => if s.stored then { s with reading := s.reading + 1 } else s
  | .delete =>
    if 0 < s.reading then
      { s with reading := s.reading - 1, checking := s.checking + 1, stored := false }
    else s
  | .deleteFails => if 0 < s.reading then { s with reading := s.reading - 1 } else s
  | .check nowMillis =>
    if 0 < s.checking then
      let now := nowMillis / 1000
      let valid := parsed.any (!·.isExpired now)
      { s with
        checking := s.checking - 1
        returned := if valid then now :: s.returned else s.returned }
    else s
  | .prune nowMillis =>
    if parsed.all (·.isExpired (nowMillis / 1000)) then { s with stored := false } else s

def run (s : StateRow) (acts : List StateAct) : StateRow := acts.foldl (step parsed) s

/-- Nobody reads the row while a call that has read it is yet to delete it. -/
def Alone (s : StateRow) : List StateAct → Prop
  | [] => True
  | a :: acts => (a = .get → s.stored = true → s.reading = 0) ∧ (s.step parsed a).Alone acts

/-- At most one call has got the row, and after its delete nobody else can get it. -/
structure Single (s : StateRow) : Prop where
  one : s.reading + s.checking + s.returned.length ≤ 1
  gone : 0 < s.checking + s.returned.length → s.stored = false
  early : ∀ now ∈ s.returned, ∀ state ∈ parsed, now < state.expiresAt

variable {parsed} {s : StateRow}

theorem Single.step (h : Single parsed s) {a : StateAct}
    (ha : a = .get → s.stored = true → s.reading = 0) : Single parsed (s.step parsed a) := by
  have ⟨hone, hgone, hearly⟩ := h
  cases a with
  | get =>
    simp only [StateRow.step]
    split
    · next hstored =>
      have hnone : ¬0 < s.checking + s.returned.length := fun h => by simp [hgone h] at hstored
      have := ha rfl hstored
      exact ⟨by dsimp only; omega, hgone, hearly⟩
    · exact h
  | delete =>
    simp only [StateRow.step]
    split
    · exact ⟨by dsimp only; omega, fun _ => rfl, hearly⟩
    · exact h
  | deleteFails =>
    simp only [StateRow.step]
    split
    · exact ⟨by dsimp only; omega, hgone, hearly⟩
    · exact h
  | check nowMillis =>
    simp only [StateRow.step]
    split
    · split
      · next hvalid =>
        refine ⟨by dsimp only [List.length_cons]; omega, fun _ => hgone (by omega), ?_⟩
        intro now hnow
        obtain rfl | hnow := List.mem_cons.1 hnow
        · rintro _ rfl
          simpa [OAuthState.isExpired] using hvalid
        · exact hearly now hnow
      · exact ⟨by dsimp only; omega, fun _ => hgone (by omega), hearly⟩
    · exact h
  | prune nowMillis =>
    simp only [StateRow.step]
    split
    · exact ⟨hone, fun _ => rfl, hearly⟩
    · exact h

theorem Single.run {acts : List StateAct} (h : Single parsed s) (ha : s.Alone parsed acts) :
    Single parsed (s.run parsed acts) := by
  induction acts generalizing s with
  | nil => exact h
  | cons a acts ih => exact ih (h.step ha.1) ha.2

/-- **A state is used once**, and before it expires, in every run in which nobody reads the row
between another call's read and delete. -/
theorem state_used_once (parsed : Option OAuthState) (acts : List StateAct)
    (h : Alone parsed {} acts) :
    let s := run parsed {} acts
    s.returned.length ≤ 1 ∧ ∀ now ∈ s.returned, ∀ state ∈ parsed, now < state.expiresAt := by
  have hstart : Single parsed {} := ⟨by decide, by simp, by simp⟩
  obtain ⟨hone, -, hearly⟩ := hstart.run h
  exact ⟨by omega, hearly⟩

/-- A second callback comes when the first has deleted the row. -/
theorem state_used_once_replayed :
    (run (some ⟨300⟩) {} [.get, .delete, .get, .check 0]).returned.length ≤ 1 :=
  (state_used_once (some ⟨300⟩) [.get, .delete, .get, .check 0] (by simp [Alone, step])).1

/-- Two callbacks read the row before either has deleted it. -/
theorem state_used_twice :
    (run (some ⟨300⟩) {} [.get, .get, .delete, .delete, .check 0, .check 0]).returned = [0, 0] := by
  decide

end StateRow

end Flexiq.Auth
