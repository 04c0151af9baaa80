import Mathlib

/-!
# Leases

A lease is the right to something until a moment. The library says when a keeper of leases
**honours** what it promised: whoever was promised the lease until `e`, and neither gave it back
nor got a new promise, still has it — or `e` has passed. One step of the keeper is an act
(`LeaseAct`) with its guard (`LeaseAct.Allowed`): a grant to a newcomer waits for the end of the
old lease, only the owner gives a lease back, a lease may lapse after its end. Promises are kept
by every allowed act (`Honoured.step`), and a grant to another owner comes after every promise
has ended (`Honoured.exclusive`).
-/

namespace Flexiq

open Function

variable {ω : Type}

/-- Who holds a lease, and until when. -/
structure Lease (ω : Type) where
  owner : ω
  expires : Int
  deriving DecidableEq

/-- What one step does to a lease. -/
inductive LeaseAct (ω : Type) where
  /-- The lease is promised to `owner` until `expires`. -/
  | grant (owner : ω) (expires : Int)
  /-- The owner gives it back. -/
  | drop (owner : ω)
  /-- Nothing, except that a lease past its end may lapse. -/
  | keep
  deriving DecidableEq

namespace LeaseAct

/-- At time `now`, the act may lead from one lease to the other. -/
def Allowed (now : Int) (l l' : Option (Lease ω)) : LeaseAct ω → Prop
  | grant a e => (∀ h ∈ l, h.owner = a ∨ h.expires ≤ now) ∧ (l' = some ⟨a, e⟩ ∨ l' = none ∧ e ≤ now)
  | drop a => (∀ h ∈ l, h.owner = a ∨ h.expires ≤ now) ∧ l' = none
  | keep => l' = l ∨ l' = none ∧ ∀ h ∈ l, h.expires ≤ now

/-- An act that comes after a lapse. -/
theorem Allowed.after_lapse {now : Int} {l l₁ l' : Option (Lease ω)} {act : LeaseAct ω}
    (hlapse : keep.Allowed now l l₁) (h : act.Allowed now l₁ l') : act.Allowed now l l' := by
  obtain rfl | ⟨rfl, hl⟩ := hlapse
  · exact h
  · cases act with
    | grant | drop => exact ⟨fun h hh => .inr (hl h hh), h.2⟩
    | keep =>
      obtain rfl | ⟨rfl, -⟩ := h
      · exact .inr ⟨rfl, hl⟩
      · exact .inr ⟨rfl, hl⟩

variable [DecidableEq ω]

/-- What each owner was promised last, after the act. -/
def pledge (p : ω → Option Int) : LeaseAct ω → ω → Option Int
  | grant a e => update p a (some e)
  | drop a => update p a none
  | keep => p

end LeaseAct

/-- Every promise is kept, or over. -/
def Honoured (now : Int) (l : Option (Lease ω)) (p : ω → Option Int) : Prop :=
  ∀ a e, p a = some e → l = some ⟨a, e⟩ ∨ e ≤ now

theorem honoured_empty (now : Int) (l : Option (Lease ω)) : Honoured now l fun _ => none :=
  fun _ _ h => by cases h

namespace Honoured

variable {now now' : Int} {l l' : Option (Lease ω)} {p : ω → Option Int}

/-- A promise is over once the lease can go to, or back from, somebody else. -/
theorem expired (h : Honoured now l p) (hle : now ≤ now') {a b : ω} {e : Int}
    (hl : ∀ h ∈ l, h.owner = b ∨ h.expires ≤ now') (hne : a ≠ b) (hp : p a = some e) :
    e ≤ now' := by
  obtain rfl | hover := h a e hp
  · obtain howner | hend := hl _ rfl
    · exact absurd howner hne
    · exact hend
  · exact Int.le_trans hover hle

/-- **Every allowed act keeps the promises.** -/
theorem step [DecidableEq ω] (h : Honoured now l p) (hle : now ≤ now') {act : LeaseAct ω}
    (hact : act.Allowed now' l l') : Honoured now' l' (act.pledge p) := by
  intro a e hp
  cases act with
  | grant b =>
    obtain ⟨hl, hl'⟩ := hact
    by_cases hab : a = b
    · subst hab
      simp only [LeaseAct.pledge, update_self, Option.some.injEq] at hp
      subst hp
      exact hl'.imp_right And.right
    · simp only [LeaseAct.pledge, update_of_ne hab] at hp
      exact .inr (h.expired hle hl hab hp)
  | drop b =>
    obtain ⟨hl, -⟩ := hact
    by_cases hab : a = b
    · subst hab
      simp [LeaseAct.pledge] at hp
    · simp only [LeaseAct.pledge, update_of_ne hab] at hp
      exact .inr (h.expired hle hl hab hp)
  | keep =>
    obtain rfl | ⟨-, hl⟩ := hact
    · exact (h a e hp).imp_right fun hover => Int.le_trans hover hle
    · refine .inr ?_
      obtain rfl | hover := h a e hp
      · exact hl _ rfl
      · exact Int.le_trans hover hle

/-- **A grant to another owner comes after the promise has ended.** -/
theorem exclusive (h : Honoured now l p) (hle : now ≤ now') {a b : ω} {e e' : Int}
    (hact : (LeaseAct.grant b e').Allowed now' l l') (hne : a ≠ b) (hp : p a = some e) : e ≤ now' :=
  h.expired hle hact.1 hne hp

end Honoured

end Flexiq
