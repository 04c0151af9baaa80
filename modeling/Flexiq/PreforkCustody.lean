import Flexiq.PreforkControl

/-!
# Custody of a dispatch

The slot's entry is the right to report an outcome. In the runs of `Flexiq.PreforkOutcome` every
dispatch has one owner at any time: the slot, one reader, the watchdog, or nobody any more; its
work is in one place, a child's input, the child itself, the pipe back or a reader's hand; and a
result that is under way belongs to the entry in its slot, or to a dispatch the watchdog has taken.
This is `Custody`; here it is shown, operation by operation, under what conditions it is kept.
-/

namespace Flexiq

open Function List Prefork

variable {i d c : Nat} {r : JobResult} {a : ActiveJob}

/-! ## Who may report a dispatch, and where its work is -/

/-- Who has the right to report a dispatch. -/
inductive Owner where
  | nobody
  | slot (i : Nat)
  | reader (c : Nat)
  | watchdog
  | answered
  | dropped
  deriving DecidableEq

namespace Child

/-- The dispatches a child has been given and not reported. -/
def jobs (x : Child) : List Nat := x.stdin.map Prod.snd ++ x.running.toList.map Prod.snd

/-- The dispatches whose results are in the pipe or in the reader's hand. -/
def results (x : Child) : List Nat :=
  (x.stdout.filter fun fd => fd.1.result.isSome).map Prod.snd ++ x.hand.toList

/-- The dispatches a child or its reader still knows of. -/
def load (x : Child) : List Nat := x.jobs ++ x.results

/-- A child after its reader has put down the result of a dispatch; or one that knows nothing of
the dispatch. -/
structure Without (y x : Child) (d : Nat) : Prop where
  idx : y.idx = x.idx
  alive : y.alive = x.alive
  jobs : y.jobs = x.jobs
  load : y.load.Sublist x.load
  results : ∀ d' ∈ y.results, d' ∈ x.results ∧ d' ≠ d
  gone : d ∉ y.load

end Child

namespace Prefork

def tag (s : Prefork) (i : Nat) : Option Nat := (s.slots i).map ActiveJob.dispatch

/-- The slot is empty and nobody owes its counter a decrement. -/
abbrev Free (s : Prefork) (i : Nat) : Prop := s.slots i = none ∧ s.owed i = none

/-- The watchdog has reported the dispatch, or is about to. -/
def Claimed (s : Prefork) (d : Nat) : Prop := d ∈ s.timeouts ∨ s.expiring = some d

end Prefork

namespace WatchdogPc

/-- The dispatch the watchdog has taken and not reported. -/
def holds : WatchdogPc → Option Nat
  | taken _ a | killed _ a | paid _ a => some a.dispatch
  | scanning => none

/-- The index whose counter the watchdog still has to lower. -/
def owes : WatchdogPc → Option (Nat × Nat)
  | taken i a | killed i a => some (i, a.dispatch)
  | _ => none

/-- The index whose process the watchdog still has to kill. -/
def striking : WatchdogPc → Option (Nat × Nat)
  | taken i a => some (i, a.dispatch)
  | _ => none

theorem owes_of_striking {p : WatchdogPc} {x : Nat × Nat} (h : p.striking = some x) :
    p.owes = some x := by
  cases p <;> first | exact h | cases h

theorem holds_of_owes {p : WatchdogPc} (h : p.owes = some (i, d)) : p.holds = some d := by
  cases p <;> cases h <;> rfl

end WatchdogPc

def ChildReaderPc.inHand : ChildReaderPc → Option Nat
  | .hand d _ => some d
  | _ => none

open ChildReaderPc (inHand)

/-- Every dispatch has one owner, its work is in one place, and a result that is under way belongs
to the entry in its slot or to a dispatch the watchdog has taken. -/
structure Custody (s : Prefork) (R : Nat → ChildReaderPc) (W : WatchdogPc) (own : Nat → Owner) :
    Prop where
  slot : ∀ i a, s.slots i = some a → own a.dispatch = .slot i ∧ s.owed i = none
  token : ∀ c d r, R c = .token d r → own d = .reader c ∧ s.owed (s.children c).idx = some d
  paid : ∀ c d r, R c = .paid d r → own d = .reader c
  holds : ∀ d, W.holds = some d → own d = .watchdog
  owes : ∀ i d, W.owes = some (i, d) → s.owed i = some d
  owed : ∀ i d, s.owed i = some d →
    (∃ c r, R c = .token d r ∧ (s.children c).idx = i) ∨ W.owes = some (i, d)
  answered : ∀ d ∈ s.answered, own d = .answered
  once : s.answered.Nodup
  dropped : ∀ d ∈ s.dropped, own d = .dropped
  fresh : ∀ d, s.dispatched.length ≤ d → own d = .nobody
  expiring : s.expiring = W.holds
  discarded : ∀ d ∈ s.discarded, s.Claimed d
  nodup : ∀ c, (s.children c).load.Nodup
  apart : ∀ c c' d, d ∈ (s.children c).load → d ∈ (s.children c').load → c = c'
  old : ∀ c, ∀ d ∈ (s.children c).load, d < s.dispatched.length
  results : ∀ c, ∀ d ∈ (s.children c).results,
    s.tag (s.children c).idx = some d ∨ s.tag (s.children c).idx = none ∧ s.Claimed d
  jobs : ∀ c, (s.children c).alive = true → ∀ d ∈ (s.children c).jobs,
    s.tag (s.children c).idx = some d ∨ W.striking = some ((s.children c).idx, d)
  hand : ∀ c, (s.children c).hand = (R c).inHand
  unborn : ∀ c, s.next ≤ c → (s.children c).load = [] ∧ R c = .idle

/-! ## What an operation does to the custody of dispatches -/

namespace Prefork

theorem modify_self (s : Prefork) (c : Nat) (f : Child → Child) :
    (s.modify c f).children c = f (s.children c) := update_self ..

theorem modify_of_ne {c' : Nat} (h : c' ≠ c) (s : Prefork) (f : Child → Child) :
    (s.modify c f).children c' = s.children c' := update_of_ne h ..

variable {f : Child → Child}

theorem modify_cases (s : Prefork) (P : Nat → Child → Prop) (hc : P c (f (s.children c)))
    (hother : ∀ c', c' ≠ c → P c' (s.children c')) (c' : Nat) :
    P c' ((s.modify c f).children c') := by
  by_cases hcc : c' = c
  · subst hcc
    rwa [modify_self]
  · rw [modify_of_ne hcc]
    exact hother c' hcc

theorem modify_idx (s : Prefork) (hc : (f (s.children c)).idx = (s.children c).idx) (c' : Nat) :
    ((s.modify c f).children c').idx = (s.children c').idx :=
  s.modify_cases (fun c' x => x.idx = (s.children c').idx) hc (fun _ _ => rfl) c'

end Prefork

attribute [grind =] Prefork.tag Prefork.answered Prefork.timeouts Prefork.Claimed

namespace Custody

variable {s : Prefork} {R : Nat → ChildReaderPc} {W : WatchdogPc} {own : Nat → Owner}

theorem tag_none_iff : s.tag i = none ↔ s.slots i = none := Option.map_eq_none_iff

theorem tag_eq (h : s.slots i = some a) : s.tag i = some a.dispatch := by
  rw [tag, h]
  rfl

/-- The tables of writers and processes and the counters do not matter. -/
theorem congr (h : Custody s R W own) (writers processes : Nat → Option Nat)
    (inFlight : Nat → UInt32) :
    Custody { s with writers := writers, processes := processes, inFlight := inFlight } R W own :=
  ⟨h.slot, h.token, h.paid, h.holds, h.owes, h.owed, h.answered, h.once, h.dropped, h.fresh,
    h.expiring, h.discarded, h.nodup, h.apart, h.old, h.results, h.jobs, h.hand, h.unborn⟩

/-- A job the watchdog is about to kill for is claimed, and its slot is empty. -/
theorem of_job (h : Custody s R W own) (hal : (s.children c).alive = true)
    (hd : d ∈ (s.children c).jobs) :
    s.tag (s.children c).idx = some d ∨ s.tag (s.children c).idx = none ∧ s.Claimed d := by
  refine (h.jobs c hal d hd).imp_right fun hstrike => ?_
  have howes := WatchdogPc.owes_of_striking hstrike
  have howed := h.owes _ _ howes
  refine ⟨?_, .inr (h.expiring.trans (WatchdogPc.holds_of_owes howes))⟩
  rcases ha : s.slots (s.children c).idx with _ | a
  · exact tag_none_iff.2 ha
  · rw [(h.slot _ a ha).2] at howed
    cases howed

theorem children (h : Custody s R W own) (ch : Nat → Child) (R' : Nat → ChildReaderPc)
    (hidx : ∀ c, (ch c).idx = (s.children c).idx)
    (halive : ∀ c, (ch c).alive = true → (s.children c).alive = true)
    (hload : ∀ c, (ch c).load.Perm (s.children c).load)
    (hjobs : ∀ c, ∀ d ∈ (ch c).jobs, d ∈ (s.children c).jobs)
    (hresults : ∀ c, ∀ d ∈ (ch c).results, d ∈ (s.children c).results ∨
      (s.children c).alive = true ∧ d ∈ (s.children c).jobs)
    (hhand : ∀ c, (ch c).hand = (R' c).inHand)
    (htoken : ∀ c d r, R' c = .token d r ↔ R c = .token d r)
    (hpaid : ∀ c d r, R' c = .paid d r → R c = .paid d r) (hidle : ∀ c, s.next ≤ c → R' c = .idle) :
    Custody { s with children := ch } R' W own := by
  refine { h with
    token := ?_, paid := ?_, owed := ?_, apart := ?_, old := ?_, jobs := ?_, hand := hhand
    nodup := fun c => (hload c).nodup_iff.2 (h.nodup c)
    results := fun c d hd => ?results
    unborn := fun c hc =>
      ⟨((hload c).trans (List.Perm.of_eq (h.unborn c hc).1)).eq_nil, hidle c hc⟩ }
  case results =>
    simp only [hidx]
    obtain hd | ⟨hal, hd⟩ := hresults c d hd
    · exact h.results c d hd
    · exact h.of_job hal hd
  all_goals grind [Custody]

/-- The special case of one child, whose reader stays where it is. -/
theorem child (h : Custody s R W own) (c : Nat) (f : Child → Child)
    (hidx : (f (s.children c)).idx = (s.children c).idx)
    (halive : (f (s.children c)).alive = true → (s.children c).alive = true)
    (hload : (f (s.children c)).load.Perm (s.children c).load)
    (hjobs : ∀ d ∈ (f (s.children c)).jobs, d ∈ (s.children c).jobs)
    (hresults : ∀ d ∈ (f (s.children c)).results, d ∈ (s.children c).results ∨
      (s.children c).alive = true ∧ d ∈ (s.children c).jobs)
    (hhand : (f (s.children c)).hand = (s.children c).hand) : Custody (s.modify c f) R W own :=
  h.children _ R (s.modify_idx hidx)
    (s.modify_cases (fun c' x => x.alive = true → (s.children c').alive = true) halive
      fun _ _ => id)
    (s.modify_cases (fun c' x => x.load.Perm (s.children c').load) hload fun _ _ => .refl _)
    (s.modify_cases (fun c' x => ∀ d ∈ x.jobs, d ∈ (s.children c').jobs) hjobs fun _ _ _ => id)
    (s.modify_cases (fun c' x => ∀ d ∈ x.results, d ∈ (s.children c').results ∨
      (s.children c').alive = true ∧ d ∈ (s.children c').jobs) hresults fun _ _ _ => .inl)
    (s.modify_cases (fun c' x => x.hand = (R c').inHand) (hhand.trans (h.hand c))
      fun c' _ => h.hand c')
    (fun _ _ _ => Iff.rfl) (fun _ _ _ => id) fun c' hc' => (h.unborn c' hc').2

theorem update_own {x : Nat} {o a b : Owner} (hd : own d = b) (hx : own x = a) (hne : a ≠ b) :
    update own d o x = a := by
  rw [update_of_ne]
  · exact hx
  · rintro rfl
    exact hne (hx.symm.trans hd)

variable {s' : Prefork} {x : Option ActiveJob}

theorem tag_update_ne {j : Nat} (hs : s'.slots = update s.slots i x) (hj : j ≠ i) :
    s'.tag j = s.tag j := by
  rw [tag, hs, update_of_ne hj]
  rfl

theorem tag_update_self (hs : s'.slots = update s.slots i x) :
    s'.tag i = x.map ActiveJob.dispatch := by
  rw [tag, hs, update_self]

section

variable (h : Custody s R W own)
include h

theorem fill (hfree : s.Free i) (hres : ∀ c, (s.children c).idx = i → (s.children c).results = [])
    (hjobs : ∀ c, (s.children c).alive = true → (s.children c).idx = i → (s.children c).jobs = [])
    (job : Job) (now : Int) :
    Custody
      { s with
        slots := update s.slots i (some (.of job now s.dispatched.length))
        dispatched := s.dispatched ++ [job] }
      R W (update own s.dispatched.length (.slot i)) := by
  obtain ⟨hslot, howed⟩ := hfree
  have hnew := h.fresh _ le_rfl
  refine { h with
    slot := ?_, token := ?_, fresh := ?_, old := ?_, results := ?_, jobs := ?_
    paid := fun c d' r hR => update_own hnew (h.paid c d' r hR) (by simp)
    holds := fun d' hd' => update_own hnew (h.holds d' hd') (by simp)
    answered := fun d' hd' => update_own hnew (h.answered d' hd') (by simp)
    dropped := fun d' hd' => update_own hnew (h.dropped d' hd') (by simp) }
  all_goals grind [Custody, update_apply, ActiveJob.of]

theorem drop (i : Nat)
    (hres : ∀ c, (s.children c).idx = i → ∀ d ∈ (s.children c).results, s.tag i ≠ some d)
    (hjobs : ∀ c, (s.children c).alive = true → (s.children c).idx = i → ∀ d ∈ (s.children c).jobs,
      s.tag i ≠ some d) :
    ∃ own', Custody (s.drop i) R W own' := by
  rcases ha : s.slots i with _ | a
  · -- there is none
    have hslots : update s.slots i none = s.slots := by
      rw [← ha, update_eq_self]
    refine ⟨own, ?_⟩
    rw [show s.drop i = s by simp [Prefork.drop, hslots, ha]]
    exact h
  · have hown := (h.slot i a ha).1
    have hdrop : s.drop i = { s with
        slots := update s.slots i none
        dropped := s.dropped ++ [a.dispatch] } := by
      simp [Prefork.drop, ha]
    rw [hdrop]
    -- a result or a job at this index was the entry's, or its slot was empty
    refine ⟨update own a.dispatch .dropped, { h with
      slot := ?_, token := ?_, dropped := ?_, results := ?_, jobs := ?_
      paid := fun c d' r hR => update_own hown (h.paid c d' r hR) (by simp)
      holds := fun d' hd' => update_own hown (h.holds d' hd') (by simp)
      answered := fun d' hd' => update_own hown (h.answered d' hd') (by simp)
      fresh := fun d' hd' => update_own hown (h.fresh d' hd') (by simp) }⟩
    all_goals grind [Custody, update_apply]

theorem spawn (i : Nat) :
    Custody
      { s with next := s.next + 1, children := update s.children s.next (.new i) }
      R W own := by
  obtain ⟨-, -⟩ := h.unborn _ le_rfl
  have hnew : (Child.new i).jobs = [] ∧ (Child.new i).results = [] ∧ (Child.new i).hand = none :=
    ⟨rfl, rfl, rfl⟩
  refine { h with
    token := ?_, owed := ?_, nodup := ?_, apart := ?_, old := ?_, results := ?_, jobs := ?_,
    hand := ?_, unborn := ?_ }
  all_goals grind [Custody, update_apply, Child.load, inHand]

theorem write (job : Job) (hc : c < s.next) (hd : d < s.dispatched.length)
    (hnew : ∀ c', d ∉ (s.children c').load)
    (hslot : (s.children c).alive = true → s.tag (s.children c).idx = some d ∨
      W.striking = some ((s.children c).idx, d)) :
    Custody (s.modify c fun x => { x with stdin := x.stdin ++ [(job, d)] }) R W own := by
  rw [Prefork.modify]
  generalize hy : ({ s.children c with stdin := (s.children c).stdin ++ [(job, d)] } : Child) = y
  have hrest : y.idx = (s.children c).idx ∧ y.alive = (s.children c).alive ∧
      y.results = (s.children c).results ∧ y.hand = (s.children c).hand := by
    subst hy
    exact ⟨rfl, rfl, rfl, rfl⟩
  have hjobs : ∀ d', d' ∈ y.jobs ↔ d' = d ∨ d' ∈ (s.children c).jobs := by grind [Child.jobs]
  have hload : y.load.Perm (d :: (s.children c).load) := by
    subst hy
    simp only [Child.load, Child.jobs, map_append, map_cons, map_nil,
      append_assoc, singleton_append]
    exact perm_middle
  have hnodup := hload.nodup_iff
  refine { h with
    token := ?_, owed := ?_, nodup := ?_, apart := ?_, old := ?_, results := ?_, jobs := ?_,
    hand := ?_, unborn := ?_ }
  all_goals grind [Custody, update_apply, Child.load]

variable {f : Frame} {rest : List (Frame × Nat)} {q : ChildReaderPc}

/-- What a reader reads stays what is under way. -/
theorem read_results (hR : R c = .reading) (hout : (s.children c).stdout = (f, d) :: rest) :
    ({ s.children c with stdout := rest, hand := f.result.map fun _ => d } : Child).results.Perm
      (s.children c).results := by
  have hhand : (s.children c).hand = none := by rw [h.hand, hR]; rfl
  simp only [Child.results, hout, hhand]
  rcases hf : f.result with _ | _
  · simp [hf]
  · simp [hf, perm_append_singleton]

theorem read (hR : R c = .reading) (hc : c < s.next)
    (hout : (s.children c).stdout = (f, d) :: rest) :
    Custody (s.modify c fun x => { x with stdout := rest, hand := f.result.map fun _ => d })
      (update R c (f.result.elim .idle (.hand d))) W own := by
  have hload := h.read_results hR hout
  refine h.children _ _ (fun c' => ?_) (fun c' => ?_) (fun c' => ?_) (fun c' => ?_) (fun c' => ?_)
    (fun c' => ?_) (fun c' d' r => ?_) (fun c' d' r => ?_) (fun c' hc' => ?_)
  case refine_3 =>
    by_cases hcc : c' = c
    · subst hcc
      simp only [update_self]
      exact List.Perm.append_left _ hload
    · simp only [update_of_ne hcc]
      exact .refl _
  all_goals rcases hf : f.result with _ | _
  all_goals grind [Custody, update_apply, inHand, Child.jobs]

theorem seat (hc : c < s.next) (hhand : (R c).inHand = none) (htoken : ∀ d r, R c ≠ .token d r)
    (hq : q = .idle ∨ q = .reading ∨ q = .ending) : Custody s (update R c q) W own := by
  refine h.children s.children _ (fun _ => rfl) (fun _ => id) (fun _ => .refl _) (fun _ _ => id)
    (fun _ _ => .inl) (fun c' => ?_) (fun c' d r => ?_) (fun c' d r => ?_) (fun c' hc' => ?_)
  all_goals grind [Custody, update_apply, inHand]

theorem put_down (hR : R c = .hand d r) :
    d ∈ (s.children c).results ∧ ∀ c',
      ((s.modify c fun x => { x with hand := none }).children c').Without (s.children c') d := by
  have hhand : (s.children c).hand = some d := by rw [h.hand, hR]; rfl
  have hmem : d ∈ (s.children c).results := by simp [Child.results, hhand]
  have hload : (s.children c).load = (s.children c).jobs ++
      ((s.children c).stdout.filter fun fd => fd.1.result.isSome).map Prod.snd ++ [d] := by
    simp [Child.load, Child.results, hhand]
  refine ⟨hmem, fun c' => ?_⟩
  by_cases hcc : c' = c
  · subst hcc
    rw [modify_self]
    have hx : ({ s.children c' with hand := none } : Child).load = (s.children c').jobs ++
        ((s.children c').stdout.filter fun fd => fd.1.result.isSome).map Prod.snd := by
      simp [Child.load, Child.results, Child.jobs]
    have hnodup := h.nodup c'
    rw [hload] at hnodup
    have hnot : d ∉ ({ s.children c' with hand := none } : Child).load := by
      rw [hx]
      exact fun hd => (nodup_append.1 hnodup).2.2 d hd d (by simp) rfl
    refine ⟨rfl, rfl, rfl, ?_, fun d' hd' => ⟨?_, ?_⟩, hnot⟩
    · rw [hx, hload]
      exact sublist_append_left ..
    · simp only [Child.results, Option.toList, append_nil] at hd' ⊢
      exact mem_append_left _ hd'
    · rintro rfl
      exact hnot (mem_append_right _ hd')
  · rw [modify_of_ne hcc]
    have hnot : d ∉ (s.children c').load := by
      intro hd
      exact hcc (h.apart c' c d hd (mem_append_right _ hmem))
    refine ⟨rfl, rfl, rfl, .refl _, fun d' hd' => ⟨hd', ?_⟩, hnot⟩
    rintro rfl
    exact hnot (mem_append_right _ hd')

/-- The hands after a reader has put down its result. -/
theorem hand_down (hq : q.inHand = none) (c' : Nat) :
    ((s.modify c fun x => { x with hand := none }).children c').hand =
      (update R c q c').inHand := by
  by_cases hcc : c' = c
  · subst hcc
    rw [modify_self, update_self, hq]
  · rw [modify_of_ne hcc, update_of_ne hcc]
    exact h.hand c'

/-- A result whose slot is empty is discarded: the watchdog has claimed it. -/
theorem discard (hR : R c = .hand d r) (hc : c < s.next)
    (hslot : s.slots (s.children c).idx = none) :
    Custody { s.modify c fun x => { x with hand := none } with
        discarded := s.discarded ++ (s.children c).hand.toList }
      (update R c .idle) W own := by
  obtain ⟨hmem, hdown⟩ := h.put_down hR
  have hhand : (s.children c).hand = some d := by rw [h.hand, hR]; rfl
  have hclaimed : s.Claimed d := by
    obtain hsome | ⟨-, hcl⟩ := h.results c d hmem
    · rw [tag_none_iff.2 hslot] at hsome
      cases hsome
    · exact hcl
  have hnone := h.hand_down (c := c) (q := .idle) rfl
  simp only [Prefork.modify] at hdown hnone ⊢
  generalize update s.children c _ = ch at hdown hnone ⊢
  refine { h with
    token := ?_, paid := ?_, owed := ?_, discarded := ?_, results := ?_, jobs := ?_, hand := hnone
    unborn := ?_
    nodup := fun c' => (h.nodup c').sublist (hdown c').load
    apart := fun c₁ c₂ d' h₁ h₂ => h.apart c₁ c₂ d' ((hdown c₁).load.subset h₁)
      ((hdown c₂).load.subset h₂)
    old := fun c' d' hd' => h.old c' d' ((hdown c').load.subset hd') }
  all_goals grind [Custody, Child.Without, update_apply, List.Sublist.subset]

/-- The entry a reader finds is its result's own. -/
theorem own_entry (hR : R c = .hand d r) (ha : s.slots (s.children c).idx = some a) :
    a.dispatch = d := by
  obtain hsome | ⟨hnone, -⟩ := h.results c d (h.put_down hR).1
  · rw [tag_eq ha] at hsome
    exact Option.some.inj hsome
  · rw [tag_eq ha] at hnone
    cases hnone

theorem take (hR : R c = .hand d r) (hc : c < s.next) (ha : s.slots (s.children c).idx = some a) :
    Custody ((s.modify c fun x => { x with hand := none }).taken (s.children c).idx a)
      (update R c (.token d r)) W (update own d (.reader c)) := by
  obtain ⟨hmem, hdown⟩ := h.put_down hR
  obtain rfl := h.own_entry hR ha
  obtain ⟨hown, howed⟩ := h.slot _ a ha
  have hhand := h.hand_down (c := c) (q := .token a.dispatch r) rfl
  have hbusy : ∀ j d', s.owed j = some d' → j ≠ (s.children c).idx := by grind
  simp only [Prefork.modify, Prefork.taken] at hdown hhand ⊢
  generalize update s.children c _ = ch at hdown hhand ⊢
  refine { h with
    slot := ?_, token := ?_, paid := ?_, owes := ?_, owed := ?_, results := ?_, jobs := ?_
    hand := hhand, unborn := ?_
    holds := fun d' hd' => update_own hown (h.holds d' hd') (by simp)
    answered := fun d' hd' => update_own hown (h.answered d' hd') (by simp)
    dropped := fun d' hd' => update_own hown (h.dropped d' hd') (by simp)
    fresh := fun d' hd' => update_own hown (h.fresh d' hd') (by simp)
    apart := fun c₁ c₂ d' h₁ h₂ => h.apart c₁ c₂ d' ((hdown c₁).load.subset h₁)
      ((hdown c₂).load.subset h₂)
    old := fun c' d' hd' => h.old c' d' ((hdown c').load.subset hd')
    nodup := fun c' => (h.nodup c').sublist (hdown c').load }
  all_goals grind [Custody, Child.Without, update_apply, List.Sublist.subset, Child.load,
    WatchdogPc.owes_of_striking]

end

theorem expire (h : Custody s R .scanning own) (ha : s.slots i = some a) :
    Custody { s.taken i a with expiring := some a.dispatch } R (.taken i a)
      (update own a.dispatch .watchdog) := by
  obtain ⟨hown, -⟩ := h.slot _ a ha
  rw [taken]
  refine { h with
    slot := ?_, token := ?_, holds := ?_, owes := ?_, owed := ?_, expiring := rfl
    discarded := ?_, results := ?_, jobs := ?_
    paid := fun c d' r hR => update_own hown (h.paid c d' r hR) (by simp)
    answered := fun d' hd' => update_own hown (h.answered d' hd') (by simp)
    dropped := fun d' hd' => update_own hown (h.dropped d' hd') (by simp)
    fresh := fun d' hd' => update_own hown (h.fresh d' hd') (by simp) }
  all_goals grind [Custody, update_apply, WatchdogPc.holds, WatchdogPc.owes,
    WatchdogPc.striking]

/-- The watchdog has killed the process whose job it took. -/
theorem struck (h : Custody s R (.taken i a) own)
    (hdead : ∀ c, (s.children c).alive = true → (s.children c).idx = i → (s.children c).jobs = []) :
    Custody s R (.killed i a) own :=
  { h with jobs := by grind [Custody, WatchdogPc.striking] }

theorem readerPays (h : Custody s R W own) (hR : R c = .token d r) (hc : c < s.next)
    (inFlight : Nat → UInt32) :
    Custody
      { s with
        inFlight := inFlight
        owed := update s.owed (s.children c).idx none }
      (update R c (.paid d r)) W own := by
  obtain ⟨-, -⟩ := h.token c d r hR
  -- whoever owes this counter owes it for this dispatch
  have hother := fun i d' => WatchdogPc.holds_of_owes (p := W) (i := i) (d := d')
  refine { h with
    slot := ?_, token := ?_, paid := ?_, owes := ?_, owed := ?_, hand := ?_, unborn := ?_ }
  all_goals grind [Custody, update_apply, inHand]

theorem watchdogPays (h : Custody s R (.killed i a) own) (inFlight : Nat → UInt32) :
    Custody { s with inFlight := inFlight, owed := update s.owed i none } R (.paid i a) own := by
  have howed : s.owed i = some a.dispatch := h.owes i _ rfl
  have hown := h.holds _ rfl
  refine { h with slot := ?_, token := ?_, owes := ?_, owed := ?_ }
  all_goals grind [Custody, update_apply, WatchdogPc.owes]

theorem readerEmits (h : Custody s R W own) (hR : R c = .paid d r) (hc : c < s.next) :
    Custody { s with emitted := s.emitted ++ [⟨d, .reader, r⟩] } (update R c .idle) W
      (update own d .answered) := by
  have hown := h.paid c d r hR
  refine { h with
    slot := ?_, token := ?_, paid := ?_, owed := ?_, answered := ?_, once := ?_, discarded := ?_
    results := ?_, hand := ?_, unborn := ?_
    holds := fun d' hd' => update_own hown (h.holds d' hd') (by simp)
    dropped := fun d' hd' => update_own hown (h.dropped d' hd') (by simp)
    fresh := fun d' hd' => update_own hown (h.fresh d' hd') (by simp) }
  all_goals grind [Custody, update_apply, inHand, nodup_append]

theorem watchdogEmits (h : Custody s R (.paid i a) own) (r : JobResult) :
    Custody { s with emitted := s.emitted ++ [⟨a.dispatch, .watchdog, r⟩], expiring := none } R
      .scanning (update own a.dispatch .answered) := by
  have hown := h.holds _ rfl
  -- what was expiring has timed out now
  refine { h with
    slot := ?_, token := ?_, holds := ?_, owes := ?_, owed := ?_, answered := ?_, once := ?_
    expiring := rfl, discarded := ?_, results := ?_, jobs := ?_
    paid := fun c d' r hR => update_own hown (h.paid c d' r hR) (by simp)
    dropped := fun d' hd' => update_own hown (h.dropped d' hd') (by simp)
    fresh := fun d' hd' => update_own hown (h.fresh d' hd') (by simp) }
  all_goals grind [Custody, update_apply, WatchdogPc.holds, WatchdogPc.owes,
    WatchdogPc.striking, nodup_append]

end Custody

end Flexiq
