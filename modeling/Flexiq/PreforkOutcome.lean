import Flexiq.PreforkCustody
import Flexiq.PreforkTags

/-!
# One outcome per dispatch

The slot's entry is the right to report an outcome, but a result is matched with whatever entry the
slot of its index holds. A reader that drains the pipe of a dead child therefore takes the entry of
the job that was dispatched to the new child: a job that had already timed out is reported a second
time, and the new job's own result is thrown away later, when its reader finds the slot empty. The
restart itself empties the slot of a job whose result may be in the pipe, and sets the counter of
jobs in flight to zero while somebody may still be about to lower it.

In runs in which no result is under way when a slot is filled or reset, nobody still owes its
counter a decrement then, and a failed send finds its own entry, every dispatch has one owner at
any time (`Custody`), and the counters show exactly which children are busy (`Steered`). A live
child then has one job at a time (`one_child`).
-/

namespace Flexiq

open Child (jobs load results)

open Function List Option Bool Nat Prefork DispatcherPc

variable {i k c d : Nat} {t : PreforkThread} {op : PreforkOp} {env : PreforkEnv}
  {p : DispatcherPc}

/-! ## Quiet runs -/

namespace Prefork

/-- No result from a process of the index is unread or unmatched, and nobody who has taken its slot
still has to lower its counter. -/
def quiet (s : Prefork) (i : Nat) : Bool :=
  ((List.range s.next).all fun c =>
    (s.children c).idx != i || (s.children c).results.isEmpty) && (s.owed i).isNone

/-- How many jobs a child is busy with. -/
def count (s : Prefork) (i : Nat) : UInt32 := if s.Free i then 0 else 1

theorem count_of_free {s : Prefork} (h : s.Free i) : s.count i = 0 := if_pos h

theorem count_of_busy {s : Prefork} (h : ¬ s.Free i) : s.count i = 1 := if_neg h

theorem count_congr {s s' : Prefork} (h : s'.Free i ↔ s.Free i) : s'.count i = s.count i := by
  by_cases hf : s.Free i
  · rw [count_of_free hf, count_of_free (h.2 hf)]
  · rw [count_of_busy hf, count_of_busy (fun hf' => hf (h.1 hf'))]

/-- A slot is filled or reset when its index is quiet, and a failed send finds its entry. -/
def settles (s : Prefork) : PreforkOp → Bool
  | .setSlot i _ | .resetSlot i => s.quiet i
  | .rollback i => (s.slots i).isSome
  | _ => true

end Prefork

/-- Every interleaving in which slots are filled and reset when their index is quiet and a failed
send finds its own entry. -/
abbrev quietRules (n : Nat) : Rules preforkMachine (preforkClients n) PreforkThread where
  mayStart s t call := Prefork.mayStart n s t call = true
  mayStep s _ op _ := Prefork.mayStep s op = true ∧ Prefork.settles s op = true

namespace DispatcherPc

/-- The child that is not in the table of processes yet. -/
def newborn : DispatcherPc → Option Nat
  | spawned _ _ c | wired _ _ c => some c
  | _ => none

/-- The child being started, with its index. -/
def starting : DispatcherPc → Option (Nat × Nat)
  | spawned _ i c | wired _ i c | installed _ i c | cleared _ i c | zeroed _ i c => some (i, c)
  | _ => none

/-- The index whose process is dead and is being replaced. -/
def replaced : DispatcherPc → Option Nat
  | dead _ i | spawned _ i _ | wired _ i _ => some i
  | _ => none

/-- The index that has a new writer and its old process. -/
def rewired : DispatcherPc → Option Nat
  | wired _ i _ => some i
  | _ => none

/-- The index that has a new writer, with the child it writes to. -/
def wiring : DispatcherPc → Option (Nat × Nat)
  | wired _ i c => some (i, c)
  | _ => none

/-- The index whose new process is installed and whose slot is not reset yet. -/
def placed : DispatcherPc → Option (Nat × Nat)
  | installed _ i c => some (i, c)
  | _ => none

/-- The slot just filled, with its dispatch. -/
def filling : DispatcherPc → Option (Nat × Nat)
  | filled i d _ => some (i, d)
  | _ => none

/-- The index whose slot is reset and whose counter is not yet. -/
def clearing : DispatcherPc → Option Nat
  | cleared _ i _ => some i
  | _ => none

/-- The index whose slot is filled and whose counter does not show it yet. -/
def adding : DispatcherPc → Option Nat
  | filled i _ _ | sent i _ | failed i _ => some i
  | _ => none

/-- What the counter of an index is behind. -/
def adds (p : DispatcherPc) (i : Nat) : UInt32 := if p.adding = some i then 1 else 0

theorem adds_self (h : p.adding = some i) : p.adds i = 1 := if_pos h

theorem adds_of_ne (h : p.adding ≠ some i) : p.adds i = 0 := if_neg h

/-- The dispatch that has not been written to a child. -/
def unsent : DispatcherPc → Option Nat
  | filled _ d _ | failed _ d => some d
  | _ => none

/-- At and above this index no child was ever started. -/
def vacant : DispatcherPc → Option Nat
  | ready k _ | dead k _ | spawned k _ _ | wired k _ _ | installed k _ _ | cleared k _ _
  | zeroed k _ _ => some k
  | _ => none

/-- Some child is free while the dispatch loop looks for one, and what it loaded as zero is. -/
def Room (n : Nat) (s : Prefork) : DispatcherPc → Prop
  | ready _ loaded =>
    (∃ i < n, loaded[i]? = some 0 ∨ loaded.length ≤ i ∧ s.Free i) ∧
      ∀ i, loaded[i]? = some 0 → s.Free i
  | dead _ _ | spawned _ _ _ | wired _ _ _ | installed _ _ _ | cleared _ _ _ | zeroed _ _ _ =>
    ∃ i < n, s.Free i
  | _ => True

theorem Room.mono {n : Nat} {s s' : Prefork} (h : p.Room n s) (hfree : ∀ i, s.Free i → s'.Free i) :
    p.Room n s' := by
  have hex : (∃ i < n, s.Free i) → ∃ i < n, s'.Free i := fun ⟨i, hi, hf⟩ => ⟨i, hi, hfree i hf⟩
  cases p with
  | ready =>
    obtain ⟨⟨i, hi, hor⟩, hzero⟩ := h
    exact ⟨⟨i, hi, hor.imp_right fun ⟨hle, hf⟩ => ⟨hle, hfree i hf⟩⟩,
      fun i hi => hfree i (hzero i hi)⟩
  | dead | spawned | wired | installed | cleared | zeroed =>
    exact hex h
  | _ => trivial

end DispatcherPc

/-- What the dispatch loop knows: the counters show which children are busy, and a child that is
replaced is dead. -/
structure Steered (n : Nat) (s : Prefork) (D : DispatcherPc) (W : WatchdogPc) : Prop where
  unsent : ∀ d, D.unsent = some d → d < s.dispatched.length ∧ ∀ c, d ∉ (s.children c).load
  counts : ∀ i, D.clearing ≠ some i → s.inFlight i + D.adds i = s.count i
  cleared : ∀ i, D.clearing = some i → s.Free i
  room : D.Room n s
  writer : ∀ i c, s.writers i = some c → (s.children c).idx = i
  process : ∀ i c, s.processes i = some c → c < s.next ∧ (s.children c).idx = i
  same : ∀ i, D.rewired ≠ some i → s.writers i = s.processes i
  wiring : ∀ i c, D.wiring = some (i, c) → s.writers i = some c
  placed : ∀ i c, D.placed = some (i, c) → s.processes i = some c
  live : ∀ c < s.next, (s.children c).alive = true →
    s.processes (s.children c).idx = some c ∨ D.newborn = some c
  replaced : ∀ i, D.replaced = some i → ∀ c, s.processes i = some c → (s.children c).alive = false
  starting : ∀ i c, D.starting = some (i, c) →
    c < s.next ∧ (s.children c).idx = i ∧ (s.children c).load = []
  vacant : ∀ k, D.vacant = some k → ∀ i, k ≤ i → s.processes i = none
  top : ∀ i, n ≤ i → s.processes i = none
  entry : ∀ i d, D.adding = some i → D.unsent = some d → ∀ a, s.slots i = some a → a.dispatch = d
  filled : ∀ i d, D.filling = some (i, d) → s.tag i = some d ∨ W.striking = some (i, d) ∨
    ∀ c, s.processes i = some c → (s.children c).alive = false

/-- While fewer dispatches than workers are unanswered, some child is free: the dispatches in or
taken from the slots of busy children are different, and nobody has answered them. -/
theorem Custody.exists_free {n : Nat} {s : Prefork} {R : Nat → ChildReaderPc} {W : WatchdogPc}
    {own : Nat → Owner} (h : Custody s R W own) (hn : s.unanswered < n) : ∃ i < n, s.Free i := by
  by_contra hall
  -- the dispatch an index is busy with
  let busy : Nat → Nat := fun i => ((s.tag i).or (s.owed i)).getD 0
  have hbusy : ∀ i < n, s.tag i = some (busy i) ∨ s.owed i = some (busy i) := by
    intro i hi
    rcases hslot : s.slots i with _ | a
    · rcases howed : s.owed i with _ | d
      · exact absurd ⟨i, hi, hslot, howed⟩ hall
      · right
        simp only [busy, Custody.tag_none_iff.2 hslot, howed, Option.or, Option.getD]
    · left
      simp only [busy, Custody.tag_eq hslot, Option.or, Option.getD]
  have hown : ∀ i < n, own (busy i) = .slot i ∨
      (∃ c, own (busy i) = .reader c ∧ (s.children c).idx = i) ∨
      own (busy i) = .watchdog ∧ W.owes = some (i, busy i) := by
    intro i hi
    obtain htag | howed := hbusy i hi
    · obtain ⟨a, ha, hd⟩ := map_eq_some_iff.1 htag
      exact .inl (hd ▸ (h.slot i a ha).1)
    · obtain ⟨c, r, hc, hidx⟩ | howes := h.owed i _ howed
      · exact .inr (.inl ⟨c, (h.token c _ r hc).1, hidx⟩)
      · exact .inr (.inr ⟨h.holds _ (WatchdogPc.holds_of_owes howes), howes⟩)
  have hinj : Set.InjOn busy (Finset.range n) := by
    intro i hi j hj hij
    have hi := hown i (Finset.mem_range.1 hi)
    have hj := hown j (Finset.mem_range.1 hj)
    rw [← hij] at hj
    rcases hi with hi | ⟨_, hi, hc⟩ | ⟨hi, hw⟩ <;> rcases hj with hj | ⟨c', hj, hc'⟩ | ⟨hj, hw'⟩
    all_goals rw [hi] at hj
    all_goals cases hj
    · rfl
    · exact hc.symm.trans hc'
    · exact congrArg Prod.fst (some.inj (hw.symm.trans hw'))
  have hle : (Finset.range n).card ≤ ((Finset.range s.dispatched.length).filter fun d =>
      d ∉ s.answered ∧ d ∉ s.dropped).card := by
    refine Finset.card_le_card_of_injOn busy (fun i hi => ?_) hinj
    have hi := hown i (Finset.mem_range.1 hi)
    refine Finset.mem_filter.2 ⟨Finset.mem_range.2 ?_, fun ha => ?_, fun hd => ?_⟩
    · by_contra hge
      have := h.fresh _ (Nat.le_of_not_lt hge)
      grind
    · have := h.answered _ ha
      grind
    · have := h.dropped _ hd
      grind
  rw [Finset.card_range, ← count_eq_card_filter_range] at hle
  exact absurd hn (not_lt.2 hle)

/-! ## What an operation does to what the dispatch loop knows -/

namespace Steered

variable {n : Nat} {s s' : Prefork} {D : DispatcherPc} {W W' : WatchdogPc}

section

variable (h : Steered n s D W)
include h

/-- Another thread's step: children only die and lose load, slots only empty, and the counters
follow. -/
theorem frame (hnext : s'.next = s.next) (hwriters : s'.writers = s.writers)
    (hprocesses : s'.processes = s.processes)
    (hidx : ∀ c, (s'.children c).idx = (s.children c).idx)
    (halive : ∀ c, (s'.children c).alive = true → (s.children c).alive = true)
    (hload : ∀ c, ∀ d ∈ (s'.children c).load, d ∈ (s.children c).load)
    (hdispatched : s'.dispatched = s.dispatched)
    (hslots : ∀ i a, s'.slots i = some a → s.slots i = some a)
    (hfree : ∀ i, s.Free i → s'.Free i)
    (hcounts : ∀ i, D.clearing ≠ some i → s'.inFlight i + D.adds i = s'.count i)
    (hfilled : ∀ i d, D.filling = some (i, d) → s'.tag i = some d ∨ W'.striking = some (i, d) ∨ ∀ c,
      s.processes i = some c → (s'.children c).alive = false) : Steered n s' D W' := by
  have hnil : ∀ c, (s.children c).load = [] → (s'.children c).load = [] := by
    intro c hc
    refine eq_nil_iff_forall_not_mem.2 fun d hd => ?_
    have := hload c d hd
    rw [hc] at this
    cases this
  exact
    { counts := hcounts
      cleared := fun i hi => hfree i (h.cleared i hi)
      room := h.room.mono hfree
      entry := fun i d hi hd a ha => h.entry i d hi hd a (hslots i a ha)
      unsent := fun d hd => ⟨hdispatched ▸ (h.unsent d hd).1,
        fun c hc => (h.unsent d hd).2 c (hload c d hc)⟩
      writer := by simpa only [hwriters, hidx] using h.writer
      process := by simpa only [hprocesses, hnext, hidx] using h.process
      same := by simpa only [hwriters, hprocesses] using h.same
      wiring := by simpa only [hwriters] using h.wiring
      placed := by simpa only [hprocesses] using h.placed
      live := by
        simp only [hnext, hprocesses, hidx]
        exact fun c hc hal => h.live c hc (halive c hal)
      replaced := by
        simp only [hprocesses, eq_false_iff]
        exact fun i hi c hc hal => eq_false_iff.1 (h.replaced i hi c hc) (halive c hal)
      starting := by
        simp only [hnext, hidx]
        exact fun i c hc => (h.starting i c hc).imp_right fun hi => hi.imp_right (hnil c)
      vacant := by simpa only [hprocesses] using h.vacant
      top := by simpa only [hprocesses] using h.top
      filled := by simpa only [hprocesses] using hfilled }

/-- A step of another thread that concerns neither slots nor counters nor the watchdog. -/
theorem inside (ch : Nat → Child) (hidx : ∀ c, (ch c).idx = (s.children c).idx)
    (halive : ∀ c, (ch c).alive = true → (s.children c).alive = true)
    (hload : ∀ c, ∀ d ∈ (ch c).load, d ∈ (s.children c).load) :
    Steered n { s with children := ch } D W := by
  refine h.frame rfl rfl rfl hidx halive hload rfl (fun _ _ => id) (fun _ => id) h.counts
    fun i d hD => ?_
  refine (h.filled i d hD).imp_right fun hor => hor.imp_right fun hdead c hc => ?_
  rw [eq_false_iff]
  exact fun hal => absurd (hdead c hc) (by rw [halive c hal]; simp)

theorem child (c : Nat) (f : Child → Child) (hidx : (f (s.children c)).idx = (s.children c).idx)
    (halive : (f (s.children c)).alive = true → (s.children c).alive = true)
    (hload : ∀ d ∈ (f (s.children c)).load, d ∈ (s.children c).load) :
    Steered n (s.modify c f) D W :=
  h.inside _ (s.modify_idx hidx)
    (s.modify_cases (fun c' x => x.alive = true → (s.children c').alive = true) halive
      fun _ _ => id)
    (s.modify_cases (fun c' x => ∀ d ∈ x.load, d ∈ (s.children c').load) hload fun _ _ _ => id)

/-- What the counter of an index says while the loop is between two slots. -/
theorem count_between (hclear : D.clearing = none) (hadd : D.adding = none) (i : Nat) :
    s.inFlight i + 0 = s.count i := by
  have hcount := h.counts i (by rw [hclear]; simp)
  rwa [adds_of_ne (by rw [hadd]; simp)] at hcount

theorem ready (hpc : D.clearing = none ∧ D.adding = none ∧ D.rewired = none ∧ D.newborn = none)
    (k : Nat) (hroom : ∃ i < n, s.Free i) (hvacant : ∀ i, k ≤ i → s.processes i = none) :
    Steered n s (.ready k []) W := by
  obtain ⟨i, hi, hfree⟩ := hroom
  obtain ⟨hclear, hadd, hwire, hborn⟩ := hpc
  exact
    { unsent := nofun
      counts := fun j _ => h.count_between hclear hadd j
      cleared := nofun
      room := ⟨⟨i, hi, .inr ⟨zero_le _, hfree⟩⟩, nofun⟩
      writer := h.writer
      process := h.process
      same := fun j _ => h.same j (by rw [hwire]; simp)
      wiring := nofun
      placed := nofun
      live := fun c hc hal => (h.live c hc hal).imp_right fun h' => hborn.symm.trans h'
      replaced := nofun
      starting := nofun
      vacant := by rintro _ ⟨⟩; exact hvacant
      top := h.top
      entry := nofun
      filled := nofun }

end

theorem free_of_room (h : (DispatcherPc.ready k []).Room n s) : ∃ i < n, s.Free i := by
  obtain ⟨⟨i, hi, hzero | ⟨-, hfree⟩⟩, -⟩ := h
  · cases hzero
  · exact ⟨i, hi, hfree⟩

theorem dead (h : Steered n s (.ready k []) W)
    (hdead : ∀ c, s.processes i = some c → (s.children c).alive = false) :
    Steered n s (.dead k i) W :=
  { h with
    room := free_of_room h.room
    replaced := by rintro _ ⟨⟩; exact hdead }

/-- A child is spawned in the place of one that is dead or never was. -/
theorem spawned (h : Steered n s D W)
    (hD : D.clearing = none ∧ D.adding = none ∧ D.rewired = none ∧ D.newborn = none)
    (hdead : ∀ c, s.processes i = some c → (s.children c).alive = false)
    (hroom : ∃ i < n, s.Free i) (hvacant : ∀ j, k ≤ j → s.processes j = none) :
    Steered n { s with next := s.next + 1, children := update s.children s.next (.new i) }
      (.spawned k i s.next) W := by
  have hready := h.ready hD k hroom hvacant
  have hold : ∀ j c, s.processes j = some c →
      update s.children s.next (.new i) c = s.children c := by
    intro j c hc
    exact update_of_ne (Nat.ne_of_lt (h.process j c hc).1) ..
  refine { hready with
    unsent := nofun, room := hroom, writer := ?_, process := ?_, live := ?_
    replaced := ?_, starting := ?_
    filled := nofun }
  · intro j c hc
    have hp : s.processes j = some c := (hready.same j (by simp [rewired])).symm.trans hc
    simp only [hold j c hp]
    exact h.writer j c hc
  · intro j c hc
    simp only [hold j c hc]
    exact ⟨lt_succ_of_lt (h.process j c hc).1, (h.process j c hc).2⟩
  · intro c hc hal
    by_cases hcn : c = s.next
    · exact .inr (by rw [hcn]; rfl)
    · simp only [update_of_ne hcn] at hal ⊢
      exact .inl ((hready.live c (lt_of_le_of_ne (le_of_lt_succ hc) hcn) hal).resolve_right
        (by simp [newborn]))
  · rintro _ ⟨⟩ c hc
    simp only [hold i c hc]
    exact hdead c hc
  · rintro _ _ ⟨⟩
    simp only [update_self]
    exact ⟨lt_succ_self _, rfl, rfl⟩

theorem wired (h : Steered n s (.spawned k i c) W) :
    Steered n { s with writers := update s.writers i (some c) } (.wired k i c) W := by
  refine { h with writer := ?_, same := ?_, wiring := ?_ }
  · have hnew := (h.starting i c rfl).2.1
    have hwriter := h.writer
    grind [update_apply]
  · intro j hj
    have hji : j ≠ i := fun heq => hj (by rw [heq]; rfl)
    simp only [update_of_ne hji]
    exact h.same j (by simp [rewired])
  · rintro _ _ ⟨⟩
    exact update_self ..

theorem installed (h : Steered n s (.wired k i c) W) (hk : i < k) (hn : i < n) :
    Steered n { s with processes := update s.processes i (some c) } (.installed k i c) W := by
  obtain ⟨hlt, hidx, -⟩ := h.starting i c rfl
  have hwriter := h.wiring i c rfl
  have hsame : ∀ j, j ≠ i → s.writers j = s.processes j := fun j hj =>
    h.same j (by simpa [rewired] using Ne.symm hj)
  -- the process that was there is dead
  have hdead := h.replaced i rfl
  have hlive : ∀ c', c' < s.next → (s.children c').alive = true →
      s.processes (s.children c').idx = some c' ∨ c' = c := fun c' hc' hal =>
    (h.live c' hc' hal).imp_right fun hnew => (some.inj hnew).symm
  have hvacant := h.vacant k rfl
  refine { h with
    process := ?_, same := ?_, wiring := nofun, placed := ?_, live := ?_
    replaced := nofun, vacant := ?_, top := ?_, filled := nofun }
  · have hprocess := h.process
    grind [update_apply]
  · grind [update_apply]
  · rintro j _ ⟨⟩
    exact update_self ..
  · grind [update_apply]
  · rintro _ ⟨⟩ j hj
    simp only [update_of_ne (ne_of_gt (lt_of_lt_of_le hk hj))]
    exact hvacant j hj
  · intro j hj
    simp only [update_of_ne (ne_of_gt (lt_of_lt_of_le hn hj))]
    exact h.top j hj

theorem free_drop (howed : s.owed i = none) : (s.drop i).Free i :=
  ⟨update_self .., howed⟩

variable {j : Nat} {loads : List UInt32} {job : Job} {a : ActiveJob}

theorem free_drop_of_ne (hj : j ≠ i) : (s.drop i).Free j ↔ s.Free j := by
  unfold Prefork.Free
  rw [show (s.drop i).slots j = s.slots j from update_of_ne hj ..]
  rfl

theorem free_drop_of_free (h : s.Free j) : (s.drop i).Free j := by
  by_cases hj : j = i
  · subst hj
    exact free_drop h.2
  · exact (free_drop_of_ne hj).2 h

theorem cleared_step (h : Steered n s (.installed k i c) W) (howed : s.owed i = none) :
    Steered n (s.drop i) (.cleared k i c) W := by
  obtain ⟨j₀, hj₀, hfree⟩ := h.room
  refine { h with
    counts := ?_, cleared := ?_, room := ⟨j₀, hj₀, free_drop_of_free hfree⟩
    placed := nofun
    entry := nofun
    filled := nofun }
  · intro j hj
    have hji : j ≠ i := fun heq => hj (by rw [heq]; rfl)
    exact (h.counts j (by simp [clearing])).trans
      (count_congr (free_drop_of_ne hji)).symm
  · rintro _ ⟨⟩
    exact free_drop howed

theorem zeroed (h : Steered n s (.cleared k i c) W) :
    Steered n { s with inFlight := update s.inFlight i 0 } (.zeroed k i c) W := by
  refine { h with counts := fun j hj => ?_, cleared := nofun }
  by_cases hji : j = i
  · subst hji
    have hfree : ({ s with inFlight := update s.inFlight j 0 } : Prefork).Free j := h.cleared j rfl
    rw [count_of_free hfree, adds_of_ne (by simp [adding])]
    simp only [update_self]
    rfl
  · simp only [update_of_ne hji]
    exact h.counts j (by simpa [clearing] using Ne.symm hji)

theorem started (h : Steered n s (.zeroed k i c) W) : Steered n s (.ready k []) W :=
  h.ready ⟨rfl, rfl, rfl, rfl⟩ k h.room (h.vacant k rfl)

theorem free_of_zero (h : Steered n s (.ready k loads) W) : s.inFlight i = 0 ↔ s.Free i := by
  have hcount := h.count_between rfl rfl i
  by_cases hfree : s.Free i
  · rw [count_of_free hfree] at hcount
    exact ⟨fun _ => hfree, fun _ => by simpa using hcount⟩
  · rw [count_of_busy hfree] at hcount
    refine ⟨fun hzero => ?_, fun h' => absurd h' hfree⟩
    rw [hzero] at hcount
    exact absurd hcount (by decide)

theorem loaded (h : Steered n s (.ready k loads) W) :
    Steered n s (.ready k (loads ++ [s.inFlight loads.length])) W := by
  have hzero := h.free_of_zero (i := loads.length)
  obtain ⟨⟨i, hi, hor⟩, hfree⟩ := h.room
  refine { h with room := ⟨⟨i, hi, ?_⟩, fun j hj => ?_⟩ }
  · grind
  · grind

/-- The least loaded of the children is free if any was loaded as zero. -/
theorem leastLoaded_zero {counts : List UInt32} (h : (0 : UInt32) ∈ counts) :
    counts[PreforkPool.leastLoaded counts]? = some 0 := by
  induction counts with
  | nil => cases h
  | cons count counts ih =>
    simp only [PreforkPool.leastLoaded]
    split
    · next hany =>
      obtain ⟨x, -, hlt⟩ := any_eq_true.1 hany
      have hlt : x < count := of_decide_eq_true hlt
      have hne : count ≠ 0 := by
        rintro rfl
        exact absurd hlt (UInt32.not_lt_zero)
      rw [List.getElem?_cons_succ]
      exact ih ((mem_cons.1 h).resolve_left fun h0 => hne h0.symm)
    · next hany =>
      rw [List.getElem?_cons_zero]
      obtain h0 | h0 := mem_cons.1 h
      · rw [← h0]
      · have hnot : ¬ (0 : UInt32) < count := fun hlt =>
          hany (any_eq_true.2 ⟨0, h0, decide_eq_true hlt⟩)
        rw [UInt32.le_zero_iff.1 (UInt32.not_lt.1 hnot)]

theorem free_leastLoaded (h : Steered n s (.ready k loads) W) (hlen : loads.length = n) :
    s.Free (PreforkPool.leastLoaded loads) := by
  obtain ⟨⟨i, hi, hor⟩, hfree⟩ := h.room
  have hzero : loads[i]? = some 0 := hor.resolve_right fun ⟨hle, _⟩ => by omega
  exact hfree _ (leastLoaded_zero (mem_of_getElem? hzero))

theorem filled_step (h : Steered n s (.ready k loads) W) (hfree : s.Free i)
    (hload : ∀ c, ∀ d ∈ (s.children c).load, d < s.dispatched.length) (job : Job) (now : Int) :
    Steered n
      { s with
        slots := update s.slots i (some (.of job now s.dispatched.length))
        dispatched := s.dispatched ++ [job] }
      (.filled i s.dispatched.length job) W := by
  refine { h with
    unsent := ?_, counts := fun j _ => ?_, cleared := nofun, room := trivial
    vacant := nofun, entry := ?_, filled := ?_ }
  · rintro d ⟨⟩
    exact ⟨by simp, fun c hc => lt_irrefl _ (hload c _ hc)⟩
  · have hcount := h.count_between rfl rfl j
    by_cases hj : j = i
    · subst hj
      rw [count_of_free hfree] at hcount
      rw [adds_self rfl, count_of_busy]
      · change s.inFlight j + 1 = 1
        grind
      · rintro ⟨hnone, -⟩
        simp only [update_self] at hnone
        cases hnone
    · rw [adds_of_ne (by simpa [adding] using Ne.symm hj)]
      refine hcount.trans (count_congr ?_).symm
      unfold Prefork.Free
      simp only [update_of_ne hj]
  · rintro _ _ ⟨⟩ ⟨⟩ _ ha
    simp only [update_self] at ha
    cases ha
    rfl
  · rintro _ _ ⟨⟩
    left
    rw [Custody.tag_update_self (s := s) rfl]
    rfl

theorem failed (h : Steered n s (.filled i d job) W) : Steered n s (.failed i d) W :=
  { h with filled := nofun }

theorem sent (h : Steered n s (.filled i d job) W) :
    Steered n (s.modify c fun x => { x with stdin := x.stdin ++ [(job, d)] }) (.sent i d) W := by
  have hidx := s.modify_idx (c := c) (f := fun x => { x with stdin := x.stdin ++ [(job, d)] }) rfl
  have halive := s.modify_cases (c := c) (f := fun x => { x with stdin := x.stdin ++ [(job, d)] })
    (fun c' x => x.alive = (s.children c').alive) rfl fun _ _ => rfl
  refine { h with
    unsent := nofun, writer := ?_, process := ?_, live := ?_
    starting := nofun, replaced := nofun, entry := nofun
    filled := nofun }
  · exact fun j c' hc => (hidx c').trans (h.writer j c' hc)
  · exact fun j c' hc => ⟨(h.process j c' hc).1, (hidx c').trans (h.process j c' hc).2⟩
  · intro c' hc' hal
    rw [hidx]
    exact h.live c' hc' ((halive c').symm.trans hal)

theorem added (h : Steered n s (.sent i d) W) :
    Steered n { s with inFlight := update s.inFlight i (s.inFlight i + 1) } .idle W := by
  refine { h with
    counts := fun j _ => ?_
    entry := nofun }
  have hcount := h.counts j (by simp [clearing])
  rw [adds_of_ne (by simp [adding])]
  by_cases hj : j = i
  · subst hj
    rw [adds_self rfl] at hcount
    rw [UInt32.add_zero]
    simp only [update_self]
    exact hcount
  · rw [adds_of_ne (by simpa [adding] using Ne.symm hj)] at hcount
    simp only [update_of_ne hj]
    exact hcount

theorem rolledBack (h : Steered n s (.failed i d) W) (ha : s.slots i = some a)
    (howed : s.owed i = none) : Steered n (s.drop i) .idle W := by
  refine { h with
    unsent := nofun, counts := fun j _ => ?_, cleared := nofun, room := trivial
    entry := nofun
    filled := nofun }
  have hcount := h.counts j (by simp [clearing])
  rw [adds_of_ne (by simp [adding])]
  by_cases hj : j = i
  · subst hj
    have hbusy : ¬ s.Free j := fun hfree => by
      rw [hfree.1] at ha
      cases ha
    rw [adds_self rfl, count_of_busy hbusy] at hcount
    rw [count_of_free (free_drop howed)]
    change s.inFlight j + 0 = 0
    grind
  · rw [adds_of_ne (by simpa [adding] using Ne.symm hj)] at hcount
    exact hcount.trans (count_congr (free_drop_of_ne hj)).symm

theorem load_newborn (h : Steered n s D W) (hc : D.newborn = some c) :
    (s.children c).load = [] := by
  cases D with
  | spawned k i | wired k i =>
    cases hc
    exact (h.starting i c rfl).2.2
  | _ => cases hc

theorem taken (h : Steered n s D W) (ha : s.slots i = some a) (hnext : s'.next = s.next)
    (hwriters : s'.writers = s.writers) (hprocesses : s'.processes = s.processes)
    (hdispatched : s'.dispatched = s.dispatched) (hin : s'.inFlight = s.inFlight)
    (hslots : s'.slots = update s.slots i none)
    (howed : s'.owed = update s.owed i (some a.dispatch))
    (hidx : ∀ c, (s'.children c).idx = (s.children c).idx)
    (halive : ∀ c, (s'.children c).alive = (s.children c).alive)
    (hload : ∀ c, ∀ d ∈ (s'.children c).load, d ∈ (s.children c).load)
    (hstrike : ∀ x, W.striking = some x → W'.striking = some x)
    (hfilled : D.filling = some (i, a.dispatch) → W'.striking = some (i, a.dispatch)) :
    Steered n s' D W' := by
  have hfree : ∀ j, s'.Free j ↔ s.Free j := by
    intro j
    rw [Prefork.Free, hslots, howed]
    grind [update_apply]
  refine h.frame hnext hwriters hprocesses hidx (fun c hal => (halive c).symm.trans hal) hload
    hdispatched (fun j b hb => ?_) (fun j => (hfree j).2) (fun j hj => ?_) fun j d hD => ?_
  · rw [hslots] at hb
    grind [update_apply]
  · rw [hin]
    exact (h.counts j hj).trans (count_congr (hfree j)).symm
  · obtain htag | hst | hdead := h.filled j d hD
    · by_cases hj : j = i
      · subst hj
        rw [Custody.tag_eq ha] at htag
        cases htag
        exact .inr (.inl (hfilled hD))
      · exact .inl ((Custody.tag_update_ne (s := s) hslots hj).trans htag)
    · exact .inr (.inl (hstrike _ hst))
    · exact .inr (.inr fun c hc => (halive c).trans (hdead c hc))

theorem paid (h : Steered n s D W) (hslot : ∀ a, s.slots i ≠ some a) (howed : s.owed i = some d)
    (hstrike : ∀ x, W.striking = some x → W'.striking = some x) :
    Steered n
      { s with
        inFlight := update s.inFlight i (s.inFlight i - 1)
        owed := update s.owed i none } D W' := by
  have hbusy : ¬ s.Free i := fun hfree => by
    rw [hfree.2] at howed
    cases howed
  refine h.frame rfl rfl rfl (fun _ => rfl) (fun _ => id) (fun _ _ => id) rfl (fun _ _ => id)
    (fun j hj => ⟨hj.1, ?_⟩) (fun j hj => ?_) fun j d' hD => ?_
  · by_cases hji : j = i
    · subst hji
      exact update_self ..
    · exact (update_of_ne hji ..).trans hj.2
  · have hcount := h.counts j hj
    by_cases hji : j = i
    · subst hji
      rw [count_of_busy hbusy] at hcount
      rw [count_of_free]
      · simp only [update_self]
        grind
      · refine ⟨?_, update_self ..⟩
        rcases hs : s.slots j with _ | a
        · rfl
        · exact absurd hs (hslot a)
    · simp only [update_of_ne hji]
      refine hcount.trans (count_congr ?_).symm
      simp only [Prefork.Free, update_of_ne hji]
  · exact (h.filled j d' hD).imp_right fun hor => hor.imp_left (hstrike _)

theorem emitted (h : Steered n s D W) (emitted : List Emitted) (expiring : Option Nat)
    (hstrike : ∀ x, W.striking = some x → W'.striking = some x) :
    Steered n { s with emitted := emitted, expiring := expiring } D W' :=
  h.frame rfl rfl rfl (fun _ => rfl) (fun _ => id) (fun _ _ => id) rfl (fun _ _ => id)
    (fun _ => id) h.counts fun j d' hD => (h.filled j d' hD).imp_right fun hor =>
      hor.imp_left (hstrike _)

end Steered

/-! ## The invariant of the pool -/

namespace PreforkThread

/-- The place is one of the thread's. -/
def Home : PreforkThread → PreforkPc → Prop
  | .dispatcher, .dispatcher _ => True
  | .reader c, .reader _ c' _ => c = c'
  | .watchdog, .watchdog _ => True
  | .child c, .child c' => c = c'
  | _, _ => False

/-- Where a thread is before it has made any call. -/
def rest : PreforkThread → PreforkPc
  | .dispatcher => .dispatcher .idle
  | .reader c => .reader 0 c .idle
  | .watchdog => .watchdog .scanning
  | .child c => .child c

theorem rest_done (t : PreforkThread) : t.rest.Done := by cases t <;> trivial

end PreforkThread

namespace PreforkPool

/-- The places of the threads. -/
def dispatcherPc (G : PreforkThread → PreforkPc) : DispatcherPc :=
  match G .dispatcher with
  | .dispatcher p => p
  | _ => .idle

@[inherit_doc dispatcherPc]
def readerPc (G : PreforkThread → PreforkPc) (c : Nat) : ChildReaderPc :=
  match G (.reader c) with
  | .reader _ _ p => p
  | _ => .idle

@[inherit_doc dispatcherPc]
def watchdogPc (G : PreforkThread → PreforkPc) : WatchdogPc :=
  match G .watchdog with
  | .watchdog p => p
  | _ => .scanning

section update

variable (G : PreforkThread → PreforkPc)

theorem dispatcherPc_self (p : DispatcherPc) :
    dispatcherPc (update G .dispatcher (.dispatcher p)) = p := by
  simp [dispatcherPc]

theorem dispatcherPc_of_ne (h : t ≠ .dispatcher) (g : PreforkPc) :
    dispatcherPc (update G t g) = dispatcherPc G := by
  simp [dispatcherPc, update_of_ne (Ne.symm h)]

theorem readerPc_self (i c : Nat) (p : ChildReaderPc) :
    readerPc (update G (.reader c) (.reader i c p)) = update (readerPc G) c p := by
  funext c'
  by_cases hcc : c' = c
  · subst hcc
    simp [readerPc]
  · simp [readerPc, hcc]

theorem readerPc_of_ne (h : ∀ c, t ≠ .reader c) (g : PreforkPc) :
    readerPc (update G t g) = readerPc G := by
  funext c
  simp [readerPc, update_of_ne (Ne.symm (h c))]

theorem watchdogPc_self (p : WatchdogPc) : watchdogPc (update G .watchdog (.watchdog p)) = p := by
  simp [watchdogPc]

theorem watchdogPc_of_ne (h : t ≠ .watchdog) (g : PreforkPc) :
    watchdogPc (update G t g) = watchdogPc G := by
  simp [watchdogPc, update_of_ne (Ne.symm h)]

end update

/-- Custody and steering, tied to the places of the threads. -/
structure Inv (n : Nat) (s : Prefork) (G : PreforkThread → PreforkPc) : Prop where
  home : ∀ t : PreforkThread, t.Home (G t)
  seat : ∀ c i p, G (.reader c) = .reader i c p → p ≠ .idle →
    i = (s.children c).idx ∧ c < s.next
  custody : ∃ own, Custody s (readerPc G) (watchdogPc G) own
  steered : Steered n s (dispatcherPc G) (watchdogPc G)

variable {n : Nat} {s s' : Prefork} {G : PreforkThread → PreforkPc}

theorem home_update {g : PreforkPc} (h : ∀ t : PreforkThread, t.Home (G t)) (hg : t.Home g)
    (u : PreforkThread) : u.Home (update G t g u) :=
  (forall_update_iff G fun u g => u.Home g).2 ⟨hg, fun u _ => h u⟩ u

namespace Inv

theorem of_dispatcher (h : Inv n s G) (hnext : s.next ≤ s'.next)
    (hidx : ∀ c < s.next, (s'.children c).idx = (s.children c).idx)
    (hc : ∃ own, Custody s' (readerPc G) (watchdogPc G) own) (hs : Steered n s' p (watchdogPc G)) :
    Inv n s' (update G .dispatcher (.dispatcher p)) where
  home := home_update h.home trivial
  seat c i q hq hne := by
    rw [update_of_ne (by simp)] at hq
    obtain ⟨hi, hlt⟩ := h.seat c i q hq hne
    exact ⟨hi.trans (hidx c hlt).symm, lt_of_lt_of_le hlt hnext⟩
  custody := by
    rw [readerPc_of_ne G (by simp), watchdogPc_of_ne G (by simp)]
    exact hc
  steered := by
    rw [dispatcherPc_self, watchdogPc_of_ne G (by simp)]
    exact hs

theorem of_reader (h : Inv n s G) {q : ChildReaderPc} (hnext : s'.next = s.next)
    (hidx : ∀ c, (s'.children c).idx = (s.children c).idx)
    (hseat : q ≠ .idle → i = (s.children c).idx ∧ c < s.next)
    (hc : ∃ own, Custody s' (update (readerPc G) c q) (watchdogPc G) own)
    (hs : Steered n s' (dispatcherPc G) (watchdogPc G)) :
    Inv n s' (update G (.reader c) (.reader i c q)) where
  home := home_update h.home rfl
  seat c' i' q' hq hne := by
    rw [hidx, hnext]
    by_cases hcc : c' = c
    · subst hcc
      rw [update_self] at hq
      cases hq
      exact hseat hne
    · rw [update_of_ne (by simpa using hcc)] at hq
      exact h.seat c' i' q' hq hne
  custody := by
    rw [readerPc_self, watchdogPc_of_ne G (by simp)]
    exact hc
  steered := by
    rw [dispatcherPc_of_ne G (by simp), watchdogPc_of_ne G (by simp)]
    exact hs

theorem of_watchdog (h : Inv n s G) {p : WatchdogPc} (hnext : s'.next = s.next)
    (hidx : ∀ c, (s'.children c).idx = (s.children c).idx)
    (hc : ∃ own, Custody s' (readerPc G) p own) (hs : Steered n s' (dispatcherPc G) p) :
    Inv n s' (update G .watchdog (.watchdog p)) where
  home := home_update h.home trivial
  seat c i q hq hne := by
    rw [hidx, hnext]
    rw [update_of_ne (by simp)] at hq
    exact h.seat c i q hq hne
  custody := by
    rw [readerPc_of_ne G (by simp), watchdogPc_self]
    exact hc
  steered := by
    rw [dispatcherPc_of_ne G (by simp), watchdogPc_self]
    exact hs

theorem of_child (h : Inv n s G) (hnext : s'.next = s.next)
    (hidx : ∀ c, (s'.children c).idx = (s.children c).idx)
    (hc : ∃ own, Custody s' (readerPc G) (watchdogPc G) own)
    (hs : Steered n s' (dispatcherPc G) (watchdogPc G)) :
    Inv n s' (update G (.child c) (.child c)) where
  home := home_update h.home rfl
  seat c' i q hq hne := by
    rw [hidx, hnext]
    rw [update_of_ne (by simp)] at hq
    exact h.seat c' i q hq hne
  custody := by
    rw [readerPc_of_ne G (by simp), watchdogPc_of_ne G (by simp)]
    exact hc
  steered := by
    rw [dispatcherPc_of_ne G (by simp), watchdogPc_of_ne G (by simp)]
    exact hs

theorem init : Inv n .init PreforkThread.rest := by
  refine ⟨fun t => ?_, fun c i p hq hne => ?_, ⟨fun _ => .nobody, ?_⟩, ?_⟩
  · cases t <;> trivial
  · cases hq
    exact absurd rfl hne
  · refine
      { slot := nofun, token := nofun,
        paid := nofun, holds := nofun,
        owes := nofun, owed := nofun,
        answered := nofun, once := nodup_nil,
        dropped := nofun, fresh := fun _ _ => rfl, expiring := rfl,
        discarded := nofun, nodup := fun _ => nodup_nil,
        apart := nofun, old := nofun,
        results := nofun, jobs := nofun,
        hand := fun _ => rfl, unborn := fun _ _ => ⟨rfl, rfl⟩ }
  · refine
      { unsent := nofun, counts := fun i _ => ?_,
        cleared := nofun, room := trivial, writer := nofun,
        process := nofun, same := fun _ _ => rfl,
        wiring := nofun, placed := nofun,
        live := nofun, replaced := nofun,
        starting := nofun, vacant := nofun,
        top := fun _ _ => rfl, entry := nofun,
        filled := nofun }
    exact (count_of_free (s := .init) (i := i) ⟨rfl, rfl⟩).symm

section

variable (h : Inv n s G)
include h

theorem results_of_quiet (hq : s.quiet i = true) :
    s.owed i = none ∧ ∀ c, (s.children c).idx = i → (s.children c).results = [] := by
  simp only [quiet, Bool.and_eq_true, List.all_eq_true, List.mem_range, Bool.or_eq_true,
    bne_iff_ne, List.isEmpty_iff, Option.isNone_iff_eq_none] at hq
  refine ⟨hq.2, fun c hc => ?_⟩
  by_cases hlt : c < s.next
  · exact (hq.1 c hlt).resolve_left fun hne => hne hc
  · obtain ⟨_, hcust⟩ := h.custody
    have hnil := (hcust.unborn c (Nat.le_of_not_lt hlt)).1
    exact (List.append_eq_nil_iff.1 hnil).2

theorem step_dispatcher (hG : G .dispatcher = .dispatcher p)
    (hp : (PreforkPc.dispatcher p).Permits n op) (hq : s.settles op = true) :
    Inv n (Prefork.exec op env s).2 (update G .dispatcher
      ((PreforkPc.dispatcher p).next op (Prefork.exec op env s).1)) := by
  have hpc : dispatcherPc G = p := by simp [dispatcherPc, hG]
  have hst := h.steered
  rw [hpc] at hst
  obtain ⟨own, hcust⟩ := h.custody
  cases hp with
  | @isChildDead k i hk =>
    simp only [exec, PreforkPc.next]
    rcases hdead : (s.processes i).elim true fun c => !(s.children c).alive with _ | _
    · exact h.of_dispatcher le_rfl (fun _ _ => rfl) ⟨own, hcust⟩ hst
    · refine h.of_dispatcher le_rfl (fun _ _ => rfl) ⟨own, hcust⟩ (hst.dead fun c hc => ?_)
      rw [hc] at hdead
      simpa using hdead
  | @spawn k hk =>
    have hvac := hst.vacant k rfl
    simp only [exec]
    split
    · refine h.of_dispatcher (le_succ _) (fun c hc => ?_) ⟨own, hcust.spawn k⟩
        (hst.spawned ⟨rfl, rfl, rfl, rfl⟩ (fun c hc => ?_) (Steered.free_of_room hst.room)
          fun j hj => hvac j (Nat.le_trans (Nat.le_max_left ..) hj))
      · simp only [update_of_ne (Nat.ne_of_lt hc)]
      · rw [hvac k le_rfl] at hc
        cases hc
    · exact h.of_dispatcher le_rfl (fun _ _ => rfl) ⟨own, hcust⟩
        (hst.ready ⟨rfl, rfl, rfl, rfl⟩ _ (Steered.free_of_room hst.room)
          fun j hj => hvac j (le_trans (le_max_left ..) hj))
  | @respawn k i =>
    have hvac := hst.vacant k rfl
    simp only [exec]
    split
    · refine h.of_dispatcher (Nat.le_succ _) (fun c hc => ?_) ⟨own, hcust.spawn i⟩
        (hst.spawned ⟨rfl, rfl, rfl, rfl⟩ (hst.replaced i rfl) hst.room hvac)
      simp only [update_of_ne (Nat.ne_of_lt hc)]
    · exact h.of_dispatcher le_rfl (fun _ _ => rfl) ⟨own, hcust⟩
        (hst.ready ⟨rfl, rfl, rfl, rfl⟩ k hst.room hvac)
  | setWriter =>
    exact h.of_dispatcher le_rfl (fun _ _ => rfl)
      ⟨own, hcust.congr ..⟩ hst.wired
  | setProcess hk hn =>
    exact h.of_dispatcher le_rfl (fun _ _ => rfl)
      ⟨own, hcust.congr ..⟩ (hst.installed hk hn)
  | @resetSlot k i c =>
    obtain ⟨howed, hres⟩ := h.results_of_quiet hq
    refine h.of_dispatcher le_rfl (fun _ _ => rfl) (hcust.drop i (fun c' hc' d hd => ?_)
      fun c' hal hc' d hd => ?_) (hst.cleared_step howed)
    · rw [hres c' hc'] at hd
      cases hd
    · -- the only live child of the index has just been started
      have hlt : c' < s.next := by
        by_contra hge
        have := (hcust.unborn c' (Nat.le_of_not_lt hge)).1
        rw [(List.append_eq_nil_iff.1 this).1] at hd
        cases hd
      have hproc := (hst.live c' hlt hal).resolve_right (by simp [newborn])
      rw [hc', hst.placed i c rfl] at hproc
      cases hproc
      rw [(append_eq_nil_iff.1 (hst.starting i c rfl).2.2).1] at hd
      cases hd
  | resetInFlight =>
    exact h.of_dispatcher le_rfl (fun _ _ => rfl)
      ⟨own, hcust.congr ..⟩ hst.zeroed
  | @spawnReader k i c =>
    exact h.of_dispatcher le_rfl
      (fun c' _ => s.modify_idx (c := c) (f := fun x => { x with reading := true }) rfl c')
      ⟨own, hcust.child c (fun x => { x with reading := true }) rfl id (.refl _) (fun _ => id)
        (fun _ => .inl) rfl⟩
      (hst.started.child c (fun x => { x with reading := true }) rfl id fun _ => id)
  | load => exact h.of_dispatcher le_rfl (fun _ _ => rfl) ⟨own, hcust⟩ hst.loaded
  | @setSlot k loaded job hlen =>
    have hfree := hst.free_leastLoaded hlen
    obtain ⟨-, hres⟩ := h.results_of_quiet hq
    have hjobs : ∀ c, (s.children c).alive = true →
        (s.children c).idx = leastLoaded loaded → (s.children c).jobs = [] := by
      intro c hal hc
      refine eq_nil_iff_forall_not_mem.2 fun d hd => ?_
      obtain hsome | hstrike := hcust.jobs c hal d hd
      · rw [hc, Custody.tag_none_iff.2 hfree.1] at hsome
        cases hsome
      · have howed := hcust.owes _ _ (WatchdogPc.owes_of_striking hstrike)
        rw [hc, hfree.2] at howed
        cases howed
    have hstate : (exec (.setSlot (leastLoaded loaded) job) env s).2 =
        { s with
          slots := update s.slots (leastLoaded loaded)
            (some (.of job env.now s.dispatched.length))
          dispatched := s.dispatched ++ [job] } := by
      simp [Prefork.exec, Prefork.drop, hfree.1]
    rw [hstate]
    exact h.of_dispatcher le_rfl (fun _ _ => rfl) ⟨_, hcust.fill hfree hres hjobs job env.now⟩
      (hst.filled_step hfree hcust.old job env.now)
  | @writeJob i d job =>
    simp only [exec]
    split
    · exact h.of_dispatcher le_rfl (fun _ _ => rfl) ⟨own, hcust⟩ hst.failed
    · next c hw =>
      have hproc : s.processes i = some c := (hst.same i (by simp [rewired])).symm.trans hw
      obtain ⟨hlt, hidx⟩ := hst.process i c hproc
      obtain ⟨hd, hnew⟩ := hst.unsent d rfl
      split
      · refine h.of_dispatcher le_rfl (fun c' _ => s.modify_idx (c := c)
          (f := fun x => { x with stdin := x.stdin ++ [(job, d)] }) rfl c')
          ⟨own, hcust.write job hlt hd hnew fun hal => ?_⟩ hst.sent
        rw [hidx]
        obtain htag | hstrike | hdead := hst.filled i d rfl
        · exact .inl htag
        · exact .inr hstrike
        · rw [hdead c hproc] at hal
          cases hal
      · exact h.of_dispatcher le_rfl (fun _ _ => rfl) ⟨own, hcust⟩ hst.failed
  | @rollback i d =>
    obtain ⟨a, ha⟩ := isSome_iff_exists.1 hq
    cases hst.entry i d rfl rfl a ha
    have hnew := (hst.unsent _ rfl).2
    refine h.of_dispatcher le_rfl (fun _ _ => rfl) (hcust.drop i (fun c hc d' hd' htag => ?_)
      fun c hal hc d' hd' htag => ?_) (hst.rolledBack ha (hcust.slot i a ha).2)
    · rw [Custody.tag_eq ha] at htag
      cases htag
      exact hnew c (mem_append_right _ hd')
    · rw [Custody.tag_eq ha] at htag
      cases htag
      exact hnew c (mem_append_left _ hd')
  | addInFlight =>
    exact h.of_dispatcher le_rfl (fun _ _ => rfl)
      ⟨own, hcust.congr ..⟩ hst.added

theorem step_reader {p : ChildReaderPc} (hG : G (.reader c) = .reader i c p)
    (hp : (PreforkPc.reader i c p).Permits n op) :
    Inv n (Prefork.exec op env s).2 (update G (.reader c)
      ((PreforkPc.reader i c p).next op (Prefork.exec op env s).1)) := by
  have hpc : readerPc G c = p := by simp [readerPc, hG]
  have hst := h.steered
  obtain ⟨own, hcust⟩ := h.custody
  have hseat := h.seat c i p hG
  cases hp with
  | read =>
    obtain ⟨hi, hlt⟩ := hseat (by simp)
    simp only [exec]
    split
    · exact h.of_reader rfl (fun _ => rfl) (fun _ => ⟨hi, hlt⟩)
        ⟨own, hcust.seat hlt (by rw [hpc]; rfl) (by simp [hpc]) (.inr (.inr rfl))⟩ hst
    · next f d rest hout =>
      have hload := hcust.read_results hpc hout
      refine h.of_reader rfl (s.modify_idx (c := c)
        (f := fun x => { x with stdout := rest, hand := f.result.map fun _ => d }) rfl)
        (fun _ => ⟨hi, hlt⟩) ⟨own, hcust.read hpc hlt hout⟩
        (hst.child c (fun x => { x with stdout := rest, hand := f.result.map fun _ => d }) rfl id
          fun d' hd' => ?_)
      rw [load, mem_append] at hd' ⊢
      exact hd'.imp_right hload.mem_iff.1
  | @takeSlot _ _ d r =>
    obtain ⟨rfl, hlt⟩ := hseat (by simp)
    have hdown := (hcust.put_down hpc).2
    simp only [exec]
    split
    · next hslot =>
      refine h.of_reader rfl (fun c' => (hdown c').idx) (fun hne => absurd rfl hne)
        ⟨own, hcust.discard hpc hlt hslot⟩
        (hst.frame rfl rfl rfl (fun c' => (hdown c').idx) (fun c' hal => (hdown c').alive ▸ hal)
          (fun c' d' hd' => (hdown c').load.subset hd') rfl (fun _ _ => id) (fun _ => id)
          hst.counts fun j d' hD => ?_)
      refine (hst.filled j d' hD).imp_right fun hor => hor.imp_right fun hdead c' hc' => ?_
      exact (hdown c').alive.trans (hdead c' hc')
    · next a ha =>
      cases hcust.own_entry hpc ha
      refine h.of_reader rfl (fun c' => (hdown c').idx) (fun _ => ⟨rfl, hlt⟩)
        ⟨_, hcust.take hpc hlt ha⟩ (hst.taken ha rfl rfl rfl rfl rfl rfl rfl
          (fun c' => (hdown c').idx) (fun c' => (hdown c').alive)
          (fun c' d' hd' => (hdown c').load.subset hd') (fun _ => id) fun hD => ?_)
      -- the entry would be that of a job that has not been written yet
      have hunsent : (dispatcherPc G).unsent = some a.dispatch := by
        generalize dispatcherPc G = D at hD
        cases D <;> cases hD
        rfl
      exact absurd (mem_append_right _ (hcust.put_down hpc).1) ((hst.unsent _ hunsent).2 c)
  | @readerPays _ _ d r =>
    obtain ⟨rfl, hlt⟩ := hseat (by simp)
    obtain ⟨-, howed⟩ := hcust.token c d r hpc
    exact h.of_reader rfl (fun _ => rfl) (fun _ => ⟨rfl, hlt⟩)
      ⟨own, hcust.readerPays hpc hlt _⟩ (hst.paid (fun a ha => by
        rw [(hcust.slot _ a ha).2] at howed
        cases howed) howed fun _ => id)
  | readerEmits =>
    obtain ⟨-, hlt⟩ := hseat (by simp)
    exact h.of_reader rfl (fun _ => rfl) (fun hne => absurd rfl hne)
      ⟨_, hcust.readerEmits hpc hlt⟩ (hst.emitted _ _ fun _ => id)
  | readerExit =>
    obtain ⟨-, hlt⟩ := hseat (by simp)
    exact h.of_reader rfl (s.modify_idx (c := c) (f := fun x => { x with reading := false }) rfl)
      (fun hne => absurd rfl hne)
      ⟨own, (hcust.seat hlt (by rw [hpc]; rfl) (by simp [hpc]) (.inl rfl)).child c
        (fun x => { x with reading := false }) rfl id (.refl _) (fun _ => id) (fun _ => .inl) rfl⟩
      (hst.child c (fun x => { x with reading := false }) rfl id fun _ => id)

theorem step_watchdog {p : WatchdogPc} (hG : G .watchdog = .watchdog p)
    (hp : (PreforkPc.watchdog p).Permits n op) :
    Inv n (Prefork.exec op env s).2 (update G .watchdog
      ((PreforkPc.watchdog p).next op (Prefork.exec op env s).1)) := by
  have hpc : watchdogPc G = p := by simp [watchdogPc, hG]
  have hst := h.steered
  obtain ⟨own, hcust⟩ := h.custody
  rw [hpc] at hst hcust
  cases hp with
  | now => exact h.of_watchdog rfl (fun _ => rfl) ⟨own, hcust⟩ hst
  | takeIfExpired =>
    simp only [exec]
    split
    · exact h.of_watchdog rfl (fun _ => rfl) ⟨own, hcust⟩ hst
    · next a ha =>
      split
      · exact h.of_watchdog rfl (fun _ => rfl) ⟨_, hcust.expire ha⟩
          (hst.taken ha rfl rfl rfl rfl rfl rfl rfl (fun _ => rfl) (fun _ => rfl) (fun _ _ => id)
            (by rintro _ ⟨⟩) fun _ => rfl)
      · exact h.of_watchdog rfl (fun _ => rfl) ⟨own, hcust⟩ hst
  | @kill i a =>
    -- a live child of the index that has jobs is its process
    have hlive : ∀ c, (s.children c).alive = true → (s.children c).idx = i →
        s.processes i = some c ∨ (s.children c).jobs = [] := by
      intro c hal hc
      by_cases hlt : c < s.next
      · obtain hproc | hnew := hst.live c hlt hal
        · exact .inl (hc ▸ hproc)
        · exact .inr (List.append_eq_nil_iff.1 (hst.load_newborn hnew)).1
      · exact .inr (List.append_eq_nil_iff.1 (hcust.unborn c (Nat.le_of_not_lt hlt)).1).1
    simp only [exec, PreforkPc.next]
    rcases hproc : s.processes i with _ | c₀
    · refine h.of_watchdog rfl (fun _ => rfl) ⟨own, hcust.struck fun c hal hc => ?_⟩
        (hst.frame rfl rfl rfl (fun _ => rfl) (fun _ => id) (fun _ _ => id) rfl (fun _ _ => id)
          (fun _ => id) hst.counts fun j d' hD => ?_)
      · refine (hlive c hal hc).resolve_left fun hp => ?_
        rw [hproc] at hp
        cases hp
      · refine (hst.filled j d' hD).imp_right fun hor => .inr ?_
        obtain hstrike | hdead := hor
        · cases congrArg Prod.fst (some.inj hstrike)
          intro c hc
          rw [hproc] at hc
          cases hc
        · exact hdead
    · have hrest := s.modify_cases (c := c₀) (f := fun x => { x with alive := false })
        (fun c x => x.idx = (s.children c).idx ∧
          (x.alive = true → (s.children c).alive = true ∧ c ≠ c₀) ∧
          x.load = (s.children c).load ∧ x.jobs = (s.children c).jobs)
        ⟨rfl, by rintro ⟨⟩, rfl, rfl⟩ fun c hcc => ⟨rfl, fun hal => ⟨hal, hcc⟩, rfl, rfl⟩
      have hkilled := hcust.child c₀ (fun x => { x with alive := false }) rfl
        (by rintro ⟨⟩) (.refl _) (fun _ => id) (fun _ => .inl) rfl
      refine h.of_watchdog rfl (fun c => (hrest c).1) ⟨own, hkilled.struck fun c hal hc => ?_⟩
        (hst.frame rfl rfl rfl (fun c => (hrest c).1) (fun c hal => ((hrest c).2.1 hal).1)
          (fun c d hd => (hrest c).2.2.1 ▸ hd) rfl (fun _ _ => id) (fun _ => id) hst.counts
          fun j d' hD => ?_)
      · obtain ⟨hal, hne⟩ := (hrest c).2.1 hal
        rw [(hrest c).1] at hc
        rw [(hrest c).2.2.2]
        refine (hlive c hal hc).resolve_left fun hp => ?_
        rw [hproc] at hp
        exact hne (some.inj hp).symm
      · refine (hst.filled j d' hD).imp_right fun hor => .inr fun c hc => ?_
        rw [eq_false_iff]
        intro hal
        obtain ⟨hal, hne⟩ := (hrest c).2.1 hal
        obtain hstrike | hdead := hor
        · cases congrArg Prod.fst (some.inj hstrike)
          exact hne (some.inj (hc.symm.trans hproc))
        · rw [hdead c hc] at hal
          cases hal
  | @watchdogPays i a =>
    have howed : s.owed i = some a.dispatch := hcust.owes i _ rfl
    exact h.of_watchdog rfl (fun _ => rfl) ⟨own, hcust.watchdogPays _⟩
      (hst.paid (fun b hb => by
        rw [(hcust.slot _ b hb).2] at howed
        cases howed) howed (by rintro _ ⟨⟩))
  | watchdogEmits =>
    exact h.of_watchdog rfl (fun _ => rfl) ⟨_, hcust.watchdogEmits _⟩
      (hst.emitted _ _ (by rintro _ ⟨⟩))

theorem step_child (hp : (PreforkPc.child c).Permits n op) (hm : s.mayStep op = true) :
    Inv n (Prefork.exec op env s).2 (update G (.child c)
      ((PreforkPc.child c).next op (Prefork.exec op env s).1)) := by
  have hst := h.steered
  obtain ⟨own, hcust⟩ := h.custody
  have hone : ∀ f : Child → Child, (f (s.children c)).idx = (s.children c).idx →
      ((f (s.children c)).alive = true → (s.children c).alive = true) →
      (f (s.children c)).load.Perm (s.children c).load →
      (∀ d ∈ (f (s.children c)).jobs, d ∈ (s.children c).jobs) →
      (∀ d ∈ (f (s.children c)).results, d ∈ (s.children c).results ∨
        (s.children c).alive = true ∧ d ∈ (s.children c).jobs) →
      (f (s.children c)).hand = (s.children c).hand →
      Inv n (s.modify c f) (update G (.child c) (.child c)) := by
    intro f hidx halive hload hjobs hresults hhand
    exact h.of_child rfl (s.modify_idx hidx)
      ⟨own, hcust.child c f hidx halive hload hjobs hresults hhand⟩
      (hst.child c f hidx halive fun d hd => hload.mem_iff.1 hd)
  cases hp with
  | childStart =>
    simp only [mayStep, and_eq_true, isNone_iff_eq_none, not_eq_true',
      isEmpty_eq_false_iff] at hm
    obtain ⟨⟨-, hrunning⟩, hstdin⟩ := hm
    obtain ⟨x, rest, hstdin⟩ := exists_cons_of_ne_nil hstdin
    have hjobs : ({ s.children c with
        stdin := (s.children c).stdin.tail,
        running := (s.children c).stdin.head? } : Child).jobs.Perm
        (s.children c).jobs := by
      simp [jobs, hstdin, hrunning, perm_append_singleton]
    exact hone (fun x => { x with stdin := x.stdin.tail, running := x.stdin.head? }) rfl id
      (List.Perm.append_right _ hjobs) (fun d hd => hjobs.mem_iff.1 hd) (fun _ => .inl) rfl
  | childFinish o =>
    simp only [mayStep, and_eq_true] at hm
    obtain ⟨hal, hrunning⟩ := hm
    obtain ⟨⟨job, d⟩, hrunning⟩ := isSome_iff_exists.1 hrunning
    have hframe : (Frame.fromJobResult (o.of job)).result.isSome = true := by
      rw [Frame.result_fromJobResult]
      rfl
    refine hone (fun x => { x with
      running := none
      stdout := x.stdout ++ x.running.toList.map fun jd =>
        (Frame.fromJobResult (o.of jd.1), jd.2) }) rfl id ?_
        (fun d' hd' => ?_) (fun d' hd' => ?_) rfl
    · refine perm_iff_count.2 fun d' => ?_
      simp only [load, jobs, results, hrunning, Option.toList, map_cons,
        map_nil, filter_append, filter_cons, hframe, if_true, filter_nil,
        map_append, count_append, count_nil]
      omega
    · simp only [jobs, Option.toList, map_nil, append_nil] at hd' ⊢
      exact mem_append_left _ hd'
    · simp only [results, jobs, hrunning, Option.toList, map_cons, map_nil,
        filter_append, filter_cons, hframe, if_true, filter_nil, map_append,
        mem_append, mem_singleton] at hd' ⊢
      tauto
  | childReport r =>
    have hsame : ({ s.children c with stdout := (s.children c).stdout ++
        (s.children c).running.toList.map fun jd => (r.frame, jd.2) } : Child).results =
        (s.children c).results := by
      cases (s.children c).running <;>
        simp [results, SideReport.result_frame]
    refine hone (fun x => { x with
      stdout := x.stdout ++ x.running.toList.map fun jd => (r.frame, jd.2) }) rfl id
      (List.Perm.of_eq ?_) (fun _ => id) (fun d hd => .inl (hsame ▸ hd)) rfl
    rw [load, hsame]
    rfl
  | childExit =>
    exact hone (fun x => { x with alive := false }) rfl (by rintro ⟨⟩) (.refl _)
      (fun _ => id) (fun _ => .inl) rfl

theorem step (hp : (G t).Permits n op) (hm : s.mayStep op = true) (hq : s.settles op = true) :
    Inv n (Prefork.exec op env s).2 (update G t ((G t).next op (Prefork.exec op env s).1)) := by
  have hhome := h.home t
  rcases hg : G t with p | ⟨_, c, p⟩ | _ | c <;> rw [hg] at hp hhome
  · obtain rfl : t = .dispatcher := by cases t <;> first | rfl | cases hhome
    exact h.step_dispatcher hg hp hq
  · obtain rfl : t = .reader c := by
      cases t with
      | reader => exact congrArg _ hhome
      | _ => cases hhome
    exact h.step_reader hg hp
  · obtain rfl : t = .watchdog := by cases t <;> first | rfl | cases hhome
    exact h.step_watchdog hg hp
  · obtain rfl : t = .child c := by
      cases t with
      | child => exact congrArg _ hhome
      | _ => cases hhome
    exact h.step_child hp hm

theorem start {call : PreforkCall} (hdone : (G t).Done)
    (hstart : Prefork.mayStart n s t call = true) : Inv n s (update G t (call.entry n)) := by
  obtain ⟨own, hcust⟩ := h.custody
  have hhome := h.home t
  cases t with
  | dispatcher =>
    obtain ⟨p, hG⟩ : ∃ p, G .dispatcher = .dispatcher p := by
      generalize G .dispatcher = g at hhome
      cases g with
      | dispatcher p => exact ⟨p, rfl⟩
      | _ => cases hhome
    have hpc : p.clearing = none ∧ p.adding = none ∧ p.rewired = none ∧ p.newborn = none := by
      rw [hG] at hdone
      cases p <;> first | exact ⟨rfl, rfl, rfl, rfl⟩ | cases hdone
    have hst : Steered n s p (watchdogPc G) := by
      have := h.steered
      rwa [dispatcherPc, hG] at this
    cases call with
    | start =>
      simp only [mayStart, and_eq_true, beq_iff_eq, decide_eq_true_eq] at hstart
      refine h.of_dispatcher le_rfl (fun _ _ => rfl) ⟨own, hcust⟩
        (hst.ready hpc 0 (hcust.exists_free hstart.2) fun i _ => ?_)
      -- nothing has been spawned, so there is no process
      rcases hproc : s.processes i with _ | c
      · rfl
      · have := (hst.process i c hproc).1
        omega
    | dispatch =>
      simp only [mayStart, decide_eq_true_eq] at hstart
      exact h.of_dispatcher le_rfl (fun _ _ => rfl) ⟨own, hcust⟩
        (hst.ready hpc n (hcust.exists_free hstart) hst.top)
    | _ => cases hstart
  | reader c =>
    cases call with
    | readFrame i =>
      simp only [mayStart, and_eq_true, beq_iff_eq, decide_eq_true_eq] at hstart
      obtain ⟨⟨⟨rfl, hlt⟩, -⟩, hi⟩ := hstart
      have hidle : readerPc G c = .idle := by
        rw [readerPc]
        generalize G (.reader c) = g at hdone
        rcases g with p | ⟨i, c, p⟩ | p | c <;>
          first | rfl | (cases p <;> first | rfl | cases hdone)
      refine h.of_reader rfl (fun _ => rfl) (fun _ => ⟨hi, hlt⟩)
        ⟨own, hcust.seat hlt ?_ (fun d r => ?_) (.inr (.inl rfl))⟩ h.steered
      · rw [hidle]
        rfl
      · rw [hidle]
        exact nofun
    | _ => cases hstart
  | watchdog =>
    cases call with
    | watchdog =>
      have hscan : watchdogPc G = .scanning := by
        rw [watchdogPc]
        generalize G .watchdog = g at hdone
        rcases g with p | ⟨_, c, p⟩ | p | c <;>
          first | rfl | (cases p <;> first | rfl | cases hdone)
      refine h.of_watchdog rfl (fun _ => rfl) ⟨own, ?_⟩ ?_
      · exact hscan ▸ hcust
      · exact hscan ▸ h.steered
    | _ => cases hstart
  | child c =>
    have hcall : call.entry n = .child c := by
      cases call <;> first
        | cases hstart
        | (simp only [mayStart, and_eq_true, beq_iff_eq] at hstart
           exact congrArg _ hstart.1.symm)
    rw [hcall]
    exact h.of_child rfl (fun _ => rfl) ⟨own, hcust⟩ h.steered

end

end Inv

/-! ## Runs -/

/-- What holds in every state of a run, with the numbers where they belong. -/
def Holds (n : Nat) (s : Prefork) (G : PreforkThread → PreforkPc) : Prop := Inv n s G ∧ s.Tagged G

theorem sound (n : Nat) : Pool.Sound (quietRules n) (preforkDiscipline n) (Holds n) where
  start s G t call h hdone hstart := by
    refine ⟨call.entry n, ⟨h.1.start hdone hstart, ?_⟩, follows_preforkCall n call⟩
    refine h.2.same rfl (fun _ _ => id) h.2.child h.2.emitted ?_
    cases call <;> trivial
  step s G t op env h hp hm := ⟨trivial, h.1.step hp hm.1 hm.2, h.2.step hp⟩

theorem holds_init (n : Nat) : Holds n .init PreforkThread.rest := by
  refine ⟨.init, nofun, fun c => .new _ _, fun t => ?_, nofun⟩
  cases t <;> trivial

end PreforkPool

/-- **One outcome per dispatch**, in every run in which slots are filled and reset when their index
is quiet and a failed send finds its entry. No dispatch is answered twice, an answer is about the
job of its dispatch, and a result is discarded only for a dispatch the watchdog has reported as
timed out or, until it is between two slots again, is about to. -/
theorem one_outcome (n : Nat) (c : Pool preforkMachine PreforkThread)
    (hc : Pool.Reaches (quietRules n) (Pool.idle .init) c) :
    c.state.answered.Nodup ∧
      (∀ e ∈ c.state.emitted, Names c.state.dispatched e.dispatch e.result.jobId) ∧
      (∀ d ∈ c.state.discarded, d ∈ c.state.timeouts ∨ c.state.expiring = some d) ∧
      ((c.prog .watchdog).nextOp = none → c.state.expiring = none) := by
  obtain ⟨G, hG⟩ := (PreforkPool.sound n).reachable
    (.idle (PreforkPool.holds_init n) PreforkThread.rest_done) hc
  obtain ⟨_, hcust⟩ := hG.inv.1.custody
  refine ⟨hcust.once, hG.inv.2.emitted, hcust.discarded, fun hnone => ?_⟩
  -- a watchdog that has returned holds nothing
  have hdone : (G .watchdog).Done := by
    have hf := hG.follows .watchdog
    rcases hp : c.prog .watchdog with _ | ⟨_, _⟩
    · rw [hp] at hf
      exact hf
    · rw [hp] at hnone
      cases hnone
  rw [hcust.expiring, PreforkPool.watchdogPc]
  generalize G .watchdog = g at hdone
  rcases g with p | ⟨_, c, p⟩ | p | _ <;> first | rfl | (cases p <;> first | rfl | cases hdone)

/-- The dispatch a live child has to do is the one in its slot, or the one the watchdog kills it
for. -/
theorem Custody.jobs_eq {s : Prefork} {R : Nat → ChildReaderPc} {W : WatchdogPc} {own : Nat → Owner}
    (h : Custody s R W own) {c d d' : Nat} (hal : (s.children c).alive = true)
    (hd : d ∈ (s.children c).jobs) (hd' : d' ∈ (s.children c).jobs) : d = d' := by
  have htag := h.of_job hal hd
  have htag' := h.of_job hal hd'
  obtain hslot | hstrike := h.jobs c hal d hd
  · grind
  obtain hslot' | hstrike' := h.jobs c hal d' hd'
  · grind
  · rw [hstrike] at hstrike'
    cases hstrike'
    rfl

/-- A thread makes a call and so many of its operations, at this time. -/
def preforkMoves (t : PreforkThread) (call : PreforkCall) (steps : Nat) (now : Int) :
    List (Move preforkMachine (preforkClients 1) PreforkThread) :=
  .start t call :: List.replicate steps (.step t ⟨now, true⟩)

/-- A job with one millisecond to run. -/
def briefJob (id : JobId) : Job := { plainJob id with timeoutMs := 1 }

/-- The only child is started and given a job; it finishes in time for its result to be in the pipe
when the watchdog finds the job past its deadline and reports a timeout. -/
def timedOutMoves : List (Move preforkMachine (preforkClients 1) PreforkThread) :=
  preforkMoves .dispatcher .start 6 0 ++ preforkMoves .dispatcher (.dispatch (briefJob "a")) 5 0 ++
  preforkMoves (.child 0) (.childStart 0) 1 0 ++
  preforkMoves (.child 0) (.childFinish 0 (.success none 0)) 1 0 ++
  preforkMoves .watchdog (.watchdog 0) 5 1

/-- The reader then finds the slot empty. -/
theorem one_outcome_timeout :
    ∃ c, Pool.Reaches (quietRules 1) (Pool.idle .init) c ∧ c.state.answered = [0] ∧
      c.state.discarded = [0] ∧ 0 ∈ c.state.timeouts := by
  obtain ⟨c, hc, hanswered, hdiscarded, hidle⟩ := Pool.exists_reaches (quietRules 1)
    (.idle .init) (timedOutMoves ++ preforkMoves (.reader 0) (.readFrame 0 0) 2 1)
    (fun c => c.state.answered = [0] ∧ c.state.discarded = [0] ∧
      (c.prog .watchdog).nextOp = none) (by decide +kernel)
  obtain ⟨-, -, hclaimed, hexpiring⟩ := one_outcome 1 c hc
  refine ⟨c, hc, hanswered, hdiscarded, ?_⟩
  obtain htimeout | hex := hclaimed 0 (hdiscarded ▸ mem_singleton.2 rfl)
  · exact htimeout
  · rw [hexpiring hidle] at hex
    cases hex

/-- **A dead child's reader takes the next job's entry.** The watchdog has reported the first job as
timed out and the second is in the slot, for the new child, when the reader of the killed child
reads the result of the first: it takes the entry of the second and reports the first again. The
result of the second then finds the slot empty and is discarded, without a timeout. -/
theorem outcome_stolen :
    ∃ c, Pool.Reaches (preforkRules 1) (Pool.idle .init) c ∧ c.state.answered = [0, 0] ∧
      c.state.discarded = [1] ∧ c.state.timeouts = [0] ∧ c.state.expiring = none := by
  exact Pool.exists_reaches _ _
    (timedOutMoves ++ preforkMoves .dispatcher (.dispatch (briefJob "b")) 11 1 ++
      preforkMoves (.reader 0) (.readFrame 0 0) 4 1 ++
      preforkMoves (.child 1) (.childStart 1) 1 1 ++
      preforkMoves (.child 1) (.childFinish 1 (.success none 0)) 1 1 ++
      preforkMoves (.reader 1) (.readFrame 0 1) 2 1) _ (by decide +kernel)

end Flexiq
