import Flexiq.RoundFrame

/-!
# The steps of a dispatch round

A dispatch round of one scheduler, run alone call by call. Each of its steps touches one job it
holds, a batch of such jobs, or jobs that are still blocked and so were not dequeued. `Open` is
the invariant: the jobs the round dequeued are either still on its list, running and with a claim
it knows of, or settled. There is a lemma for each step, and `Run` is the precondition in which
the programs of the round are then followed: over every run whose failures are **shielded**.
-/

namespace Flexiq

open Function List StoreOp

variable {jobs : List Job} {db' : Db}

/-! ## Jobs of a round -/

section

variable {σ : Type} [DecidableEq σ]

/-- The jobs an operation dequeued: pending before it, running after it. -/
def SchedEvent.dequeued (ev : SchedEvent σ) : List JobId :=
  (ev.after.db.jobs.select fun j =>
    j.status = .running ∧ (ev.before.db.jobs.find j.id).any (·.status = .pending)).map Job.id

theorem SchedEvent.mem_dequeued {ev : SchedEvent σ} {j : JobId} :
    j ∈ ev.dequeued ↔ (∃ row, ev.before.db.jobs.find j = some row ∧ row.status = .pending) ∧
      ∃ row, ev.after.db.jobs.find j = some row ∧ row.status = .running := by
  have hkeys : j ∈ ev.dequeued ↔ ∃ row, ev.after.db.jobs.find j = some row ∧ decide
      (row.status = .running ∧ (ev.before.db.jobs.find row.id).any (·.status = .pending)) = true :=
    Table.mem_select_key (S := jobsSchema)
  refine hkeys.trans ⟨?_, ?_⟩
  · rintro ⟨row, hrow, hp⟩
    have hid : row.id = j := Table.find_key hrow
    obtain ⟨hrun, hbefore⟩ := of_decide_eq_true hp
    obtain ⟨old, hold, hpend⟩ := (Option.any_eq_true _ _).1 hbefore
    exact ⟨⟨old, hid ▸ hold, of_decide_eq_true hpend⟩, row, hrow, hrun⟩
  · rintro ⟨⟨_, hold, hpend⟩, row, hrow, hrun⟩
    have hid : row.id = j := Table.find_key hrow
    refine ⟨row, hrow, decide_eq_true ⟨hrun, ?_⟩⟩
    rw [hid, hold]
    exact decide_eq_true hpend

def dequeuedIn (log : List (SchedEvent σ)) : List JobId := log.flatMap SchedEvent.dequeued

def SchedEvent.Hands (ev : SchedEvent σ) (s : σ) (j : JobId) : Prop :=
  ∃ job : Job, job.id = j ∧ ev.after.sent = (s, job) :: ev.before.sent

namespace Round

/-- Where a dequeued job may be left: with a worker, under an in-flight record and a claim of
this scheduler; pending without a claim; in the dead-letter queue; or to another owner. -/
def Settled (s : σ) (me : String) (st : SchedState σ) (log : List (SchedEvent σ)) (j : JobId) :
    Prop :=
  ((∃ ev ∈ log, ev.Hands s j) ∧ ((st.inFlight s).lookup j).isSome = true ∧
    st.db.owner j = some me) ∨
  ((∃ row, st.db.jobs.find j = some row ∧ row.status = .pending) ∧ st.db.owner j = none) ∨
  (st.db.jobs.find j = none ∧ ∃ d ∈ st.db.deadLetter.rows, d.originalJobId = j) ∨
  ∃ w, w ≠ me ∧ st.db.owner j = some w

/-- The operation leaves what the store and the scheduler have of the job as it is. -/
structure Same (s : σ) (k : JobId) (st st' : SchedState σ) : Prop where
  stored : st'.db.stored k = st.db.stored k
  owner : st'.db.owner k = st.db.owner k
  record : (st'.inFlight s).lookup k = (st.inFlight s).lookup k

omit [DecidableEq σ] in
theorem Same.refl (s : σ) (k : JobId) (st : SchedState σ) : Same s k st st := ⟨rfl, rfl, rfl⟩

variable {s : σ} {st st' : SchedState σ}

omit [DecidableEq σ] in
theorem Same.find {k : JobId} (h : Same s k st st') :
    st'.db.jobs.find k = st.db.jobs.find k := congrArg Prod.fst h.stored

theorem Settled.same {me : String} {log : List (SchedEvent σ)} {j : JobId}
    (h : Settled s me st log j) (hsame : Same s j st st') (ev : SchedEvent σ) :
    Settled s me st' (ev :: log) j := by
  have hdead : st'.db.deadLetter.rows.filter (fun d => d.originalJobId = j) =
      st.db.deadLetter.rows.filter (fun d => d.originalJobId = j) :=
    congrArg (fun x => x.2.2) hsame.stored
  unfold Settled
  rw [hsame.find, hsame.owner, hsame.record]
  obtain ⟨⟨ev', hev', hands⟩, h⟩ | h | ⟨hnone, d, hd, hid⟩ | h := h
  · exact .inl ⟨⟨ev', mem_cons_of_mem _ hev', hands⟩, h⟩
  · exact .inr (.inl h)
  · have hmem : d ∈ st'.db.deadLetter.rows.filter (fun d => d.originalJobId = j) := by
      rw [hdead]
      exact mem_filter.2 ⟨hd, decide_eq_true hid⟩
    exact .inr (.inr (.inl ⟨hnone, d, mem_of_mem_filter hmem, hid⟩))
  · exact .inr (.inr (.inr h))

/-- A job the round holds: running as it was dequeued, and claimed by this scheduler or not. -/
structure Held (me : String) (ns : Option String) (db : Db) (p : Job × Bool) : Prop where
  live : db.jobs.find p.1.id = some p.1
  running : p.1.status = .running
  namespace_eq : p.1.namespace_ = ns
  claimed : db.owner p.1.id = some me ↔ p.2 = true

omit [DecidableEq σ] in
theorem Held.same {me : String} {ns : Option String} {p : Job × Bool} (h : Held me ns st.db p)
    (hsame : Same s p.1.id st st') : Held me ns st'.db p := by
  refine ⟨?_, h.running, h.namespace_eq, ?_⟩
  · rw [hsame.find]
    exact h.live
  · rw [hsame.owner]
    exact h.claimed

abbrev todoIds (todo : List (Job × Bool)) : List JobId := todo.map fun p => p.1.id

/-- **The invariant of a round.** Every job it dequeued has nothing to wait for, and is on the
list, held, or settled. -/
structure Open (s : σ) (me : String) (ns : Option String) (todo : List (Job × Bool))
    (st : SchedState σ) (log : List (SchedEvent σ)) : Prop where
  partition : Partition st.db
  sequenced : st.db.Sequenced
  ready : ∀ j ∈ dequeuedIn log, ¬ st.db.Waits j
  nodup : (todoIds todo).Nodup
  known : ∀ p ∈ todo, p.1.id ∈ dequeuedIn log
  held : ∀ p ∈ todo, Held me ns st.db p
  settled : ∀ j ∈ dequeuedIn log, j ∈ todoIds todo ∨ Settled s me st log j

namespace Open

variable {s : σ} {me : String} {ns : Option String} {todo todo' : List (Job × Bool)}
  {st st' : SchedState σ} {log : List (SchedEvent σ)} {op : SchedOp σ}

/-- One operation of a round that dequeues nothing: outside the jobs `T` it touches everything is
as before, and the jobs of the list it touches are held again or settled. -/
theorem advance (h : Open s me ns todo st log) (hstill : Still st.db st'.db) (hp : Partition st'.db)
    (hnone : SchedEvent.dequeued ⟨op, st, st'⟩ = []) (T : JobId → Prop)
    (hsame : ∀ k, ¬ T k → Same s k st st') (hsub : todoIds todo' ⊆ todoIds todo)
    (hnd : (todoIds todo').Nodup) (hheld : ∀ p ∈ todo', p ∈ todo ∧ ¬ T p.1.id ∨ Held me ns st'.db p)
    (hkeep : ∀ p ∈ todo, ¬ T p.1.id → p ∈ todo') (hdone : ∀ j ∈ dequeuedIn log, T j →
      j ∈ todoIds todo' ∨ Settled s me st' (⟨op, st, st'⟩ :: log) j) :
    Open s me ns todo' st' (⟨op, st, st'⟩ :: log) := by
  have hlog : dequeuedIn (⟨op, st, st'⟩ :: log) = dequeuedIn log := by
    rw [dequeuedIn, flatMap_cons, hnone, nil_append, dequeuedIn]
  refine ⟨hp, hstill.sequenced h.sequenced, ?_, hnd, ?_, ?_, ?_⟩
  · intro j hj
    rw [hstill.waits]
    exact h.ready j (hlog ▸ hj)
  · intro p hp
    obtain ⟨q, hq, hid⟩ := mem_map.1 (hsub (mem_map_of_mem hp))
    rw [hlog, ← hid]
    exact h.known q hq
  · intro p hp
    obtain ⟨hmem, hT⟩ | hheld := hheld p hp
    · exact (h.held p hmem).same (hsame _ hT)
    · exact hheld
  · intro j hj
    rw [hlog] at hj
    by_cases hT : T j
    · exact hdone j hj hT
    · obtain hmem | hset := h.settled j hj
      · obtain ⟨p, hp, rfl⟩ := mem_map.1 hmem
        exact .inl (mem_map_of_mem (hkeep p hp hT))
      · exact .inr (hset.same (hsame j hT) _)

theorem dequeued_eq_nil (h : ∀ j, st'.db.Running j → st.db.Running j) :
    SchedEvent.dequeued ⟨op, st, st'⟩ = [] := by
  refine eq_nil_iff_forall_not_mem.2 fun j hj => ?_
  obtain ⟨⟨row, hrow, hpend⟩, hrun⟩ := SchedEvent.mem_dequeued.1 hj
  obtain ⟨_, hrow', hrun'⟩ := h j hrun
  have hrow : st.db.jobs.find j = some row := hrow
  rw [hrow] at hrow'
  cases hrow'
  rw [hpend] at hrun'
  cases hrun'

theorem quiet (op : SchedOp σ) (h : Open s me ns todo st log) :
    Open s me ns todo st (⟨op, st, st⟩ :: log) :=
  h.advance (.refl _) h.partition (dequeued_eq_nil fun _ h => h) (fun _ => False) (fun k _ =>
    .refl s k st)
    (fun _ hj => hj) h.nodup (fun _ hp => .inl ⟨hp, id⟩) (fun _ hp _ => hp) fun _ _ hT => hT.elim

/-! ### Steps on one job -/

section OneJob

variable {xs ys : List (Job × Bool)} {job : Job} {b : Bool}

/-- An operation on a job of the list that the round still holds afterwards. -/
theorem rehold (st' : SchedState σ) (h : Open s me ns (xs ++ (job, b) :: ys) st log)
    (hstill : Still st.db st'.db) (hp : Partition st'.db)
    (hrun : ∀ j, st'.db.Running j → st.db.Running j) (hsame : ∀ k, k ≠ job.id → Same s k st st')
    {b' : Bool} (hheld : Held me ns st'.db (job, b')) :
    Open s me ns (xs ++ (job, b') :: ys) st' (⟨op, st, st'⟩ :: log) := by
  have hids : todoIds (xs ++ (job, b') :: ys) = todoIds (xs ++ (job, b) :: ys) := by simp [todoIds]
  refine h.advance hstill hp (dequeued_eq_nil hrun) (· = job.id) hsame (by rw [hids]; simp)
    (hids ▸ h.nodup) (fun p hp => ?_) (fun p hp hne => ?_) fun j _ hj => ?_
  · by_cases hid : p.1.id = job.id
    · refine .inr ?_
      -- ids are distinct, so the entry with this id is the one that was replaced
      have hnd : (todoIds (xs ++ (job, b') :: ys)).Nodup := hids ▸ h.nodup
      obtain rfl : p = (job, b') := inj_on_of_nodup_map hnd hp (by simp) hid
      exact hheld
    · refine .inl ⟨?_, hid⟩
      simp only [mem_append, mem_cons] at hp ⊢
      obtain hp | rfl | hp := hp
      · exact .inl hp
      · exact absurd rfl hid
      · exact .inr (.inr hp)
  · simp only [mem_append, mem_cons] at hp ⊢
    obtain hp | rfl | hp := hp
    · exact .inl hp
    · exact absurd rfl hne
    · exact .inr (.inr hp)
  · exact .inl (by simp [todoIds, hj])

section

variable (h : Open s me ns (xs ++ (job, b) :: ys) st log)
include h

theorem finish (hstill : Still st.db st'.db) (hp : Partition st'.db)
    (hrun : ∀ j, st'.db.Running j → st.db.Running j) (hsame : ∀ k, k ≠ job.id → Same s k st st')
    (hset : Settled s me st' (⟨op, st, st'⟩ :: log) job.id) :
    Open s me ns (xs ++ ys) st' (⟨op, st, st'⟩ :: log) := by
  have hsub : (xs ++ ys).Sublist (xs ++ (job, b) :: ys) :=
    List.Sublist.append_left (sublist_cons_self _ _) xs
  have hne : ∀ p ∈ xs ++ ys, p.1.id ≠ job.id := by
    intro p hp hid
    have hnd := h.nodup
    simp only [todoIds, map_append, map_cons] at hnd
    have hnot := (nodup_middle.1 hnd).notMem
    rw [← map_append, ← hid] at hnot
    exact hnot (mem_map_of_mem hp)
  refine h.advance hstill hp (dequeued_eq_nil hrun) (· = job.id) hsame (hsub.map _).subset
    (h.nodup.sublist (hsub.map _)) (fun p hp => .inl ⟨hsub.subset hp, hne p hp⟩)
    (fun p hp hid => ?_) fun j _ hj => ?_
  · simp only [mem_append, mem_cons] at hp ⊢
    obtain hp | rfl | hp := hp
    · exact .inl hp
    · exact absurd rfl hid
    · exact .inr hp
  · subst hj
    exact .inr hset

theorem head_held : Held me ns st.db (job, b) :=
  h.held _ (by simp)

theorem record (op : SchedOp σ) {f : InFlight}
    (hf : ∀ k, k ≠ job.id → f.lookup k = (st.inFlight s).lookup k) :
    Open s me ns (xs ++ (job, b) :: ys) { st with inFlight := update st.inFlight s f }
      (⟨op, st, { st with inFlight := update st.inFlight s f }⟩ :: log) := by
  refine rehold { st with inFlight := update st.inFlight s f } h (.refl _) h.partition
    (fun _ h => h) (fun k hk => ⟨rfl, rfl, ?_⟩) h.head_held
  simp only [update_self]
  exact hf k hk

end

theorem send (h : Open s me ns (xs ++ (job, true) :: ys) st log)
    (hrec : ((st.inFlight s).lookup job.id).isSome = true) :
    Open s me ns (xs ++ ys) { st with sent := (s, job) :: st.sent }
      (⟨op, st, { st with sent := (s, job) :: st.sent }⟩ :: log) := by
  refine h.finish (.refl _) h.partition (fun _ h => h) (fun k hk => ⟨rfl, rfl, rfl⟩) (.inl ?_)
  exact ⟨⟨_, mem_cons_self, job, rfl, rfl⟩, hrec, h.head_held.claimed.2 rfl⟩

theorem dropClaim (h : Open s me ns (xs ++ (job, b) :: ys) st log) :
    Open s me ns (xs ++ (job, false) :: ys) { st with db := deleteClaim job.id st.db }
      (⟨op, st, { st with db := deleteClaim job.id st.db }⟩ :: log) := by
  have hheld := h.head_held
  refine rehold { st with db := deleteClaim job.id st.db } h (.of_eq rfl rfl rfl)
    (h.partition.of_eq rfl rfl rfl) (fun _ h => h)
    (fun k hk => ⟨rfl, ?_, rfl⟩) ⟨hheld.live, hheld.running, hheld.namespace_eq, ?_⟩
  · exact (owner_deleteClaim job.id k st.db).trans (if_neg hk)
  · have hnone : (deleteClaim job.id st.db).owner job.id = none :=
      (owner_deleteClaim job.id job.id st.db).trans (if_pos rfl)
    simp [hnone]

theorem putBack (h : Open s me ns (xs ++ (job, false) :: ys) st log) (next : Int) :
    ∃ db', (StoreOp.reschedule job.id next).exec st.db = (.ok (), db') ∧
      Open s me ns (xs ++ ys) { st with db := db' } (⟨op, st, { st with db := db' }⟩ :: log) := by
  have hheld := h.head_held
  have hok := reschedule_running hheld.live hheld.running next
  have hleaves : ∀ k, k ≠ job.id →
      ∀ e, (StoreOp.reschedule job.id next).Effects e → e.Leaves k := by
    rintro k hk _ ⟨row, hid, rfl⟩
    exact fun heq => hk (heq.symm.trans hid)
  refine ⟨_, Prod.ext hok rfl, h.finish (.exec rfl _)
    (h.partition.exec (fresh_of_inRound rfl _))
    (fun j hj => running_of_exec (fun row now he => ?_) hj)
    (fun k hk => ⟨(exec_of_leaves (hleaves k hk) _).1,
      (exec_of_leaves (hleaves k hk) _).2, rfl⟩) ?_⟩
  · obtain ⟨_, -, he⟩ := he
    cases he
  · obtain ⟨-, _, he⟩ | ⟨-, hshift, _, -, hafter⟩ := reschedule_shift job.id next st.db
    · rw [hok] at he
      cases he
    · have howner := hshift.owner job.id
      rcases ho : ((StoreOp.reschedule job.id next).exec st.db).2.owner job.id with _ | w
      · exact .inr (.inl ⟨⟨_, hafter, rfl⟩, ho⟩)
      · refine .inr (.inr (.inr ⟨w, ?_, ho⟩))
        rintro rfl
        rw [ho] at howner
        obtain hnone | hsame := howner
        · cases hnone
        · have hmine := hheld.claimed.1 hsame.symm
          cases hmine

theorem bury (h : Open s me ns (xs ++ (job, b) :: ys) st log) {dlqId : String}
    (hfresh : st.db.deadLetter.find dlqId = none) (error : String) (metadata : Option String)
    (count : Int) (shed : Bool) (now : Int) :
    ∃ db', (StoreOp.deadLetter job dlqId error metadata count shed now).exec st.db = (.ok (), db') ∧
      db'.Blocks job.id ∧
      Open s me ns (xs ++ ys) { st with db := db' } (⟨op, st, { st with db := db' }⟩ :: log) := by
  have hheld := h.head_held
  have hok := h.partition.deadLetter_ok hfresh job error metadata count shed now
  have hstill : Still st.db
      ((StoreOp.deadLetter job dlqId error metadata count shed now).exec st.db).2 := .exec rfl _
  have hleaves : ∀ k, k ≠ job.id → ∀ e,
      (StoreOp.deadLetter job dlqId error metadata count shed now).Effects e → e.Leaves k := by
    intro k hk _ he
    obtain rfl | ⟨row, hid, rfl⟩ := he
    · exact fun heq => hk heq.symm
    · exact fun heq => hk (heq.symm.trans hid)
  have hdead := deadLetter_gone hok
  refine ⟨_, Prod.ext hok rfl, ?_, h.finish hstill
    (h.partition.exec (fresh_of_inRound rfl _))
    (fun j hj => running_of_exec (fun row now he => ?_) hj)
    (fun k hk => ⟨(exec_of_leaves (hleaves k hk) _).1, (exec_of_leaves (hleaves k hk) _).2, rfl⟩)
    (.inr (.inr (.inl hdead)))⟩
  · exact (hstill.blocks job.id).2 (.inl (Option.isSome_iff_exists.2 ⟨job, hheld.live⟩))
  · obtain he | ⟨_, -, he⟩ := he <;> cases he

/-- Claiming an unclaimed job: the round holds the claim, or another owner does. -/
theorem claim (h : Open s me ns (xs ++ (job, false) :: ys) st log) (now : Int) :
    ∃ won db', (StoreOp.claimExecution job.id me now).exec st.db = (.ok won, db') ∧
      Open s me ns (if won then xs ++ (job, true) :: ys else xs ++ ys) { st with db := db' }
        (⟨op, st, { st with db := db' }⟩ :: log) := by
  have hheld := h.head_held
  obtain ⟨won, db', hw⟩ := claimExecution_ok job.id me now st.db
  refine ⟨won, db', hw, ?_⟩
  obtain ⟨hrest, hown⟩ := claimExecution_owner hw
  have hsame : ∀ k, k ≠ job.id → Same s k st { st with db := db' } := by
    intro k hk
    refine ⟨by rw [hrest]; rfl, ?_, rfl⟩
    obtain ⟨-, -, -, hafter⟩ | ⟨-, -, rfl⟩ := hown
    · exact (hafter k).trans (if_neg hk)
    · rfl
  have hstill : Still st.db db' := .of_eq (by rw [hrest]) (by rw [hrest]) (by rw [hrest])
  have hp : Partition db' := h.partition.of_eq (by rw [hrest]) (by rw [hrest]) (by rw [hrest])
  have hrun : ∀ j, db'.Running j → st.db.Running j := fun j hj => by
    rw [hrest] at hj
    exact hj
  obtain ⟨rfl, -, -, hafter⟩ | ⟨rfl, ⟨w, howner⟩, rfl⟩ := hown
  · refine rehold { st with db := db' } h hstill hp hrun hsame
      ⟨?_, hheld.running, hheld.namespace_eq, ?_⟩
    · rw [hrest]
      exact hheld.live
    · have hme : db'.owner job.id = some me := (hafter job.id).trans (if_pos rfl)
      simp [hme]
  · refine h.finish hstill hp hrun hsame (.inr (.inr (.inr ⟨w, ?_, howner⟩)))
    rintro rfl
    have hmine := hheld.claimed.1 howner
    cases hmine

end OneJob

/-! ### Steps on several jobs -/

/-- A cascade over waiting jobs touches nothing the round dequeued. -/
theorem cascade (h : Open s me ns todo st log) {root : JobId} {reason : String} {ids : List JobId}
    {ns' : Option String} {now : Int} (hids : ∀ k ∈ ids, st.db.Waits k) :
    ∃ db', (StoreOp.cascadeArchive root reason ids ns' now).exec st.db = (.ok (), db') ∧
      Open s me ns todo { st with db := db' } (⟨op, st, { st with db := db' }⟩ :: log) := by
  have hleaves : ∀ k, k ∉ ids → ∀ e,
      (StoreOp.cascadeArchive root reason ids ns' now).Effects e → e.Leaves k := by
    rintro k hk _ ⟨row, hid, -, rfl⟩
    exact fun heq => hk (heq ▸ hid)
  have hout : ∀ j ∈ dequeuedIn log, j ∉ ids := fun j hj hmem => h.ready j hj (hids j hmem)
  refine ⟨_, Prod.ext (h.partition.cascadeArchive_ok _ _ _ _ _) rfl, h.advance (.exec rfl _)
    (h.partition.exec (fresh_of_inRound rfl _))
    (dequeued_eq_nil fun j hj => running_of_exec (fun row now he => ?_) hj) (· ∈ ids)
    (fun k hk => ⟨(exec_of_leaves (hleaves k hk) _).1, (exec_of_leaves (hleaves k hk) _).2, rfl⟩)
    (fun _ hj => hj) h.nodup (fun p hp => .inl ⟨hp, hout _ (h.known p hp)⟩) (fun _ hp _ => hp)
    fun j hj hmem => absurd hmem (hout j hj)⟩
  obtain ⟨_, -, -, he⟩ := he
  cases he

/-- Claiming a whole batch of unclaimed jobs: the round holds those it won, the others have
another owner. -/
theorem claimBatch (h : Open s me ns (jobs.map (·, false)) st log) (now : Int) :
    ∃ out db', (StoreOp.claimExecutionBatch (jobs.map Job.id) me now).exec st.db = (.ok out, db') ∧
      Open s me ns ((Sched.wonJobs jobs out).map (·, true)) { st with db := db' }
        (⟨op, st, { st with db := db' }⟩ :: log) := by
  have hnd : (jobs.map Job.id).Nodup := by
    have hnd := h.nodup
    simpa [todoIds, Function.comp_def] using hnd
  obtain ⟨out, db', hbody, hlen, hrest, hother, hown⟩ := claimExecutionBatch_owner me now hnd st.db
  refine ⟨out, db', writeTransaction_ok _ hbody, ?_⟩
  have hwon : ∀ {job}, job ∈ Sched.wonJobs jobs out ↔ (job, true) ∈ jobs.zip out := by
    intro job
    simp only [Sched.wonJobs, mem_map, mem_filter]
    constructor
    · rintro ⟨⟨_, b⟩, ⟨hmem, hb⟩, rfl⟩
      obtain rfl : b = true := hb
      exact hmem
    · intro hmem
      exact ⟨(job, true), ⟨hmem, rfl⟩, rfl⟩
  have hzip : ∀ {job b}, (job, b) ∈ jobs.zip out → (job.id, b) ∈ (jobs.map Job.id).zip out := by
    intro job b hmem
    rw [zip_map_left]
    exact mem_map.2 ⟨(job, b), hmem, rfl⟩
  have hsub : (Sched.wonJobs jobs out).Sublist jobs := by
    have hfst : ((jobs.zip out).map Prod.fst) = jobs := by
      rw [map_fst_zip]
      simp [hlen]
    calc (Sched.wonJobs jobs out).Sublist ((jobs.zip out).map Prod.fst) := filter_sublist.map _
      _ = jobs := hfst
  have hids : todoIds ((Sched.wonJobs jobs out).map (·, true)) =
      (Sched.wonJobs jobs out).map Job.id := by
    simp [todoIds, Function.comp_def]
  refine h.advance (.of_eq (by rw [hrest]) (by rw [hrest]) (by rw [hrest]))
    (h.partition.of_eq (by rw [hrest]) (by rw [hrest]) (by rw [hrest]))
    (dequeued_eq_nil fun j hj => by rw [hrest] at hj; exact hj) (· ∈ jobs.map Job.id)
    (fun k hk => ⟨by rw [hrest]; rfl, hother k hk, rfl⟩) ?_ ?_ (fun p hp => .inr ?_)
    (fun p hp hne => ?_) fun j hj hmem => ?_
  · rw [hids]
    simpa [todoIds, Function.comp_def] using (hsub.map Job.id).subset
  · rw [hids]
    exact hnd.sublist (hsub.map _)
  · obtain ⟨job, hjob, rfl⟩ := mem_map.1 hp
    have hheld := h.held (job, false) (mem_map_of_mem (hsub.subset hjob))
    refine ⟨by rw [hrest]; exact hheld.live, hheld.running, hheld.namespace_eq, ?_⟩
    obtain ⟨-, hme⟩ | ⟨hfalse, -⟩ := hown _ (hzip (hwon.1 hjob))
    · have hme : db'.owner job.id = some me := hme
      simp [hme]
    · cases hfalse
  · obtain ⟨job, hjob, rfl⟩ := mem_map.1 hp
    exact absurd (mem_map_of_mem hjob) hne
  · obtain ⟨job, hjob, rfl⟩ := mem_map.1 hmem
    obtain ⟨b, hb⟩ : ∃ b, (job, b) ∈ jobs.zip out := by
      have hfst : job ∈ (jobs.zip out).map Prod.fst := by
        rw [map_fst_zip]
        · exact hjob
        · simp [hlen]
      obtain ⟨⟨_, b⟩, hz, rfl⟩ := mem_map.1 hfst
      exact ⟨b, hz⟩
    obtain ⟨hb', -⟩ | ⟨-, w, hw, hw'⟩ := hown _ (hzip hb)
    · obtain rfl : b = true := hb'
      rw [hids]
      exact .inl (mem_map_of_mem (hwon.2 hb))
    · refine .inr (.inr (.inr (.inr ⟨w, ?_, hw'⟩)))
      rintro rfl
      have hheld := h.held (job, false) (mem_map_of_mem hjob)
      have hmine := hheld.claimed.1 hw
      cases hmine

end Open

/-! ## Gathering -/

/-- While a round dequeues: what it dequeued so far is exactly its list, nothing of it claimed,
and no pending job carries this scheduler's claim. -/
structure Gathered (s : σ) (me : String) (ns : Option String) (jobs : List Job)
    (st : SchedState σ) (log : List (SchedEvent σ)) : Prop where
  isOpen : Open s me ns (jobs.map (·, false)) st log
  all : ∀ j ∈ dequeuedIn log, j ∈ jobs.map Job.id
  unclaimed : ∀ {k row}, st.db.jobs.find k = some row → row.status = .pending →
    st.db.owner k ≠ some me

variable {s : σ} {me : String} {ns : Option String} {st : SchedState σ} {log : List (SchedEvent σ)}

theorem Gathered.dequeue (h : Gathered s me ns jobs st log) (op : SchedOp σ) (new : List Job)
    (hstill : Still st.db db') (hp : Partition db') (hshift : Shift [] [] st.db db')
    (hnd : (new.map Job.id).Nodup) (hout : ∀ job ∈ new, HandedOut ns st.db db' job)
    (hstarts : Starts st.db db' new) :
    Gathered s me ns (jobs ++ new) { st with db := db' }
      (⟨op, st, { st with db := db' }⟩ :: log) := by
  let ev : SchedEvent σ := ⟨op, st, { st with db := db' }⟩
  have hev : ∀ j, j ∈ ev.dequeued ↔ j ∈ new.map Job.id := by
    intro j
    rw [SchedEvent.mem_dequeued]
    constructor
    · rintro ⟨⟨row, hrow, hpend⟩, hrun⟩
      obtain ⟨row', hrow', hrun'⟩ | hnew := hstarts.only hrun
      · have hrow : st.db.jobs.find j = some row := hrow
        rw [hrow] at hrow'
        cases hrow'
        rw [hpend] at hrun'
        cases hrun'
      · exact hnew
    · intro hj
      obtain ⟨job, hjob, rfl⟩ := mem_map.1 hj
      exact ⟨(hout job hjob).before, job, (hout job hjob).after⟩
  have hlog : ∀ j, j ∈ dequeuedIn (ev :: log) ↔ j ∈ new.map Job.id ∨ j ∈ dequeuedIn log := by
    intro j
    rw [dequeuedIn, flatMap_cons, mem_append, hev, dequeuedIn]
  have hold : ∀ job ∈ jobs, Held me ns st.db (job, false) :=
    fun job hjob => h.isOpen.held _ (mem_map_of_mem hjob)
  have hids : ∀ l : List Job, todoIds (l.map (·, false)) = l.map Job.id := by
    intro _
    simp [todoIds, Function.comp_def]
  have hall : ∀ j ∈ dequeuedIn (ev :: log), j ∈ (jobs ++ new).map Job.id := by
    intro j hj
    rw [map_append, mem_append]
    exact ((hlog j).1 hj).symm.imp_left (h.all j)
  refine ⟨⟨hp, hstill.sequenced h.isOpen.sequenced, ?_, ?_, ?_, ?_, ?_⟩, hall, ?_⟩
  · intro j hj
    rw [hstill.waits]
    obtain hnew | hold := (hlog j).1 hj
    · obtain ⟨job, hjob, rfl⟩ := mem_map.1 hnew
      exact hstarts.ready job hjob
    · exact h.isOpen.ready j hold
  · rw [hids, map_append, nodup_append]
    refine ⟨hids jobs ▸ h.isOpen.nodup, hnd, fun a ha b hb hab => ?_⟩
    -- a job on the list is running, one that is handed out was pending
    obtain ⟨job, hjob, rfl⟩ := mem_map.1 ha
    obtain ⟨job', hjob', rfl⟩ := mem_map.1 hb
    obtain ⟨row, hrow, hpend⟩ := (hout job' hjob').before
    have hlive := (hold job hjob).live
    rw [← hab] at hrow
    have hlive : st.db.jobs.find job.id = some job := hlive
    rw [hrow] at hlive
    cases hlive
    have hrun := (hold job hjob).running
    rw [show job.status = _ from hpend] at hrun
    cases hrun
  · intro p hp
    obtain ⟨job, hjob, rfl⟩ := mem_map.1 hp
    refine (hlog job.id).2 ?_
    obtain hjob | hjob := mem_append.1 hjob
    · exact .inr (h.isOpen.known (job, false) (mem_map_of_mem hjob))
    · exact .inl (mem_map_of_mem hjob)
  · intro _ hp
    obtain ⟨job, hjob, rfl⟩ := mem_map.1 hp
    have howner := hshift.owner job.id
    obtain hjob | hjob := mem_append.1 hjob
    · have hheld := hold job hjob
      refine ⟨hshift.running (by simp) hheld.live hheld.running, hheld.running,
        hheld.namespace_eq, ⟨fun hme => ?_, nofun⟩⟩
      have hme : db'.owner job.id = some me := hme
      rw [hme] at howner
      obtain hnone | hsame := howner
      · cases hnone
      · exact hheld.claimed.1 hsame.symm
    · have hjob' := hout job hjob
      refine ⟨hjob'.after.1, hjob'.after.2, hjob'.namespace_eq,
        ⟨fun hme => ?_, nofun⟩⟩
      have hme : db'.owner job.id = some me := hme
      obtain ⟨row, hrow, hpend⟩ := hjob'.before
      rw [hme] at howner
      obtain hnone | hsame := howner
      · cases hnone
      · exact absurd hsame.symm (h.unclaimed hrow hpend)
  · intro j hj
    rw [hids]
    exact .inl (hall j hj)
  · intro k _ hrow' hpend' hme
    have hme : db'.owner k = some me := hme
    obtain hnew | ⟨_, hrow, -, hst⟩ := hshift.origin (by simp) hrow'
    · cases hnew
    · have howner := hshift.owner k
      rw [hme] at howner
      obtain hnone | hsame := howner
      · cases hnone
      · refine h.unclaimed hrow ?_ hsame.symm
        obtain hst | hst := hst
        · exact hst.symm.trans hpend'
        · exact hst

theorem Gathered.quiet (op : SchedOp σ) (h : Gathered s me ns jobs st log) :
    Gathered s me ns jobs st (⟨op, st, st⟩ :: log) := by
  refine ⟨h.isOpen.quiet op, fun j hj => ?_, h.unclaimed⟩
  rw [dequeuedIn, flatMap_cons, mem_append] at hj
  obtain hj | hj := hj
  · rw [Open.dequeued_eq_nil fun _ h => h] at hj
    cases hj
  · exact h.all j hj

/-! ## Inputs -/

/-- The operations at which a failure does no harm, where `idle` says that the round has dequeued
nothing so far: a claim, a dequeue of an idle round, and whatever does not call the store. -/
def shielded (idle : Bool) : SchedOp σ → Bool
  | .store _ _ (.claimExecution _ _ _) | .store _ _ (.claimExecutionBatch _ _ _) => true
  | .store _ _ (.dequeue _ _ _ _) | .store _ _ (.dequeueBatch _ _ _ _ _) => idle
  | .store _ _ _ | .tryAcquire _ _ | .breakerAllows _ _ => false
  | _ => true

/-- The operation draws a fresh identifier. -/
def drawsId : SchedOp σ → Bool
  | .newUuid _ => true
  | _ => false

/-- The world fails no call but a shielded one, and draws identifiers that no dead letter has. -/
abbrev Input (ls : SchedState σ × List (SchedEvent σ)) (op : SchedOp σ) (w : World) : Prop :=
  (w.fault = true → shielded (dequeuedIn ls.2).isEmpty op = true) ∧
  (drawsId op = true → ls.1.db.deadLetter.find w.text = none)

/-- What is true of the last state, the history and the result. -/
abbrev Post (σ : Type) [DecidableEq σ] (α : Type) := SchedState σ → List (SchedEvent σ) → α → Prop

/-- From this state and history, every such run of the program ends with `Q`. -/
def Run {α : Type} (p : SchedProg σ α) (st : SchedState σ) (log : List (SchedEvent σ))
    (Q : SchedState σ → List (SchedEvent σ) → α → Prop) : Prop :=
  p.Ensures (M := (schedMachine σ).logged) Input (st, log) fun ls a => Q ls.1 ls.2 a

section Rules

variable {α β : Type} {st : SchedState σ} {log : List (SchedEvent σ)}
variable {p : SchedProg σ α} {f : α → SchedProg σ β} {op : SchedOp σ} {s : σ}
  {log' : List (SchedEvent σ)}
variable {a : α} {Q : Post σ β} {me : String} {ns : Option String} {R : α → Prop}

theorem Run.ret {Q : Post σ α} (h : Q st log a) : Run (.ret a : SchedProg σ α) st log Q := h

theorem Run.bind (h : Run p st log fun st' log' a => Run (f a) st' log' Q) :
    Run (p >>= f) st log Q :=
  Prog.Ensures.bind h

theorem Run.mono {Q Q' : Post σ α} (h : Run p st log Q)
    (hQ : ∀ st log a, Q st log a → Q' st log a) : Run p st log Q' :=
  Prog.Ensures.mono h fun ls a => hQ ls.1 ls.2 a

theorem Run.operate {Q : Post σ op.Res}
    (h : ∀ w, Input (st, log) op w → Q (op.exec w st).2 (⟨op, st, (op.exec w st).2⟩ :: log)
      (op.exec w st).1) :
    Run (ask op) st log Q := h

theorem Run.question {Q : Post σ op.Res} (hop : ∀ w st, (op.exec w st).2 = st)
    (h : ∀ w, Input (st, log) op w → Q st (⟨op, st, st⟩ :: log) (op.exec w st).1) :
    Run (ask op) st log Q := by
  refine .operate fun w hw => ?_
  rw [hop w st]
  exact h w hw

/-- A transaction that may fail, and then changes nothing. -/
theorem Run.attempted {op : StoreOp} {a : op.Res}
    {Q : Post σ (Option op.Res)}
    (hexec : op.exec st.db = (a, db'))
    (hfail : shielded (dequeuedIn log).isEmpty (SchedOp.store s .loop op) = true →
      Q st (⟨.store s .loop op, st, st⟩ :: log) none)
    (h : Q { st with db := db' } (⟨.store s .loop op, st, { st with db := db' }⟩ :: log) (some a)) :
    Run (storage s .loop (txn op)) st log Q := by
  refine Prog.Ensures.guarded_perform fun w hw => ?_
  by_cases hfault : w.fault = true
  · have hstep : (SchedOp.store s .loop op).exec w st = (none, st) := if_pos hfault
    simp only [Machine.logged, hstep]
    exact hfail (hw.1 hfault)
  · have hstep : (SchedOp.store s .loop op).exec w st = (some a, { st with db := db' }) := by
      refine (if_neg hfault).trans ?_
      rw [hexec]
    simp only [Machine.logged, hstep]
    exact h

/-- A transaction that may not fail: the store answers. -/
theorem Run.answered {op : StoreOp} {a : op.Res} {Q : Post σ (Option op.Res)}
    (hop : shielded (dequeuedIn log).isEmpty (SchedOp.store s .loop op) = false)
    (hexec : op.exec st.db = (a, db'))
    (h : Q { st with db := db' } (⟨.store s .loop op, st, { st with db := db' }⟩ :: log) (some a)) :
    Run (storage s .loop (txn op)) st log Q :=
  .attempted hexec (fun hsh => by rw [hop] at hsh; cases hsh) h

/-- A sequence of transactions: the second part runs if the first was answered. -/
theorem Run.storage_bind {p : StoreProg α} {k : α → StoreProg β}
    {Q : Post σ (Option β)}
    (h : Run (storage s .loop p) st log fun st' log' r => match r with
      | none => Q st' log' none
      | some a => Run (storage s .loop (k a)) st' log' Q) :
    Run (storage s .loop (p >>= k)) st log Q := by
  refine Prog.Ensures.guarded_bind (Prog.Ensures.mono h fun ls r hr => ?_)
  rcases r with _ | _
  · exact hr
  · exact hr

/-! ### Questions -/

/-- The history grew by operations that changed nothing. -/
inductive Asked (st : SchedState σ) (log : List (SchedEvent σ)) : List (SchedEvent σ) → Prop
  | refl : Asked st log log
  | step {log' : List (SchedEvent σ)} (op : SchedOp σ) (h : Asked st log log') :
      Asked st log (⟨op, st, st⟩ :: log')

theorem Asked.trans {log'' : List (SchedEvent σ)} (h : Asked st log log')
    (h' : Asked st log' log'') : Asked st log log'' := by
  induction h' with
  | refl => exact h
  | step op _ ih => exact ih.step op

theorem Open.asked {todo : List (Job × Bool)} (h : Open s me ns todo st log)
    (ha : Asked st log log') : Open s me ns todo st log' := by
  induction ha with
  | refl => exact h
  | step op _ ih => exact ih.quiet op

theorem Gathered.asked (h : Gathered s me ns jobs st log) (ha : Asked st log log') :
    Gathered s me ns jobs st log' := by
  induction ha with
  | refl => exact h
  | step op _ ih => exact ih.quiet op

/-- The program changes nothing, and answers with `R`. -/
def Asks (p : SchedProg σ α) (R : α → Prop) : Prop :=
  ∀ st log, Run p st log fun st' log' a => st' = st ∧ Asked st log log' ∧ R a

theorem Asks.ret (h : R a) : Asks (.ret a : SchedProg σ α) R :=
  fun _ _ => ⟨rfl, .refl, h⟩

theorem Asks.bind {R' : β → Prop} (hp : Asks p R) (hf : ∀ a, R a → Asks (f a) R') :
    Asks (p >>= f) R' := by
  intro st log
  refine .bind ((hp st log).mono fun st' log' a h => ?_)
  obtain ⟨rfl, hasked, ha⟩ := h
  refine (hf a ha st' log').mono fun st'' log'' b h => ?_
  obtain ⟨rfl, hasked', hb⟩ := h
  exact ⟨rfl, hasked.trans hasked', hb⟩

theorem Asks.question {R : op.Res → Prop} (hop : ∀ w st, (op.exec w st).2 = st)
    (hR : ∀ w st log, Input (st, log) op w → R (op.exec w st).1) : Asks (ask op) R := by
  intro st log
  exact .question hop fun w hw => ⟨rfl, Asked.refl.step op, hR w st log hw⟩

theorem Asks.read {op : StoreOp} (hop : ∀ db, (op.exec db).2 = db)
    (hsh : ∀ idle, shielded idle (SchedOp.store s .loop op) = false) :
    Asks (storage s .loop (txn op)) fun r => r.isSome = true := by
  intro st _
  have hexec : op.exec st.db = ((op.exec st.db).1, st.db) := Prod.ext rfl (hop st.db)
  exact .answered (hsh _) hexec ⟨rfl, Asked.refl.step _, rfl⟩

/-- A question, and what follows. -/
theorem Run.asks (hp : Asks p R) (h : ∀ a log', R a → Asked st log log' → Run (f a) st log' Q) :
    Run (p >>= f) st log Q := by
  refine .bind ((hp st log).mono fun st' log' a ha => ?_)
  obtain ⟨rfl, hasked, hR⟩ := ha
  exact h a log' hR hasked

end Rules

end Round

end

end Flexiq
