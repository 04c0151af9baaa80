import Flexiq.DispatchRound

/-!
# Which jobs of a batch pass a cap

A batch dispatch dequeues its jobs first, which makes all of them running, and then takes them one
by one through the concurrency cap of their task. The number it compares with the cap is the count
of running jobs, **with the whole batch in it**, lowered by one for each job that is given back.
So with `k` jobs too many, the first `k` of the batch are given back and the ones behind them are
sent: the right number of jobs, but the wrong end of the batch. What is handed out is a prefix of
the batch only if the cap refuses nothing or everything (`batch_prefix_iff`).
-/

namespace Flexiq

open List SchedOp Sched

/-! ## How many jobs a dequeue starts -/

section Counts

variable {queue task : String} {ns : Option String} {now : Int} {db db' : Db}

/-- One pass of the dequeue loop adds the job it claims to the running ones. -/
theorem claimCandidate_count {c : Job} {r : Option Job} (hc : Candidate queue ns db c)
    (h : claimCandidate now c db = .ok (r, db')) :
    countRunningByTask task ns db' =
      countRunningByTask task ns db + (r.toList.filter fun j => j.taskName = task).length := by
  obtain ⟨full, hfull, rfl, hcase⟩ := claimCandidate_cases hc.scanned hc.pending h
  have hpend : full.status = .pending := hc.pending
  obtain ⟨rfl, rfl⟩ | ⟨rfl, -, -, ha⟩ | ⟨rfl, hrow, -, -, rfl⟩ := hcase
  · rfl
  · have hjobs : db'.jobs = db.jobs.delete fun j => j.id = full.id := by
      rw [(archiveJobRow_ok ha).2]
      rfl
    rw [countRunningByTask, hjobs, Table.count_delete_row (Table.mem_of_find hfull)]
    · rfl
    · exact fun r hr => of_decide_eq_true hr
    · simp [hpend]
  · have hns : jobInNamespace full.namespace_ ns = true := by
      rw [show full.namespace_ = ns from hc.namespace_eq]
      exact jobInNamespace_self ns
    rw [countRunningByTask, claimPending, Table.count_update_row _ (Table.mem_of_find hrow)]
    · by_cases htask : full.taskName = task <;>
        simp [countRunningByTask, Job.started, htask, hns]
    · exact fun r hr => (of_decide_eq_true hr).1
    · simp [hpend]
    · simp [hpend]

theorem Walk.count {cs r : List Job} (h : Walk queue ns now cs db r db') :
    countRunningByTask task ns db' =
      countRunningByTask task ns db + (r.filter fun j => j.taskName = task).length := by
  induction h with
  | stop => rfl
  | pass hc h _ ih =>
    rw [ih, claimCandidate_count hc h, filter_append, length_append, Nat.add_assoc]

end Counts

section

variable {σ : Type}

/-- The operation offers a job to the workers. -/
def SchedOp.isSend : SchedOp σ → Bool
  | .trySend _ _ => true
  | _ => false

def SchedOp.isBatchDequeue : SchedOp σ → Bool
  | .store _ _ (.dequeueBatch _ _ _ _ _) => true
  | _ => false

/-! ## What a history dequeued and sent -/

variable [DecidableEq σ]

/-- The jobs a batch dequeue answered, in the order it claimed them. -/
def SchedEvent.batch (ev : SchedEvent σ) : List Job :=
  match ev.op with
  | .store _ _ (.dequeueBatch queue now ns max order) =>
    (((StoreOp.dequeueBatch queue now ns max order).exec ev.before.db).1.toOption).getD []
  | _ => []

/-- The jobs a history dequeued in batches, in dispatch order. -/
def batchIn (log : List (SchedEvent σ)) : List Job := log.reverse.flatMap SchedEvent.batch

variable {ev : SchedEvent σ}

theorem batchIn_cons {log : List (SchedEvent σ)} :
    batchIn (ev :: log) = batchIn log ++ ev.batch := by
  simp [batchIn]

theorem batch_of_not_dequeue (h : SchedOp.isBatchDequeue ev.op = false) : ev.batch = [] := by
  unfold SchedEvent.batch
  split
  · next heq => simp [heq, isBatchDequeue] at h
  · rfl

theorem SchedOp.exec_sent {op : SchedOp σ} (h : op.isSend = false) (w : World)
    (st : SchedState σ) : (op.exec w st).2.sent = st.sent := by
  cases op with
  | trySend => simp [isSend] at h
  | store =>
    simp only [exec]
    split <;> rfl
  | _ => rfl

/-! ## Rounds in which nothing goes wrong -/

namespace Batch

open Round (Post)

/-- No call fails, the worker channel has room, and what is dequeued is of one task. -/
abbrev Smooth (task : String) (ls : SchedState σ × List (SchedEvent σ)) (op : SchedOp σ)
    (w : World) : Prop :=
  w.fault = false ∧ (op.isSend = true → w.flag = true) ∧
    ∀ job ∈ SchedEvent.batch ⟨op, ls.1, (op.exec w ls.1).2⟩, job.taskName = task

/-- From this state and history, every smooth run of the program ends with `Q`. -/
def Calm {α : Type} (task : String) (p : SchedProg σ α) (st : SchedState σ)
  (log : List (SchedEvent σ))
    (Q : SchedState σ → List (SchedEvent σ) → α → Prop) : Prop :=
  p.Ensures (M := (schedMachine σ).logged) (Smooth task) (st, log) fun ls a => Q ls.1 ls.2 a

section Rules

variable {α β : Type} {task : String} {st : SchedState σ} {log : List (SchedEvent σ)}

theorem Calm.ret {a : α} {Q : Post σ α} (h : Q st log a) :
    Calm task (.ret a : SchedProg σ α) st log Q := h

variable {p : SchedProg σ α} {s : σ}

theorem Calm.bind {f : α → SchedProg σ β} {Q : Post σ β}
    (h : Calm task p st log fun st' log' a => Calm task (f a) st' log' Q) :
    Calm task (p >>= f) st log Q :=
  Prog.Ensures.bind h

theorem Calm.mono {Q Q' : Post σ α} (h : Calm task p st log Q)
    (hQ : ∀ st log a, Q st log a → Q' st log a) : Calm task p st log Q' :=
  Prog.Ensures.mono h fun ls a => hQ ls.1 ls.2 a

theorem Calm.operate {op : SchedOp σ} {Q : Post σ op.Res} (h : ∀ w, Smooth task (st, log) op w →
      Q (op.exec w st).2 (⟨op, st, (op.exec w st).2⟩ :: log) (op.exec w st).1) :
    Calm task (ask op) st log Q := h

theorem Calm.answered {op : StoreOp} {a : op.Res} {db' : Db} {Q : Post σ (Option op.Res)}
    (hexec : op.exec st.db = (a, db'))
    (h : (∀ job ∈ SchedEvent.batch ⟨.store s .loop op, st, { st with db := db' }⟩,
        job.taskName = task) →
      Q { st with db := db' } (⟨.store s .loop op, st, { st with db := db' }⟩ :: log) (some a)) :
    Calm task (storage s .loop (txn op)) st log Q := by
  refine .guarded_perform fun w hw => ?_
  have hfault : ¬ w.fault = true := by
    rw [hw.1]
    exact Bool.false_ne_true
  have hstep : (store s .loop op).exec w st = (some a, { st with db := db' }) := by
    refine (if_neg hfault).trans ?_
    rw [hexec]
  have honly := hw.2.2
  simp only [hstep] at honly
  simp only [Machine.logged, hstep]
  exact h honly

theorem Calm.storage_bind {p : StoreProg α} {k : α → StoreProg β} {Q : Post σ (Option β)}
    (h : Calm task (storage s .loop p) st log fun st' log' r =>
      ∃ a, r = some a ∧ Calm task (storage s .loop (k a)) st' log' Q) :
    Calm task (storage s .loop (p >>= k)) st log Q := by
  refine Prog.Ensures.guarded_bind (Prog.Ensures.mono h fun ls r hr => ?_)
  obtain ⟨a, rfl, hrest⟩ := hr
  exact hrest

theorem Calm.plain
    (h : p.Calls fun op => SchedOp.isSend op = false ∧ SchedOp.isBatchDequeue op = false) :
    Calm task p st log fun st' log' _ => st'.sent = st.sent ∧ batchIn log' = batchIn log := by
  induction p generalizing st log with
  | ret => exact ⟨rfl, rfl⟩
  | call op k ih =>
    intro w _
    have hrest : Calm task (k (exec op w st).1) (exec op w st).2
        (⟨op, st, (exec op w st).2⟩ :: log) fun st' log' _ =>
          st'.sent = (exec op w st).2.sent ∧
            batchIn log' = batchIn (⟨op, st, (exec op w st).2⟩ :: log) :=
      ih _ (h.2 _)
    refine Prog.Ensures.mono hrest fun ls a hls => ?_
    refine ⟨hls.1.trans (exec_sent h.1.1 w st), hls.2.trans ?_⟩
    rw [batchIn_cons, batch_of_not_dequeue h.1.2, append_nil]

end Rules

end Batch

end

/-! ## The cap -/

namespace Batch

/-- Of all gates, the scheduler has only the cap on the running jobs of the task. -/
structure OnlyCapped (scheduler : Scheduler) (task : String) (cap : Int) : Prop where
  capped : (scheduler.taskConfigs task).bind TaskConfig.maxConcurrent = some cap
  task : ∀ c, scheduler.taskConfigs task = some c →
    c.rateLimit = false ∧ c.circuitBreaker = false ∧ c.maxInFlightPerTask = none
  queue : ∀ q c, scheduler.queueConfigs q = some c → c.rateLimit = false ∧ c.maxConcurrent = none
  codel : ∀ q, scheduler.codelTargets q = none

section Gates

variable {σ : Type} {cfg : σ → Scheduler} {s : σ} {task : String} {cap : Int} {job : Job}

section

variable (h : OnlyCapped (cfg s) task cap)
include h

theorem queueGate_eq {onExcess : OnExcess} :
    Sched.queueGate cfg s job onExcess = .ret (some .proceed) := by
  unfold queueGate
  split
  · next _ heq =>
    have hlimit := (h.queue job.queue _ heq).1
    cases hlimit
  · rfl

theorem checkPreClaimGates_eq (hjob : job.taskName = task) :
    Sched.checkPreClaimGates cfg s job = .ret (some .proceed) := by
  simp only [checkPreClaimGates, queueGate_eq h]
  cases hc : (cfg s).taskConfigs job.taskName with
  | none => rfl
  | some c =>
    obtain ⟨hrate, hbreaker, -⟩ := h.task c (hjob ▸ hc)
    simp only [breakerGate, taskGate, hrate, hbreaker]
    rfl

theorem queueCap_eq {counts : Sched.GateCounts} :
    Sched.queueCap cfg s job counts = .ret (some true, counts) := by
  have hnone : ((cfg s).queueConfigs job.queue).bind QueueConfig.maxConcurrent = none := by
    cases hc : (cfg s).queueConfigs job.queue with
    | none => rfl
    | some c => exact (h.queue _ c hc).2
  unfold queueCap
  rw [hnone]
  rfl

theorem bulkhead_eq (hjob : job.taskName = task) : Sched.bulkhead cfg s job = .ret true := by
  have hnone : ((cfg s).taskConfigs job.taskName).bind TaskConfig.maxInFlightPerTask = none := by
    cases hc : (cfg s).taskConfigs job.taskName with
    | none => rfl
    | some c => exact (h.task c (hjob ▸ hc)).2.2
  unfold bulkhead
  rw [hnone]
  rfl

end

end Gates

/-! ## One job of the batch -/

section OneJob

variable {σ : Type} [DecidableEq σ] {cfg : σ → Scheduler} {s : σ} {task : String} {cap n : Int}
  {job : Job} {st : SchedState σ} {log : List (SchedEvent σ)} {counts : Sched.GateCounts}

/-- What the cycle knows, or is about to read, as the number of running jobs of the task. -/
def Counts (cfg : σ → Scheduler) (s : σ) (task : String) (counts : Sched.GateCounts) (db : Db)
    (n : Int) : Prop :=
  counts.taskRunning.lookup task = some n ∨
    (counts.taskRunning.lookup task = none ∧
      (countRunningByTask task (cfg s).namespace_ db : Int) = n)

theorem calm_cachedTaskRunning (hn : Counts cfg s task counts st.db n) :
    Calm task (Sched.cachedTaskRunning cfg s counts task) st log fun st' log' r =>
      st' = st ∧ batchIn log' = batchIn log ∧ r.1 = some n ∧
        r.2.taskRunning.lookup task = some n := by
  unfold cachedTaskRunning
  obtain hknown | ⟨hnone, hcount⟩ := hn
  · rw [hknown]
    exact .ret ⟨rfl, rfl, rfl, hknown⟩
  · rw [hnone]
    refine .bind (.answered rfl fun _ => .ret ⟨rfl, ?_, congrArg some hcount, ?_⟩)
    · rw [batchIn_cons, batch_of_not_dequeue rfl, append_nil]
    · simp [hcount]

theorem calm_checkPostClaimConcurrency (h : OnlyCapped (cfg s) task cap)
    (hjob : job.taskName = task) (hn : Counts cfg s task counts st.db n) :
    Calm task (Sched.checkPostClaimConcurrency cfg s job counts) st log fun st' log' r =>
      st' = st ∧ batchIn log' = batchIn log ∧ r.1 = some (decide (n ≤ cap)) ∧
        r.2.taskRunning.lookup task = some n := by
  unfold checkPostClaimConcurrency
  rw [queueCap_eq h]
  have hcap : Calm task (taskCap cfg s job counts) st log fun st' log' r =>
      st' = st ∧ batchIn log' = batchIn log ∧ r.1 = some (decide (n ≤ cap)) ∧
        r.2.taskRunning.lookup task = some n := by
    unfold taskCap
    rw [hjob, h.capped]
    refine .bind ((calm_cachedTaskRunning hn).mono fun st' log' r hr => .ret ?_)
    obtain ⟨hst, hlog, hval, hkeep⟩ := hr
    exact ⟨hst, hlog, by rw [hval]; rfl, hkeep⟩
  refine .bind (.ret (.bind (hcap.mono fun st' log' r hr => ?_)))
  obtain ⟨hst, hlog, hval, hkeep⟩ := hr
  obtain ⟨decision, counts'⟩ := r
  by_cases hle : n ≤ cap
  · rw [decide_eq_true hle] at hval ⊢
    obtain rfl : decision = some true := hval
    rw [bulkhead_eq h hjob]
    exact .ret ⟨hst, hlog, rfl, hkeep⟩
  · rw [decide_eq_false hle] at hval ⊢
    obtain rfl : decision = some false := hval
    exact .ret ⟨hst, hlog, rfl, hkeep⟩

omit [DecidableEq σ] in
theorem calls_rollback {now delayMs : Int} :
    (Sched.rollback cfg s job now delayMs).Calls fun op =>
      SchedOp.isSend op = false ∧ SchedOp.isBatchDequeue op = false := by
  refine .bind (.perform ⟨rfl, rfl⟩) fun delay => ?_
  refine .bind (.bind (.guarded
    (calls_completeExecution (P := fun op => isSend (.store s .loop op) = false ∧
      isBatchDequeue (.store s .loop op) = false) ⟨rfl, rfl⟩ ⟨rfl, rfl⟩)
    fun op hop => hop) fun r => ?_) fun r => ?_
  · rcases r with _ | ⟨⟩
    · trivial
    · refine .bind (.guarded
        (calls_txn (P := fun op => isSend (.store s .loop op) = false ∧
          isBatchDequeue (.store s .loop op) = false) ⟨rfl, rfl⟩)
        fun op hop => hop) fun _ => trivial
  · rcases r with _ | ⟨⟩ <;> trivial

/-- A job whose count is within the cap is sent; otherwise it is given back and the count goes
down by one. -/
theorem calm_dispatchClaimed (h : OnlyCapped (cfg s) task cap) (hjob : job.taskName = task)
    (hn : Counts cfg s task counts st.db n) {now : Int} :
    Calm task (Sched.dispatchClaimed cfg s job now counts) st log fun st' log' r =>
      batchIn log' = batchIn log ∧
      ((n ≤ cap ∧ st'.sent = (s, job) :: st.sent ∧ r.2.taskRunning.lookup task = some n) ∨
        (cap < n ∧ st'.sent = st.sent ∧ r.2.taskRunning.lookup task = some (n - 1))) := by
  unfold dispatchClaimed
  rw [checkPreClaimGates_eq h hjob]
  refine .bind (.ret (.bind ((calm_checkPostClaimConcurrency h hjob hn).mono
    fun st₁ log₁ r hr => ?_)))
  obtain ⟨rfl, hlog, hval, hkeep⟩ := hr
  obtain ⟨decision, counts'⟩ := r
  by_cases hle : n ≤ cap
  · rw [decide_eq_true hle] at hval
    obtain rfl : decision = some true := hval
    refine .bind (.operate fun w hw => .bind (.operate fun w' hw' => ?_))
    have hflag : w'.flag = true := hw'.2.1 rfl
    simp only [exec, hflag, if_true]
    refine .ret ⟨?_, .inl ⟨hle, rfl, hkeep⟩⟩
    rw [batchIn_cons, batchIn_cons, batch_of_not_dequeue rfl, batch_of_not_dequeue rfl,
      append_nil, append_nil, hlog]
  · rw [decide_eq_false hle] at hval
    obtain rfl : decision = some false := hval
    refine .bind ((Calm.plain calls_rollback).mono fun st₂ log₂ r hr => .ret ?_)
    refine ⟨hr.2.trans hlog, .inr ⟨by omega, hr.1, ?_⟩⟩
    have hkeep : counts'.taskRunning.lookup task = some n := hkeep
    rw [Sched.GateCounts.release, hjob, Sched.GateCounts.lookup_decrement, if_pos rfl, hkeep]
    rfl

/-! ## The whole batch -/

/-- The first `n - cap` jobs are given back, and the others are sent in order. -/
theorem calm_dispatchEach (h : OnlyCapped (cfg s) task cap) {now : Int} {jobs : List Job}
    (hjobs : ∀ job ∈ jobs, job.taskName = task) (hn : Counts cfg s task counts st.db n) :
    Calm task
      (Sched.dispatchEach (fun job => Sched.dispatchClaimed cfg s job now) jobs counts) st log
      fun st' log' _ => batchIn log' = batchIn log ∧
        st'.sent = ((jobs.drop (n - cap).toNat).map (s, ·)).reverse ++ st.sent := by
  induction jobs generalizing st log counts n with
  | nil => exact .ret ⟨rfl, by simp⟩
  | cons job rest ih =>
    have hjob := hjobs job mem_cons_self
    have hrest := fun j hj => hjobs j (mem_cons_of_mem job hj)
    refine .bind ((calm_dispatchClaimed h hjob hn).mono fun st₁ log₁ r hr => ?_)
    obtain ⟨hlog, ⟨hle, hsent, hkeep⟩ | ⟨hgt, hsent, hkeep⟩⟩ := hr
    · refine (ih hrest (.inl hkeep)).mono fun st₂ log₂ _ hr => ⟨hr.1.trans hlog, ?_⟩
      have hzero : (n - cap).toNat = 0 := by omega
      rw [hr.2, hsent, hzero]
      simp
    · refine (ih hrest (.inl hkeep)).mono fun st₂ log₂ _ hr => ⟨hr.1.trans hlog, ?_⟩
      have hsucc : (n - cap).toNat = (n - 1 - cap).toNat + 1 := by omega
      rw [hr.2, hsent, hsucc, drop_succ_cons]

/-! ## Dequeuing and claiming the batch -/

/-- While the batch is collected: its jobs are running and counted, and nobody has claimed them
or any pending job. -/
structure Collected (cfg : σ → Scheduler) (s : σ) (task : String) (start : Nat)
    (sent : List (σ × Job)) (jobs : List Job) (st : SchedState σ)
    (log : List (SchedEvent σ)) : Prop where
  partition : Partition st.db
  unclaimed : ∀ {k row}, st.db.jobs.find k = some row → row.status = .pending →
    st.db.owner k = none
  running : ∀ job ∈ jobs, st.db.jobs.find job.id = some job ∧ job.status = .running
  free : ∀ job ∈ jobs, st.db.owner job.id = none
  nodup : (jobs.map Job.id).Nodup
  only : ∀ job ∈ jobs, job.taskName = task
  counted : countRunningByTask task (cfg s).namespace_ st.db = start + jobs.length
  logged : batchIn log = jobs
  sent_eq : st.sent = sent

section Collect

variable {start : Nat} {sent : List (σ × Job)} {jobs : List Job}

theorem Collected.quiet (h : Collected cfg s task start sent jobs st log) (op : SchedOp σ)
    (hop : op.isBatchDequeue = false) :
    Collected cfg s task start sent jobs st (⟨op, st, st⟩ :: log) := by
  refine { h with logged := ?_ }
  rw [batchIn_cons, batch_of_not_dequeue hop, append_nil, h.logged]

theorem Collected.dequeue (h : Collected cfg s task start sent jobs st log) {queue : String}
    {now : Int} {max : Nat} {order : DispatchOrder} {batch : List Job} {db' : Db}
    (hr : (StoreOp.dequeueBatch queue now (cfg s).namespace_ max order).exec st.db =
      (.ok batch, db')) (honly : ∀ job ∈ batch, job.taskName = task) :
    Collected cfg s task start sent (jobs ++ batch) { st with db := db' }
      (⟨.store s .loop (.dequeueBatch queue now (cfg s).namespace_ max order), st,
        { st with db := db' }⟩ :: log) := by
  let o := StoreOp.dequeueBatch queue now (cfg s).namespace_ max order
  have hans : (o.exec st.db).1 = .ok batch := by rw [hr]
  obtain rfl : (o.exec st.db).2 = db' := by rw [hr]
  have hgentle : o.gentle = true := rfl
  have hshift : Shift [] [] st.db (o.exec st.db).2 := .gentle hgentle st.db
  obtain ⟨hnd, hout⟩ := dequeueBatch_handedOut hans
  have hfree : ∀ {k}, st.db.owner k = none → (o.exec st.db).2.owner k = none := by
    intro k hk
    obtain hnone | hsame := hshift.owner k
    · exact hnone
    · exact hsame.trans hk
  refine ⟨h.partition.exec (StoreOp.fresh_of_inRound rfl _), ?_, ?_, ?_, ?_, ?_, ?_, ?_, h.sent_eq⟩
  · intro _ _ hrow' hpend'
    obtain hnew | ⟨row, hrow, -, hst⟩ := hshift.origin (by simp) hrow'
    · cases hnew
    · refine hfree (h.unclaimed hrow ?_)
      obtain hst | hst := hst
      · exact hst.symm.trans hpend'
      · exact hst
  · intro job hjob
    obtain hjob | hjob := mem_append.1 hjob
    · obtain ⟨hrow, hrun⟩ := h.running job hjob
      exact ⟨hshift.running (by simp) hrow hrun, hrun⟩
    · exact (hout job hjob).after
  · intro job hjob
    obtain hjob | hjob := mem_append.1 hjob
    · exact hfree (h.free job hjob)
    · obtain ⟨row, hrow, hpend⟩ := (hout job hjob).before
      exact hfree (h.unclaimed hrow hpend)
  · rw [map_append, nodup_append]
    refine ⟨h.nodup, hnd, fun a ha b hb hab => ?_⟩
    -- a job of the batch so far is running, one that is handed out was pending
    obtain ⟨job, hjob, rfl⟩ := mem_map.1 ha
    obtain ⟨job', hjob', rfl⟩ := mem_map.1 hb
    obtain ⟨row, hrow, hpend⟩ := (hout job' hjob').before
    obtain ⟨hlive, hrun⟩ := h.running job hjob
    rw [← hab, hlive] at hrow
    cases hrow
    rw [hrun] at hpend
    cases hpend
  · intro job hjob
    obtain hjob | hjob := mem_append.1 hjob
    · exact h.only job hjob
    · exact honly job hjob
  · have hall : (batch.filter fun j => j.taskName = task) = batch := by
      refine filter_eq_self.2 fun job hjob => ?_
      exact decide_eq_true (honly job hjob)
    rw [(exec_dequeueBatch_walk hans).count, hall, h.counted, length_append, Nat.add_assoc]
  · rw [batchIn_cons, h.logged, SchedEvent.batch]
    simp only [hr, Except.toOption, Option.getD_some]

theorem calm_dequeueBatchFrom (now : Int) (queues : List String) (max : Nat)
    (h : Collected cfg s task start sent jobs st log) :
    Calm task (storage s .loop
        (Ops.dequeueBatchFrom now (cfg s).namespace_ (cfg s).dispatchOrders max queues))
      st log fun st' log' r => ∃ more, r = some (.ok more) ∧
        Collected cfg s task start sent (jobs ++ more) st' log' := by
  induction queues generalizing st log max jobs with
  | nil => cases max <;> exact .ret ⟨[], rfl, by rwa [append_nil]⟩
  | cons queue rest ih =>
    cases max with
    | zero => exact .ret ⟨[], rfl, by rwa [append_nil]⟩
    | succ max =>
      obtain ⟨batch, hr⟩ := h.partition.dequeueBatch_ok queue now (cfg s).namespace_ (max + 1)
        ((cfg s).dispatchOrders queue)
      have hexec : (StoreOp.dequeueBatch queue now (cfg s).namespace_ (max + 1)
          ((cfg s).dispatchOrders queue)).exec st.db = (.ok batch, _) := Prod.ext hr rfl
      refine .storage_bind (.answered hexec fun honly => ⟨.ok batch, rfl, ?_⟩)
      have h₁ := h.dequeue hexec (by simpa [SchedEvent.batch, hr, Except.toOption] using honly)
      refine .storage_bind ((ih (max + 1 - batch.length) h₁).mono fun st₂ log₂ r h₂ => ?_)
      obtain ⟨more, rfl, h₂⟩ := h₂
      rw [append_assoc] at h₂
      exact ⟨.ok more, rfl, .ret ⟨batch ++ more, rfl, h₂⟩⟩

variable {now : Int}

omit [DecidableEq σ] in
theorem codelAdmit_eq (h : OnlyCapped (cfg s) task cap) :
    Sched.codelAdmit cfg s now jobs = .ret (some jobs) := by
  induction jobs with
  | nil => rfl
  | cons job rest ih =>
    unfold codelAdmit
    rw [h.codel job.queue, ih]
    rfl

/-- The scheduler wins the claim of every job of the batch. -/
theorem Collected.claim (h : Collected cfg s task start sent jobs st log) (worker : String)
    (now : Int) :
    ∃ out db', (StoreOp.claimExecutionBatch (jobs.map Job.id) worker now).exec st.db =
        (.ok out, db') ∧ Sched.wonJobs jobs out = jobs ∧
      countRunningByTask task (cfg s).namespace_ db' = start + jobs.length := by
  obtain ⟨out, db', hbody, hlen, hrest, -, hown⟩ :=
    claimExecutionBatch_owner worker now h.nodup st.db
  refine ⟨out, db', writeTransaction_ok _ hbody, ?_, ?_⟩
  · have hlen : out.length = jobs.length := by rw [hlen, length_map]
    have hall : (jobs.zip out).filter Prod.snd = jobs.zip out := by
      refine filter_eq_self.2 fun p hp => ?_
      have hp' : (p.1.id, p.2) ∈ (jobs.map Job.id).zip out := by
        rw [zip_map_left]
        exact mem_map.2 ⟨p, hp, rfl⟩
      obtain ⟨hwon, -⟩ | ⟨-, w, hw, -⟩ := hown _ hp'
      · exact hwon
      · rw [h.free p.1 (of_mem_zip hp).1] at hw
        cases hw
    rw [wonJobs, hall, map_fst_zip (le_of_eq hlen.symm)]
  · rw [hrest, ← h.counted]
    rfl

/-- What a batch dispatch sends: the end of the batch, as far as the cap has free places. -/
structure HandsOutLast (s : σ) (cap : Int) (start : Nat) (sent : List (σ × Job))
    (st : SchedState σ) (log : List (SchedEvent σ)) : Prop where
  nodup : ((batchIn log).map Job.id).Nodup
  sent_eq : st.sent = (((batchIn log).drop
    ((start : Int) + (batchIn log).length - cap).toNat).map (s, ·)).reverse ++ sent

theorem Collected.handsOutLast (h : Collected cfg s task start sent [] st log) :
    HandsOutLast s cap start sent st log where
  nodup := h.logged ▸ h.nodup
  sent_eq := by
    rw [h.logged, h.sent_eq]
    simp

theorem calm_claimAndDispatch (hcap : OnlyCapped (cfg s) task cap)
    (h : Collected cfg s task start sent jobs st log) :
    Calm task (Sched.claimAndDispatch cfg s jobs now) st log
      fun st' log' _ => HandsOutLast s cap start sent st' log' := by
  refine .bind (.operate fun w _ => ?_)
  have h₁ := h.quiet (.nowMillis s) rfl
  obtain ⟨out, db', hexec, hwon, hcount⟩ := h₁.claim (cfg s).claimOwner w.number
  refine .bind (.bind (.answered hexec fun _ => .ret ?_))
  have hlog : batchIn (⟨.store s .loop (.claimExecutionBatch (jobs.map Job.id) (cfg s).claimOwner
      w.number), st, { st with db := db' }⟩ :: ⟨.nowMillis s, st, st⟩ :: log) = jobs := by
    rw [batchIn_cons, batch_of_not_dequeue rfl, append_nil, h₁.logged]
  have hn : Counts cfg s task .empty db' (start + jobs.length) := .inr ⟨rfl, by rw [hcount]; rfl⟩
  have hjobs : ∀ job ∈ wonJobs jobs out, job.taskName = task := by
    rw [hwon]
    exact h.only
  refine (calm_dispatchEach hcap hjobs hn).mono fun st' log' _ hr => ?_
  have hbatch : batchIn log' = jobs := hr.1.trans hlog
  rw [hwon] at hr
  refine ⟨hbatch ▸ h.nodup, ?_⟩
  rw [hbatch, hr.2, ← h.sent_eq]
  rfl

theorem calm_dispatchBatch (hcap : OnlyCapped (cfg s) task cap) {queues : List String}
    {budget : Nat} (h : Collected cfg s task start sent [] st log) :
    Calm task (Sched.dispatchBatch cfg s queues now budget) st log
      fun st' log' _ => HandsOutLast s cap start sent st' log' := by
  refine .bind (.bind ((calm_dequeueBatchFrom now queues budget h).mono fun st₁ log₁ r h₁ =>
    .ret ?_))
  obtain ⟨jobs, rfl, h₁⟩ := h₁
  have h₁ : Collected cfg s task start sent jobs st₁ log₁ := h₁
  refine .bind ?_
  rw [codelAdmit_eq hcap]
  refine .ret ?_
  by_cases hempty : jobs.isEmpty = true
  · obtain rfl := isEmpty_iff.1 hempty
    exact .ret h₁.handsOutLast
  · simp only [hempty]
    exact calm_claimAndDispatch hcap h₁

theorem calm_inFlightRemaining (h : Collected cfg s task start sent jobs st log) :
    Calm task (Sched.inFlightRemaining cfg s) st log
      fun st' log' _ => Collected cfg s task start sent jobs st' log' := by
  unfold inFlightRemaining
  split
  · exact .ret h
  · exact .bind (.operate fun w _ => .ret (h.quiet (.inFlightLen s) rfl))

/-- **A batch dispatch sends the end of its batch.** -/
theorem calm_tryDispatchBatch (hcap : OnlyCapped (cfg s) task cap)
    (h : Collected cfg s task start sent [] st log) :
    Calm task (Sched.tryDispatchBatch cfg s) st log
      fun st' log' _ => HandsOutLast s cap start sent st' log' := by
  refine .bind (.operate fun w _ => ?_)
  have h₁ := h.quiet (.nowMillis s) rfl
  refine .bind (.bind (.operate fun w₂ _ => .ret ?_))
  have h₂ := h₁.quiet (.listPausedQueues s) rfl
  refine .bind (.operate fun w₃ _ => ?_)
  have h₃ := h₂.quiet (.capacity s) rfl
  refine .bind ((calm_inFlightRemaining h₃).mono fun st₄ log₄ remaining h₄ => ?_)
  dsimp only
  split
  · exact .ret h₄.handsOutLast
  · exact calm_dispatchBatch hcap h₄

end Collect

end OneJob

end Batch

/-! ## Results -/

/-- How many more jobs of the task may run under the cap. -/
def freeSlots (scheduler : Scheduler) (task : String) (cap : Int) (db : Db) : Nat :=
  (cap - countRunningByTask task scheduler.namespace_ db).toNat

/-- What is left of a list without repetitions after dropping some of it does not begin it. -/
theorem drop_isPrefix_iff {α β : Type} {f : α → β} {l : List α} (hnd : (l.map f).Nodup) {n : Nat} :
    l.drop n <+: l ↔ n = 0 ∨ l.length ≤ n := by
  constructor
  · intro h
    cases l with
    | nil => exact .inr (Nat.zero_le n)
    | cons a rest =>
      cases n with
      | zero => exact .inl rfl
      | succ n =>
        rw [drop_succ_cons] at h
        rcases hd : rest.drop n with _ | ⟨b, _⟩
        · exact .inr (Nat.succ_le_succ (drop_eq_nil_iff.1 hd))
        · rw [hd] at h
          obtain ⟨rfl, -⟩ := cons_prefix_cons.1 h
          -- the first element would come up again later
          have hmem : b ∈ rest := mem_of_mem_drop (hd ▸ mem_cons_self)
          rw [map_cons, nodup_cons] at hnd
          exact absurd (mem_map_of_mem hmem) hnd.1
  · rintro (rfl | h)
    · exact prefix_refl l
    · rw [drop_eq_nil_of_le h]
      exact nil_prefix

/-- **A capped batch.** When nothing else goes wrong, a batch dispatch sends as many jobs as the
cap has free slots, or the whole batch if that is smaller. They are the first of the batch exactly
when the cap has no free slot or refuses none. -/
theorem batch_prefix_iff {σ : Type} [DecidableEq σ] {cfg : σ → Scheduler} {s : σ} {task : String}
    {cap : Int} (hcap : Batch.OnlyCapped (cfg s) task cap) {st st' : SchedState σ}
    {log : List (SchedEvent σ)} (hp : Partition st.db)
    (hfree : ∀ {k row}, st.db.jobs.find k = some row → row.status = .pending →
      st.db.owner k = none)
    (h : (Sched.tryDispatchBatch cfg s).Returns (schedMachine σ).logged (Batch.Smooth task)
      (st, []) () (st', log)) :
    ∃ handed, st'.sent = (handed.map (s, ·)).reverse ++ st.sent ∧
      ((handed <+: batchIn log ∧
          handed.length = min (batchIn log).length (freeSlots (cfg s) task cap st.db)) ↔
        freeSlots (cfg s) task cap st.db = 0 ∨
          (batchIn log).length ≤ freeSlots (cfg s) task cap st.db) := by
  let start := countRunningByTask task (cfg s).namespace_ st.db
  have hstart : Batch.Collected cfg s task start st.sent [] st [] := by
    refine ⟨hp, hfree, ?_, ?_, nodup_nil, ?_, rfl, rfl, rfl⟩
    all_goals exact fun _ h => by cases h
  have hend : Batch.HandsOutLast s cap start st.sent st' log :=
    Prog.Ensures.returns (Batch.calm_tryDispatchBatch hcap hstart) h
  refine ⟨_, hend.sent_eq, ?_⟩
  rw [drop_isPrefix_iff hend.nodup, length_drop]
  have hslots : freeSlots (cfg s) task cap st.db = (cap - start).toNat := rfl
  rw [hslots]
  omega

/-- A scheduler of batches of two jobs, of whose task `cap` jobs may run. -/
def cappedScheduler (cap : Int) (_ : Unit) : Scheduler :=
  { batchScheduler () with
    taskConfigs := fun _ => some ⟨false, OnExcess.defer, false, false, some cap, none⟩ }

theorem cappedScheduler_onlyCapped {cap : Int} :
    Batch.OnlyCapped (cappedScheduler cap ()) "t" cap where
  capped := rfl
  task c h := by
    cases h
    exact ⟨rfl, rfl, rfl⟩
  queue _ _ h := by cases h
  codel _ := rfl

/-- One free slot, two jobs waiting: the second of the batch is sent, not the first. -/
theorem batch_sends_last :
    ∃ st' log, (Sched.tryDispatchBatch (cappedScheduler 1) ()).Returns (schedMachine Unit).logged
        (Batch.Smooth "t") (SchedState.init twoJobs, []) () (st', log) ∧
      freeSlots (cappedScheduler 1 ()) "t" 1 twoJobs = 1 ∧
      (batchIn log).map Job.id = ["a", "b"] ∧ st'.sent.map (fun e => e.2.id) = ["b"] := by
  obtain ⟨⟨⟩, ⟨st', log⟩, hrun, hP⟩ := Prog.exists_returns (M := (schedMachine Unit).logged)
    (Batch.Smooth "t") (tryDispatchBatch (cappedScheduler 1) ()) (.init twoJobs, [])
    (roundInputs (.replicate 30 false))
    (fun _ (ls : SchedState Unit × List (SchedEvent Unit)) =>
      (batchIn ls.2).map Job.id = ["a", "b"] ∧ ls.1.sent.map (fun e => e.2.id) = ["b"])
    (by decide +kernel)
  exact ⟨st', log, hrun, by decide +kernel, hP⟩

/-- Two free slots: both jobs are sent, in order. -/
theorem batch_prefix_two_slots :
    ∃ st' log, (Sched.tryDispatchBatch (cappedScheduler 2) ()).Returns (schedMachine Unit).logged
        (Batch.Smooth "t") (SchedState.init twoJobs, []) () (st', log) ∧
      ∃ handed, st'.sent = (handed.map ((), ·)).reverse ++ [] ∧
        handed <+: batchIn log ∧ handed.length = 2 := by
  obtain ⟨⟨⟩, ⟨st', log⟩, hrun, hP⟩ := Prog.exists_returns (M := (schedMachine Unit).logged)
    (Batch.Smooth "t") (tryDispatchBatch (cappedScheduler 2) ()) (.init twoJobs, [])
    (roundInputs (.replicate 30 false))
    (fun _ (ls : SchedState Unit × List (SchedEvent Unit)) => (batchIn ls.2).length = 2)
    (by decide +kernel)
  have hslots : freeSlots (cappedScheduler 2 ()) "t" 2 twoJobs = 2 := by decide +kernel
  obtain ⟨handed, hsent, hiff⟩ := batch_prefix_iff cappedScheduler_onlyCapped
    twoJobs_dispatchable.partition (fun _ _ => rfl) hrun
  have hlen : (batchIn log).length = 2 := hP
  have hiff : (handed <+: batchIn log ∧ handed.length = min (batchIn log).length 2) ↔
      2 = 0 ∨ (batchIn log).length ≤ 2 := hslots ▸ hiff
  rw [hlen] at hiff
  exact ⟨st', log, hrun, handed, hsent, hiff.2 (.inr le_rfl)⟩

end Flexiq
