import Flexiq.RoundSteps

/-!
# A dispatch round strands no job

A dequeue makes its jobs running before shedding, gates, claim and caps have had their say, so a
round that ends early leaves running jobs behind that no worker has. Here the programs of a round
are followed to their end: **if the only calls that fail are claims, or a dequeue of a round that
holds nothing, every dequeued job is settled** (`no_job_stranded`). The claim paths are the ones
the poller guards: a failed batch claim falls back to one claim a job, and a failed claim rolls
its job back.

Every other call is not guarded. A failing gate, count, rollback or dead-lettering ends the
dispatch of its job, and in the shedding pass that of the whole batch, with the jobs left running:
`no_job_stranded_broken` is a batch of two whose first job cannot be dead-lettered.
-/

namespace Flexiq

open SchedOp (exec)

open List Sched

namespace Round

section

variable {σ : Type} [DecidableEq σ] {cfg : σ → Scheduler} {s : σ} {st : SchedState σ}
  {log : List (SchedEvent σ)}
variable {counts : Sched.GateCounts} {now : Int} {jobs : List Job} {queues : List String}

/-- The invariant of a round of scheduler `s`. -/
abbrev OpenFor (cfg : σ → Scheduler) (s : σ) : List (Job × Bool) → SchedState σ →
    List (SchedEvent σ) → Prop :=
  Open s (cfg s).claimOwner (cfg s).namespace_

/-! ## Gates -/

theorem asks_tryAcquire {key : String} :
    Asks (ask (.tryAcquire s key)) fun r => r.isSome = true := by
  refine .question (fun _ _ => rfl) fun w st log hw => ?_
  have hfault : ¬ w.fault = true := fun hf => by cases hw.1 hf
  simp [exec, hfault]

theorem asks_breakerAllows {taskName : String} :
    Asks (ask (.breakerAllows s taskName)) fun r => r.isSome = true := by
  refine .question (fun _ _ => rfl) fun w st log hw => ?_
  have hfault : ¬ w.fault = true := fun hf => by cases hw.1 hf
  simp [exec, hfault]

variable {job : Job} {config : TaskConfig}

theorem asks_queueGate {onExcess : OnExcess} :
    Asks (Sched.queueGate cfg s job onExcess) fun r => r.isSome = true := by
  unfold queueGate
  split
  · refine asks_tryAcquire.bind fun r hr => ?_
    rcases r with _ | _ | _
    · cases hr
    · exact .ret rfl
    · exact .ret rfl
  · exact .ret rfl

theorem asks_breakerGate : Asks (Sched.breakerGate s job config) fun r => r.isSome = true := by
  unfold breakerGate
  split
  · refine asks_breakerAllows.bind fun r hr => ?_
    rcases r with _ | _ | _
    · cases hr
    · exact .ret rfl
    · exact .ret rfl
  · exact .ret rfl

theorem asks_taskGate : Asks (Sched.taskGate s job config) fun r => r.isSome = true := by
  unfold taskGate
  split
  · refine asks_tryAcquire.bind fun r hr => ?_
    rcases r with _ | _ | _
    · cases hr
    · exact .ret rfl
    · exact .ret rfl
  · exact .ret rfl

theorem asks_checkPreClaimGates :
    Asks (Sched.checkPreClaimGates cfg s job) fun r => r.isSome = true := by
  refine asks_queueGate.bind fun r hr => ?_
  split
  · split
    · exact .ret rfl
    · refine asks_breakerGate.bind fun r hr => ?_
      split
      · exact asks_taskGate
      · exact .ret hr
  · exact .ret hr

theorem asks_cap {read : SchedProg σ (Option Nat)} (h : Asks read fun r => r.isSome = true)
    {limit cached : Option Int} {keep : Int → Sched.GateCounts} :
    Asks (Sched.cap limit (Sched.cachedRunning cached read keep counts) counts)
      fun r => r.1.isSome = true := by
  unfold cap cachedRunning
  split
  · exact .ret rfl
  · refine .bind (R := fun r => r.1.isSome = true) ?_ fun r hr => ?_
    · split
      · exact .ret rfl
      · refine h.bind fun r hr => ?_
        rcases r with _ | _
        · cases hr
        · exact .ret rfl
    · obtain ⟨_, _⟩ := r
      exact .ret (by simpa using hr)

theorem asks_bulkhead : Asks (Sched.bulkhead cfg s job) fun _ => True := by
  unfold bulkhead
  split
  · exact .ret trivial
  · refine .bind (R := fun _ => True) ?_ fun _ _ => .ret trivial
    exact .question (fun _ _ => rfl) fun _ _ _ _ => trivial

theorem asks_checkPostClaimConcurrency :
    Asks (Sched.checkPostClaimConcurrency cfg s job counts) fun r => r.1.isSome = true := by
  refine .bind (p := queueCap cfg s job counts) (R := fun r => r.1.isSome = true) ?_
    fun r hr => ?_
  · rw [queueCap_eq_cap]
    exact asks_cap (.read (fun _ => rfl) fun _ => rfl)
  split
  · refine .bind (p := taskCap cfg s job _) (R := fun r => r.1.isSome = true) ?_
      fun r hr => ?_
    · rw [taskCap_eq_cap]
      exact asks_cap (.read (fun _ => rfl) fun _ => rfl)
    split
    · exact asks_bulkhead.bind fun _ _ => .ret rfl
    · exact .ret hr
  · exact .ret hr

/-! ## Giving jobs back -/

section OneJob

variable {xs ys : List (Job × Bool)} {job : Job} {b : Bool}

section

variable (h : OpenFor cfg s (xs ++ (job, b) :: ys) st log)
include h

theorem run_completeExecution :
    Run (storage s .loop (Ops.completeExecution job.id (cfg s).namespace_)) st log
      fun st' log' r => r = some () ∧ OpenFor cfg s (xs ++ (job, false) :: ys) st' log' := by
  have hheld := h.head_held
  unfold Ops.completeExecution
  split
  · exact .answered rfl rfl ⟨rfl, h.dropClaim⟩
  · next ns hns =>
    -- the job is live in the scheduler's namespace, so the lookup finds it
    have hget : getJob job.id (some ns) st.db = some job := by
      have hin : jobInNamespace job.namespace_ (some ns) = true := by
        rw [hheld.namespace_eq, hns]
        exact jobInNamespace_self _
      rw [getJob, show st.db.jobs.find job.id = some job from hheld.live]
      exact if_pos hin
    refine .storage_bind (.answered rfl (Prod.ext hget rfl) ?_)
    exact .answered rfl rfl ⟨rfl, (h.quiet _).dropClaim⟩

theorem run_rollbackClaimAndReschedule {nextAt : Int} :
    Run (Sched.rollbackClaimAndReschedule cfg s job.id nextAt) st log
      fun st' log' r => r = some () ∧ OpenFor cfg s (xs ++ ys) st' log' := by
  refine .bind ((run_completeExecution h).mono fun st₁ log₁ r hr => ?_)
  obtain ⟨rfl, h₁⟩ := hr
  obtain ⟨_, hexec, h₂⟩ := h₁.putBack nextAt
  exact .bind (.answered rfl hexec (.ret ⟨rfl, h₂⟩))

theorem run_rollback {delayMs : Int} :
    Run (Sched.rollback cfg s job now delayMs) st log
      fun st' log' _ => OpenFor cfg s (xs ++ ys) st' log' := by
  refine .bind (.question (fun _ _ => rfl) fun w _ => ?_)
  have h₁ := h.quiet (.desyncDelay s delayMs)
  refine .bind ((run_rollbackClaimAndReschedule h₁).mono fun st₁ log₁ r hr => ?_)
  obtain ⟨rfl, h₂⟩ := hr
  exact .ret h₂

end

end OneJob

/-! ## Dead letters -/

theorem addUnvisited_cons (root : JobId) (queue new : List JobId) :
    ∃ tail, Ops.addUnvisited (root :: queue) new = root :: tail ∧
      ∀ k ∈ tail, k ∈ queue ∨ k ∈ new := by
  induction new generalizing queue with
  | nil => exact ⟨queue, rfl, fun k hk => .inl hk⟩
  | cons id rest ih =>
    unfold Ops.addUnvisited
    split
    · obtain ⟨tail, htail, hmem⟩ := ih queue
      exact ⟨tail, htail, fun k hk => (hmem k hk).imp_right (mem_cons_of_mem _)⟩
    · obtain ⟨tail, htail, hmem⟩ := ih (queue ++ [id])
      refine ⟨tail, htail, fun k hk => ?_⟩
      obtain hk | hk := hmem k hk
      · obtain hk | hk := mem_append.1 hk
        · exact .inl hk
        · exact .inr (mem_cons.2 (.inl (mem_singleton.1 hk)))
      · exact .inr (mem_cons_of_mem _ hk)

/-- The members of a breadth-first queue from a blocking root: the root, and jobs that wait. -/
def Blocked (db : Db) (root : JobId) (queue : List JobId) : Prop :=
  ∃ tail, queue = root :: tail ∧ ∀ k ∈ tail, db.Waits k

variable {root : JobId} {fuel : Nat}

/-- The search from a blocking root only finds jobs that wait. -/
theorem run_collectDependents (hs : st.db.Sequenced) (hroot : st.db.Blocks root) {idx : Nat}
    {queue : List JobId} (hq : Blocked st.db root queue) :
    Run (storage s .loop (Ops.collectDependents fuel idx queue)) st log
      fun st' log' r => st' = st ∧ Asked st log log' ∧
        (r = some none ∨ ∃ q, r = some (some q) ∧ Blocked st.db root q) := by
  induction fuel generalizing idx queue log with
  | zero =>
    refine .ret ⟨rfl, .refl, ?_⟩
    split
    · exact .inr ⟨queue, rfl, hq⟩
    · exact .inl rfl
  | succ fuel ih =>
    unfold Ops.collectDependents
    split
    · exact .ret ⟨rfl, .refl, .inr ⟨queue, rfl, hq⟩⟩
    · next current hcurrent =>
      refine .storage_bind (.answered rfl rfl ?_)
      have hblocks : st.db.Blocks current := by
        obtain ⟨tail, rfl, htail⟩ := hq
        obtain rfl | hmem := mem_cons.1 (mem_of_getElem? hcurrent)
        · exact hroot
        · obtain ⟨e, he, rfl, hb⟩ := htail current hmem
          exact hs.blocked e he hb
      have hq' : Blocked st.db root (Ops.addUnvisited queue (dependentIds st.db current)) := by
        obtain ⟨tail, rfl, htail⟩ := hq
        obtain ⟨tail', htail', hmem⟩ := addUnvisited_cons root tail (dependentIds st.db current)
        refine ⟨tail', htail', fun k hk => ?_⟩
        obtain hold | hnew := hmem k hk
        · exact htail k hold
        · obtain ⟨e, he, rfl⟩ := mem_map.1 hnew
          obtain ⟨hedge, hdep⟩ := mem_filter.1 he
          have hdep : e.dependsOn = current := of_decide_eq_true hdep
          exact ⟨e, hedge, rfl, hdep.symm ▸ hblocks⟩
      refine (ih hq').mono fun st' log' r h => ?_
      obtain ⟨rfl, hasked, hr⟩ := h
      exact ⟨rfl, (Asked.refl.step _).trans hasked, hr⟩

/-- The cascade from a blocking job spares the jobs of the round. -/
theorem run_cascadeCancel {todo : List (Job × Bool)} (h : OpenFor cfg s todo st log)
    (hroot : st.db.Blocks root) {reason : String} {ns : Option String} :
    Run (storage s .loop (Ops.cascadeCancel root reason ns now fuel)) st log
      fun st' log' r => r = some (.ok ()) ∧ OpenFor cfg s todo st' log' := by
  refine .storage_bind ((run_collectDependents h.sequenced hroot
    ⟨[], rfl, nofun⟩).mono fun st₁ log₁ r hr => ?_)
  obtain ⟨rfl, hasked, hr⟩ := hr
  have h₁ := h.asked hasked
  obtain rfl | ⟨_, rfl, tail, rfl, htail⟩ := hr
  · exact .ret ⟨rfl, h₁⟩
  by_cases hempty : tail.isEmpty = true
  · simp only [tail_cons, hempty, if_true]
    exact .ret ⟨rfl, h₁⟩
  · simp only [tail_cons, hempty]
    obtain ⟨_, hexec, h₂⟩ := h₁.cascade htail
    exact .answered rfl hexec ⟨rfl, h₂⟩

section OneJob

variable {xs ys : List (Job × Bool)} {job : Job} {b : Bool}

/-- **Dead-lettering a job settles it**, and goes through. -/
theorem run_deadLetter (h : OpenFor cfg s (xs ++ (job, b) :: ys) st log) {error : String}
    {metadata : Option String} {shed : Bool} :
    Run (Sched.deadLetter cfg s .loop job error metadata shed) st log
      fun st' log' r => r = some () ∧ OpenFor cfg s (xs ++ ys) st' log' := by
  refine .bind (.question (fun _ _ => rfl) fun w hw => ?_)
  have hfresh : st.db.deadLetter.find w.text = none := hw.2 rfl
  refine .bind (.question (fun _ _ => rfl) fun w' _ => ?_)
  have h₁ := (h.quiet (.newUuid s)).quiet (.nowMillis s)
  obtain ⟨_, hexec, hblocks, h₂⟩ := h₁.bury hfresh error metadata
    ((cfg s).codec.dlqRetryCount job.metadata) shed w'.number
  refine .bind (.storage_bind (.answered rfl hexec ?_))
  refine (run_cascadeCancel h₂ hblocks).mono fun st₃ log₃ r hr => ?_
  obtain ⟨rfl, h₃⟩ := hr
  exact .ret ⟨rfl, h₃⟩

theorem run_shedRateLimited (h : OpenFor cfg s (xs ++ (job, b) :: ys) st log) {reason : String}
    {claimed : Bool} :
    Run (Sched.shedRateLimited cfg s job reason claimed) st log
      fun st' log' r => r = some () ∧ OpenFor cfg s (xs ++ ys) st' log' := by
  unfold shedRateLimited
  split
  · refine .bind ((run_completeExecution h).mono fun st₁ log₁ r hr => ?_)
    exact run_deadLetter hr.2
  · exact run_deadLetter h

/-! ## Dispatching one job -/

theorem run_finishDispatch (h : OpenFor cfg s (xs ++ (job, true) :: ys) st log) :
    Run (Sched.finishDispatch cfg s job now counts) st log
      fun st' log' _ => OpenFor cfg s (xs ++ ys) st' log' := by
  refine .asks asks_checkPostClaimConcurrency fun r log₁ hr hasked => ?_
  have h₁ := h.asked hasked
  obtain ⟨decision, _⟩ := r
  rcases decision with _ | _ | _
  · cases hr
  · exact .bind ((run_rollback h₁).mono fun st₂ log₂ r h₂ => .ret h₂)
  · refine .bind (.operate fun w _ => ?_)
    -- the record is written before the job is offered to the worker
    let record : DispatchRecord := ⟨job.taskName, (cfg s).claimOwner, job.retryCount⟩
    have h₂ := h₁.record (.trackInFlight s job.id record)
      (f := (st.inFlight s).insert job.id record)
      fun k hk => (InFlight.lookup_insert _ _ _ _).trans (if_neg hk)
    refine .bind (.operate fun w' _ => ?_)
    by_cases hsent : w'.flag = true
    · have hrec : (((Function.update st.inFlight s ((st.inFlight s).insert job.id record)) s).lookup
          job.id).isSome = true := by
        rw [Function.update_self, InFlight.lookup_insert, if_pos rfl]
        rfl
      simp only [exec, hsent, if_true]
      exact .ret (h₂.send hrec)
    · simp only [exec, hsent]
      have h₃ := h₂.quiet (.trySend s job)
      refine .bind (.operate fun w'' _ => ?_)
      have h₄ := h₃.record (.untrackInFlight s job.id)
        (f := ((Function.update st.inFlight s ((st.inFlight s).insert job.id record))
          s).remove job.id)
        fun k hk => (InFlight.lookup_remove _ _ _).trans (if_neg hk)
      exact .bind ((run_rollback h₄).mono fun st₅ log₅ r h₅ => .ret h₅)

theorem run_dispatchClaimed (h : OpenFor cfg s (xs ++ (job, true) :: ys) st log) :
    Run (Sched.dispatchClaimed cfg s job now counts) st log
      fun st' log' _ => OpenFor cfg s (xs ++ ys) st' log' := by
  refine .asks asks_checkPreClaimGates fun r log₁ hr hasked => ?_
  have h₁ := h.asked hasked
  rcases r with _ | _ | _ | _
  · cases hr
  · exact run_finishDispatch h₁
  · exact .bind ((run_rollback h₁).mono fun st₂ log₂ r h₂ => .ret h₂)
  · refine .bind ((run_shedRateLimited h₁).mono fun st₂ log₂ r hr => ?_)
    obtain ⟨rfl, h₂⟩ := hr
    exact .ret h₂

theorem run_claimForDispatch (h : OpenFor cfg s (xs ++ (job, false) :: ys) st log) :
    Run (Sched.claimForDispatch cfg s job) st log fun st' log' r =>
      match r with
      | .claimed => OpenFor cfg s (xs ++ (job, true) :: ys) st' log'
      | .alreadyClaimed => OpenFor cfg s (xs ++ ys) st' log'
      | .errored => OpenFor cfg s (xs ++ (job, false) :: ys) st' log' := by
  refine .bind (.question (fun _ _ => rfl) fun w _ => ?_)
  have h₁ := h.quiet (.nowMillis s)
  obtain ⟨won, _, hexec, h₂⟩ := h₁.claim w.number
  refine .bind (.bind (.attempted hexec (fun _ => .ret ?_) (.ret ?_)))
  · exact .ret (h₁.quiet _)
  · cases won with
    | true => exact .ret h₂
    | false => exact .ret h₂

theorem run_gateAndDispatch (h : OpenFor cfg s (xs ++ (job, false) :: ys) st log) :
    Run (Sched.gateAndDispatch cfg s job now counts) st log
      fun st' log' _ => OpenFor cfg s (xs ++ ys) st' log' := by
  refine .asks asks_checkPreClaimGates fun r log₁ hr hasked => ?_
  have h₁ := h.asked hasked
  rcases r with _ | _ | delayMs | _
  · cases hr
  · refine .bind ((run_claimForDispatch h₁).mono fun st₂ log₂ outcome h₂ => ?_)
    cases outcome with
    | claimed => exact run_finishDispatch h₂
    | alreadyClaimed => exact .ret h₂
    | errored => exact .bind ((run_rollback h₂).mono fun st₃ log₃ r h₃ => .ret h₃)
  · refine .bind (.question (fun _ _ => rfl) fun w _ => ?_)
    obtain ⟨_, hexec, h₂⟩ := (h₁.quiet (.desyncDelay s delayMs)).putBack (now + w.number)
    exact .bind (.bind (.answered rfl hexec (.ret (.ret h₂))))
  · refine .bind ((run_shedRateLimited h₁).mono fun st₂ log₂ r hr => ?_)
    obtain ⟨rfl, h₂⟩ := hr
    exact .ret h₂

end OneJob

/-! ## Batches -/

/-- Shedding settles the jobs it drops, and keeps the others on the list. -/
theorem run_codelAdmit {xs : List (Job × Bool)} (now : Int) (jobs : List Job)
    (h : OpenFor cfg s (xs ++ jobs.map (·, false)) st log) :
    Run (Sched.codelAdmit cfg s now jobs) st log fun st' log' r =>
      ∃ kept, r = some kept ∧ kept.Sublist jobs ∧ OpenFor cfg s (xs ++ kept.map (·, false)) st'
        log' := by
  induction jobs generalizing xs st log with
  | nil => exact .ret ⟨[], rfl, .refl _, h⟩
  | cons job rest ih =>
    -- a job that is kept waits on the list while the rest is looked at
    have hkeep : ∀ {st log}, OpenFor cfg s (xs ++ (job :: rest).map (·, false)) st log →
        ∀ k : Option (List Job) → SchedProg σ (Option (List Job)),
          (∀ kept, k (some kept) = pure (some (job :: kept))) →
          Run (codelAdmit cfg s now rest >>= k) st log fun st' log' r =>
            ∃ kept, r = some kept ∧ kept.Sublist (job :: rest) ∧
              OpenFor cfg s (xs ++ kept.map (·, false)) st' log' := by
      intro st log h _ hsome
      have h' : OpenFor cfg s ((xs ++ [(job, false)]) ++ rest.map (·, false)) st log := by
        simpa using h
      refine .bind ((ih h').mono fun st₁ log₁ r hr => ?_)
      obtain ⟨kept, rfl, hsub, h₁⟩ := hr
      rw [hsome]
      exact .ret ⟨job :: kept, rfl, hsub.cons_cons job, by simpa using h₁⟩
    unfold codelAdmit
    split
    · exact hkeep h _ fun _ => rfl
    · refine .bind (.question (fun _ _ => rfl) fun w _ => ?_)
      have h₁ := h.quiet (.codelShouldDrop s job.queue
        (max (saturatingAdd now (-job.scheduledAt)) 0) now)
      cases hdrop : w.flag with
      | true =>
        simp only [exec, hdrop, if_true]
        refine .bind ((run_deadLetter h₁).mono fun st₂ log₂ r hr => ?_)
        obtain ⟨rfl, h₂⟩ := hr
        refine (ih h₂).mono fun st₃ log₃ r hr => ?_
        obtain ⟨kept, rfl, hsub, h₃⟩ := hr
        exact ⟨kept, rfl, hsub.cons job, h₃⟩
      | false =>
        simp only [exec, hdrop]
        exact hkeep h₁ _ fun _ => rfl

/-- A dispatch that settles its job, over a list of jobs. -/
theorem run_dispatchEach {b : Bool}
    {dispatch : Job → Sched.GateCounts → SchedProg σ (Option Bool × Sched.GateCounts)}
    (hdispatch : ∀ {job ys counts st log}, OpenFor cfg s ((job, b) :: ys) st log →
      Run (dispatch job counts) st log fun st' log' _ => OpenFor cfg s ys st' log')
    (jobs : List Job) (counts : Sched.GateCounts) (h : OpenFor cfg s (jobs.map (·, b)) st log) :
    Run (Sched.dispatchEach dispatch jobs counts) st log
      fun st' log' _ => OpenFor cfg s [] st' log' := by
  induction jobs generalizing counts st log with
  | nil => exact .ret h
  | cons job rest ih =>
    refine .bind ((hdispatch h).mono fun st₁ log₁ r h₁ => ?_)
    obtain ⟨r, counts⟩ := r
    exact ih counts h₁

theorem run_claimAndDispatch (h : OpenFor cfg s (jobs.map (·, false)) st log) :
    Run (Sched.claimAndDispatch cfg s jobs now) st log
      fun st' log' _ => OpenFor cfg s [] st' log' := by
  refine .bind (.question (fun _ _ => rfl) fun w _ => ?_)
  have h₁ := h.quiet (.nowMillis s)
  obtain ⟨_, _, hexec, h₂⟩ := h₁.claimBatch w.number
  refine .bind (.bind (.attempted hexec (fun _ => .ret ?_) (.ret ?_)))
  · refine run_dispatchEach (fun h => ?_) jobs _ (h₁.quiet _)
    exact run_gateAndDispatch (show OpenFor cfg s ([] ++ _) _ _ from h)
  · refine run_dispatchEach (fun h => ?_) _ _ h₂
    exact run_dispatchClaimed (show OpenFor cfg s ([] ++ _) _ _ from h)

/-! ## Dequeue -/

/-- The invariant while scheduler `s` dequeues. -/
abbrev GatheredFor (cfg : σ → Scheduler) (s : σ) : List Job → SchedState σ →
    List (SchedEvent σ) → Prop :=
  Gathered s (cfg s).claimOwner (cfg s).namespace_

theorem isOpen_of_idle (h : GatheredFor cfg s jobs st log) (hidle : (dequeuedIn log).isEmpty = true)
    (op : SchedOp σ) : OpenFor cfg s [] st (⟨op, st, st⟩ :: log) := by
  have hnil : jobs = [] := by
    cases jobs with
    | nil => rfl
    | cons job =>
      have hmem := h.isOpen.known (job, false) (by simp)
      rw [isEmpty_iff.1 hidle] at hmem
      cases hmem
  subst hnil
  exact h.isOpen.quiet op

theorem run_dequeueFrom (h : GatheredFor cfg s [] st log) :
    Run (storage s .loop (Ops.dequeueFrom now (cfg s).namespace_ (cfg s).dispatchOrders queues))
      st log fun st' log' r =>
        match r with
        | some (.ok (some job)) => OpenFor cfg s [(job, false)] st' log'
        | _ => OpenFor cfg s [] st' log' := by
  induction queues generalizing st log with
  | nil => exact .ret h.isOpen
  | cons queue rest ih =>
    let o := StoreOp.dequeue queue now (cfg s).namespace_ ((cfg s).dispatchOrders queue)
    have hp := h.isOpen.partition
    have hgentle : o.gentle = true := rfl
    have hshift : Shift [] [] st.db (o.exec st.db).2 := .gentle hgentle st.db
    obtain ⟨r, hr⟩ := hp.dequeue_ok queue now (cfg s).namespace_ ((cfg s).dispatchOrders queue)
    have h₁ := h.dequeue (.store s .loop o) r.toList (.exec rfl _)
      (hp.exec (StoreOp.fresh_of_inRound rfl _)) hshift (by cases r <;> simp)
      (fun job hjob => dequeue_handedOut (hr.trans (by simp_all)))
      ((exec_dequeue_walk hr).starts hp h.isOpen.sequenced)
    refine .storage_bind (.attempted (Prod.ext hr rfl) (fun _ => h.isOpen.quiet _) ?_)
    cases r with
    | some => exact .ret h₁.isOpen
    | none => exact ih h₁

/-- Dequeuing a batch: the round holds all it dequeued, before and now; where it failed, it had
dequeued nothing. -/
theorem run_dequeueBatchFrom (now : Int) (queues : List String) (max : Nat)
    (h : GatheredFor cfg s jobs st log) :
    Run (storage s .loop
        (Ops.dequeueBatchFrom now (cfg s).namespace_ (cfg s).dispatchOrders max queues))
      st log fun st' log' r =>
        match r with
        | some (.ok more) => GatheredFor cfg s (jobs ++ more) st' log'
        | _ => OpenFor cfg s [] st' log' := by
  induction queues generalizing st log max jobs with
  | nil =>
    have h' : GatheredFor cfg s (jobs ++ []) st log := by rwa [append_nil]
    cases max <;> exact .ret h'
  | cons queue rest ih =>
    cases max with
    | zero =>
      have h' : GatheredFor cfg s (jobs ++ []) st log := by rwa [append_nil]
      exact .ret h'
    | succ max =>
      let o := StoreOp.dequeueBatch queue now (cfg s).namespace_ (max + 1)
        ((cfg s).dispatchOrders queue)
      have hp := h.isOpen.partition
      have hgentle : o.gentle = true := rfl
      have hshift : Shift [] [] st.db (o.exec st.db).2 := .gentle hgentle st.db
      obtain ⟨batch, hr⟩ := hp.dequeueBatch_ok queue now (cfg s).namespace_ (max + 1)
        ((cfg s).dispatchOrders queue)
      obtain ⟨hnd, hout⟩ := dequeueBatch_handedOut hr
      have h₁ := h.dequeue (.store s .loop o) batch (.exec rfl _)
        (hp.exec (StoreOp.fresh_of_inRound rfl _)) hshift hnd hout
        ((exec_dequeueBatch_walk hr).starts hp h.isOpen.sequenced)
      refine .storage_bind (.attempted (Prod.ext hr rfl) (fun hidle => isOpen_of_idle h hidle _) ?_)
      refine .storage_bind ((ih (max + 1 - batch.length) h₁).mono fun st₂ log₂ r h₂ => ?_)
      rcases r with _ | _ | more
      · exact h₂
      · exact .ret h₂
      · have h₂ : GatheredFor cfg s (jobs ++ batch ++ more) st₂ log₂ := h₂
        rw [append_assoc] at h₂
        exact .ret h₂

/-! ## Rounds -/

theorem run_dispatchOne (h : GatheredFor cfg s [] st log) :
    Run (Sched.dispatchOne cfg s queues now) st log
      fun st' log' _ => OpenFor cfg s [] st' log' := by
  refine .bind (.bind ((run_dequeueFrom h).mono fun st₁ log₁ r h₁ => .ret ?_))
  rcases r with _ | _ | _ | job
  · exact .ret h₁
  · exact .ret h₁
  · exact .ret h₁
  · have hjob : OpenFor cfg s ([] ++ [job].map (·, false)) st₁ log₁ := h₁
    refine .bind ((run_codelAdmit now [job] hjob).mono fun st₂ log₂ r hr => ?_)
    obtain ⟨kept, rfl, hsub, h₂⟩ := hr
    cases kept with
    | nil => exact .ret h₂
    | cons first rest =>
      obtain rfl : rest = [] := by
        have hlen := hsub.length_le
        simpa using hlen
      have hfirst : OpenFor cfg s ([] ++ (first, false) :: []) st₂ log₂ := h₂
      exact .bind ((run_gateAndDispatch hfirst).mono fun st₃ log₃ r h₃ => .ret h₃)

theorem run_dispatchBatch {budget : Nat} (h : GatheredFor cfg s [] st log) :
    Run (Sched.dispatchBatch cfg s queues now budget) st log
      fun st' log' _ => OpenFor cfg s [] st' log' := by
  refine .bind (.bind ((run_dequeueBatchFrom now queues budget h).mono
    fun st₁ log₁ r h₁ => .ret ?_))
  rcases r with _ | _ | jobs
  · exact .ret h₁
  · exact .ret h₁
  · have hjobs : OpenFor cfg s ([] ++ jobs.map (·, false)) st₁ log₁ := h₁.isOpen
    refine .bind ((run_codelAdmit now jobs hjobs).mono fun st₂ log₂ r hr => ?_)
    obtain ⟨kept, rfl, -, h₂⟩ := hr
    have h₂ : OpenFor cfg s (kept.map (·, false)) st₂ log₂ := h₂
    by_cases hempty : kept.isEmpty = true
    · obtain rfl := isEmpty_iff.1 hempty
      exact .ret h₂
    · simp only [hempty]
      exact run_claimAndDispatch h₂

theorem asks_activeQueues : Asks (Sched.activeQueues cfg s) fun _ => True := by
  refine .bind (R := fun _ => True) ?_ fun _ _ => .ret trivial
  exact .question (fun _ _ => rfl) fun _ _ _ _ => trivial

theorem asks_inFlightRemaining : Asks (Sched.inFlightRemaining cfg s) fun _ => True := by
  unfold inFlightRemaining
  split
  · exact .ret trivial
  · refine .bind (R := fun _ => True) ?_ fun _ _ => .ret trivial
    exact .question (fun _ _ => rfl) fun _ _ _ _ => trivial

/-- A round for a single job ends with nothing left on its list. -/
theorem run_tryDispatch (h : GatheredFor cfg s [] st log) :
    Run (Sched.tryDispatch cfg s) st log fun st' log' _ => OpenFor cfg s [] st' log' := by
  refine .bind (.question (fun _ _ => rfl) fun w _ => ?_)
  have h₁ := h.quiet (.nowMillis s)
  refine .asks asks_activeQueues fun queues log₂ _ hasked => ?_
  have h₂ := h₁.asked hasked
  refine .asks asks_inFlightRemaining fun remaining log₃ _ hasked => ?_
  have h₃ := h₂.asked hasked
  refine .bind (.question (fun _ _ => rfl) fun w' _ => ?_)
  have h₄ := h₃.quiet (.capacity s)
  split
  · exact .ret h₄.isOpen
  · exact run_dispatchOne h₄

/-- A round for a batch ends with nothing left on its list. -/
theorem run_tryDispatchBatch (h : GatheredFor cfg s [] st log) :
    Run (Sched.tryDispatchBatch cfg s) st log fun st' log' _ => OpenFor cfg s [] st' log' := by
  refine .bind (.question (fun _ _ => rfl) fun w _ => ?_)
  have h₁ := h.quiet (.nowMillis s)
  refine .asks asks_activeQueues fun queues log₂ _ hasked => ?_
  have h₂ := h₁.asked hasked
  refine .bind (.question (fun _ _ => rfl) fun w' _ => ?_)
  have h₃ := h₂.quiet (.capacity s)
  refine .asks asks_inFlightRemaining fun remaining log₄ _ hasked => ?_
  have h₄ := h₃.asked hasked
  dsimp only
  split
  · exact .ret h₄.isOpen
  · exact run_dispatchBatch h₄

end

end Round

/-! ## Results -/

/-- A store a round may start from: the tables partition the jobs, the dependency edges were
respected, and no pending job carries the claim of owner `me`. -/
structure Db.Dispatchable (db : Db) (me : String) : Prop where
  partition : Partition db
  sequenced : db.Sequenced
  unclaimed : ∀ {k row}, db.jobs.find k = some row → row.status = .pending → db.owner k ≠ some me

/-- **No job is stranded.** When a dispatch round ends in which only shielded calls failed, every
job it dequeued is with a worker, pending, dead-lettered or another owner's; one that is still
running is recorded as in flight or has another owner. -/
theorem no_job_stranded {σ : Type} [DecidableEq σ] {cfg : σ → Scheduler} {s : σ}
    {p : SchedProg σ Unit} (hp : p = Sched.tryDispatch cfg s ∨ p = Sched.tryDispatchBatch cfg s)
    {st st' : SchedState σ} (hdb : st.db.Dispatchable (cfg s).claimOwner)
    {log : List (SchedEvent σ)}
    (h : p.Returns (schedMachine σ).logged Round.Input (st, []) () (st', log)) :
    ∀ j ∈ dequeuedIn log, Round.Settled s (cfg s).claimOwner st' log j ∧
      (st'.db.Running j → ((st'.inFlight s).lookup j).isSome = true ∨
        ∃ w, w ≠ (cfg s).claimOwner ∧ st'.db.owner j = some w) := by
  have hgathered : Round.GatheredFor cfg s [] st [] := by
    refine ⟨⟨hdb.partition, hdb.sequenced, ?_, nodup_nil, ?_, ?_, ?_⟩, ?_, hdb.unclaimed⟩
    all_goals exact fun _ h => by cases h
  have hend : Round.OpenFor cfg s [] st' log := by
    obtain rfl | rfl := hp
    · exact Prog.Ensures.returns (Round.run_tryDispatch hgathered) h
    · exact Prog.Ensures.returns (Round.run_tryDispatchBatch hgathered) h
  intro j hj
  obtain hmem | hset := hend.settled j hj
  · cases hmem
  refine ⟨hset, fun hrun => ?_⟩
  obtain ⟨_, hrow, hst⟩ := hrun
  obtain ⟨-, hrec, -⟩ | ⟨⟨_, hrow', hpend⟩, -⟩ | ⟨hnone, -⟩ | hother := hset
  · exact .inl hrec
  · rw [hrow] at hrow'
    cases hrow'
    rw [hst] at hpend
    cases hpend
  · rw [hrow] at hnone
    cases hnone
  · exact .inr hother

/-- A store with two jobs waiting in queue `q`. -/
def twoJobs : Db :=
  ((StoreOp.enqueue ⟨.plain "q" "t", "b", 0⟩).exec
    ((StoreOp.enqueue ⟨.plain "q" "t", "a", 0⟩).exec Db.empty).2).2

theorem twoJobs_dispatchable : twoJobs.Dispatchable "w" where
  partition := (partition_empty.exec (by decide)).exec (by decide)
  sequenced := ⟨nofun, nofun⟩
  unclaimed _ _ h := by cases h

/-- A scheduler that dispatches two jobs at a time. -/
def batchScheduler (_ : Unit) : Scheduler := { plainScheduler "w" with batchSize := 2 }

/-- Inputs of a round at time 10 with room for two jobs; `true` marks the calls that fail. -/
def roundInputs (faults : List Bool) : List World :=
  faults.map fun fault => ⟨fault, true, 10, 2, "d", []⟩

/-- The claim of the batch fails, and then the claim of the second job: the first job is sent, the
second goes back to the queue. -/
theorem no_job_stranded_sample :
    ∃ st' log, (Sched.tryDispatchBatch batchScheduler ()).Returns (schedMachine Unit).logged
        Round.Input (SchedState.init twoJobs, []) () (st', log) ∧
      ("a" ∈ dequeuedIn log ∧ "b" ∈ dequeuedIn log) ∧
      Round.Settled () "w" st' log "a" ∧ Round.Settled () "w" st' log "b" := by
  obtain ⟨⟨⟩, ⟨st', log⟩, hrun, ha, hb⟩ := Prog.exists_returns (M := (schedMachine Unit).logged)
    Round.Input (tryDispatchBatch batchScheduler ()) (.init twoJobs, [])
    (roundInputs [false, false, false, false, false, true, false, false, false, false, false, true,
      false, false, false])
    (fun _ (ls : SchedState Unit × List (SchedEvent Unit)) =>
      "a" ∈ dequeuedIn ls.2 ∧ "b" ∈ dequeuedIn ls.2) (by decide +kernel)
  have hall := no_job_stranded (.inr rfl) twoJobs_dispatchable hrun
  exact ⟨st', log, hrun, ⟨ha, hb⟩, (hall "a" ha).1, (hall "b" hb).1⟩

/-- A scheduler of such batches that sheds what waited longer than 5 ms. -/
def codelScheduler (_ : Unit) : Scheduler :=
  { batchScheduler () with codelTargets := fun _ => some 5 }

/-- The first job is to be shed and its dead-lettering fails, the only failure of the round: the
round gives up, and the second job stays running without a claim and without a record. -/
theorem no_job_stranded_broken :
    ∃ worlds st' log, (worlds.filter World.fault).length = 1 ∧
      (Sched.tryDispatchBatch codelScheduler ()).runAlone
        (M := (schedMachine Unit).logged) (fun _ _ _ => True) (.init twoJobs, []) worlds =
          some ((), st', log) ∧
      "b" ∈ dequeuedIn log ∧ ¬ Round.Settled () "w" st' log "b" ∧ st'.db.Running "b" ∧
      (st'.inFlight ()).lookup "b" = none ∧ st'.db.owner "b" = none := by
  let worlds := roundInputs [false, false, false, false, false, false, false, true]
  have hrun : ((tryDispatchBatch codelScheduler ()).runAlone
      (M := (schedMachine Unit).logged) (fun _ _ _ => True) (.init twoJobs, [])
      worlds).any (fun r => "b" ∈ dequeuedIn r.2.2 ∧ r.2.1.db.Running "b" ∧
        (r.2.1.inFlight ()).lookup "b" = none ∧ r.2.1.db.owner "b" = none) = true := by
    decide +kernel
  obtain ⟨⟨⟨⟩, st', log⟩, hsome, hP⟩ := (Option.any_eq_true _ _).1 hrun
  obtain ⟨hmem, hrunning, hrec, howner⟩ := of_decide_eq_true hP
  refine ⟨worlds, st', log, rfl, hsome, hmem, ?_, hrunning, hrec, howner⟩
  obtain ⟨_, hrow, hst⟩ := hrunning
  rintro (⟨-, -, hme⟩ | ⟨⟨_, hrow', hpend⟩, -⟩ | ⟨hnone, -⟩ | ⟨_, -, hw⟩)
  · rw [howner] at hme
    cases hme
  · rw [hrow] at hrow'
    cases hrow'
    rw [hst] at hpend
    cases hpend
  · rw [hrow] at hnone
    cases hnone
  · rw [howner] at hw
    cases hw

end Flexiq
