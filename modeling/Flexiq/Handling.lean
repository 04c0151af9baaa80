import Flexiq.CascadeClosure
import Flexiq.Maintenance

/-!
# Handling results under a discipline

Several arguments about the schedulers keep a ghost value beside each thread and show that what a
thread does with a result keeps to a discipline on it. What the handlers do is the same each time:
reads and records that no discipline minds (`Discipline.Steady`), one transaction that settles the
run, and what may follow it. The rules here walk over the handlers once, for any discipline that
allows those transactions (`FailureRules`, `ResultRules`).
-/

namespace Flexiq

open Prog

variable {σ α β γ : Type} {cfg : σ → Scheduler} {D : Discipline (schedSig σ) γ} {s : σ}
  {why : Cause} {id : JobId} {g : γ} {R : γ → Prop}

/-- Quiet operations are always permitted, and do not move the ghost value. -/
class Discipline.Steady (D : Discipline (schedSig σ) γ) : Prop where
  quiet : ∀ (g : γ) (op : SchedOp σ), op.isQuiet = true → D.permits g op ∧ ∀ r, D.next g op r = g

/-- The operation is permitted, and ends in `R` whatever the answer is. -/
def Discipline.Leads (D : Discipline (schedSig σ) γ) (g : γ) (op : SchedOp σ) (R : γ → Prop) :
    Prop :=
  D.permits g op ∧ ∀ r, R (D.next g op r)

variable {p : SchedProg σ α} {op : StoreOp}

theorem follows_quiet [D.Steady] (h : QuietOnly p) (g : γ) : p.Follows D g fun g' _ => g' = g :=
  Calls.follows h (Discipline.Steady.quiet g)

theorem Follows.quiet [D.Steady] (h : QuietOnly p) {f : α → SchedProg σ β} {Q : γ → β → Prop}
    (hf : ∀ a, (f a).Follows D g Q) : (p >>= f).Follows D g Q :=
  .bind ((follows_quiet h g).mono fun _ a hg => hg ▸ hf a)

theorem Follows.txn {Q : γ → Option op.Res → Prop} (hp : D.permits g (.store s why op))
    (hnone : Q (D.next g (.store s why op) none) none)
    (hsome : ∀ r, D.expects g (.store s why op) (some r) →
      Q (D.next g (.store s why op) (some r)) (some r)) :
    (storage s why (Flexiq.txn op)).Follows D g Q := by
  refine .guarded_perform hp fun r hr => ?_
  rcases r with _ | r
  · exact hnone
  · exact hsome r hr

theorem Follows.leads (h : D.Leads g (.store s why op) R) :
    (storage s why (Flexiq.txn op)).Follows D g fun g' _ => R g' :=
  Follows.txn h.1 (h.2 none) fun r _ => h.2 (some r)

theorem Follows.attempt {p : StoreProg (Except QueueError α)}
    (h : (storage s why p).Follows D g fun g' _ => R g') :
    (attempt s why p).Follows D g fun g' _ => R g' :=
  .bind (h.mono fun _ _ hg => hg)

open Follows (bind leads quiet)

/-- A program of transactions that are permitted and do not move the ghost value. -/
theorem follows_storage {P : StoreOp → Prop} {p : StoreProg α} (hp : p.Calls P)
    (hP : ∀ op, P op → D.Leads g (.store s why op) (· = g)) :
    (storage s why p).Follows D g fun g' _ => g' = g := by
  have hcalls := hp.guarded (T := schedSig σ) (f := .store s why) (g := storeAnswer s why)
    (Q := fun op => ∃ o, P o ∧ op = .store s why o) fun o ho => ⟨o, ho, rfl⟩
  refine hcalls.follows ?_
  rintro _ ⟨o, ho, rfl⟩
  exact hP o ho

/-! ## Claims and dead letters -/

theorem follows_completeExecution [D.Steady] (hstay : R g)
    (h : D.Leads g (.store s why (.deleteClaim id)) R) (ns : Option String) :
    (storage s why (Ops.completeExecution id ns)).Follows D g fun g' _ => R g' := by
  rcases ns with _ | ns
  · exact leads h
  · have hget : (storage s why (txn (.getJob id (some ns)))).Follows D g fun g' _ => g' = g :=
      follows_quiet (.storage (quietTxn rfl) s why) g
    refine .guarded_bind (hget.mono fun g' r hg => ?_)
    subst hg
    rcases r with _ | _ | _
    · exact hstay
    · exact hstay
    · exact leads h

theorem follows_collectDependents [D.Steady] (s : σ) (why : Cause) (root : JobId) (g : γ)
    (fuel : Nat) :
    ∀ idx queue, queue.Nodup → [root] <+: queue →
      (storage s why (Ops.collectDependents fuel idx queue)).Follows D g
        fun g' r => g' = g ∧ ∀ found ∈ r, ∀ queue ∈ found, root ∉ queue.tail := by
  -- the root heads a list without repetitions
  have hroot : ∀ queue, queue.Nodup → [root] <+: queue → root ∉ queue.tail := by
    rintro queue hnd ⟨_, rfl⟩
    exact (List.nodup_cons.1 hnd).1
  induction fuel with
  | zero =>
    intro idx queue hnd hhead
    refine ⟨rfl, fun found hfound => ?_⟩
    cases hfound
    split <;> rintro _ ⟨⟩
    exact hroot _ hnd hhead
  | succ fuel ih =>
    intro _ _ hnd hhead
    simp only [Ops.collectDependents]
    split
    · refine ⟨rfl, fun found hfound => ?_⟩
      cases hfound
      rintro _ ⟨⟩
      exact hroot _ hnd hhead
    · refine .guarded_bind ((follows_quiet (.storage (quietTxn rfl) s why) g).mono
        fun g' r hg => ?_)
      subst hg
      rcases r with _ | more
      · exact ⟨rfl, fun _ h => by cases h⟩
      simp only [addUnvisited_eq]
      exact ih _ _ (Worklist.nodup_extend hnd more) (hhead.trans (Worklist.prefix_extend _ _))

variable {ns : Option String} {job : Job} {f : Failure} {r : JobResult}

theorem follows_cascadeCancel [D.Steady] {root : JobId} {reason : String} {now : Int} (hstay : R g)
    (h : ∀ ids, root ∉ ids → D.Leads g (.store s why (.cascadeArchive root reason ids ns now)) R)
    (fuel : Nat) :
    (storage s why (Ops.cascadeCancel root reason ns now fuel)).Follows D g fun g' _ => R g' := by
  refine .guarded_bind ((follows_collectDependents s why root g fuel 0 [root]
    (List.nodup_singleton _) (List.prefix_refl _)).mono fun g' r hr => ?_)
  obtain ⟨rfl, htail⟩ := hr
  rcases r with _ | _ | queue
  · exact hstay
  · exact hstay
  · simp only
    split
    · exact hstay
    · exact leads (h _ (htail _ rfl queue rfl))

/-- A dead-letter move: nothing happened, or the job was moved and the cascade follows. -/
theorem follows_deadLetter [D.Steady] {error : String} {metadata : Option String} {shed : Bool}
    (h : ∀ dlqId count now,
      let move := SchedOp.store s why (.deadLetter job dlqId error metadata count shed now)
      D.Leads g move R ∧ ∀ ids ns, job.id ∉ ids → D.Leads (D.next g move (some (.ok ())))
        (.store s why (.cascadeArchive job.id "dependency failed" ids ns now)) R) :
    (Sched.deadLetter cfg s why job error metadata shed).Follows D g fun g' _ => R g' := by
  refine quiet (QuietOnly.ask rfl) fun dlqId => quiet (QuietOnly.ask rfl) fun now => ?_
  obtain ⟨hmove, hcascade⟩ := h dlqId ((cfg s).codec.dlqRetryCount job.metadata) now
  refine Follows.attempt (Follows.guarded_bind (Follows.txn hmove.1 (hmove.2 none) fun r _ => ?_))
  rcases r with e | _
  · exact hmove.2 (some (.error e))
  · exact follows_cascadeCancel (hmove.2 (some (.ok ()))) (fun ids hids => hcascade ids _ hids) _

/-! ## One result -/

/-- What a discipline has to allow a thread that handles the failure of a run. -/
structure FailureRules (cfg : σ → Scheduler) (D : Discipline (schedSig σ) γ) (s : σ) (why : Cause)
    (id : JobId) (g : γ) (R : γ → Prop) : Prop where
  stay : R g
  retry : ∀ next ns, D.Leads g (.store s why (.retry id next ns)) R
  release : D.Leads g (.store s why (.deleteClaim id)) R
  deadLetter : ∀ ns job, D.expects g (.store s why (.getJob id ns)) (some (some job)) →
    ∀ error metadata, (Sched.deadLetter cfg s why job error metadata false).Follows D g
      fun g' _ => R g'

/-- What it has to allow a thread that handles any result of a run. -/
structure ResultRules (cfg : σ → Scheduler) (D : Discipline (schedSig σ) γ) (s : σ) (why : Cause)
    (id : JobId) (g : γ) (R : γ → Prop) : Prop extends FailureRules cfg D s why id g R where
  complete : ∀ result ns now, D.Leads g (.store s why (.complete id result ns now)) R
  markCancelled : ∀ ns now, D.Leads g (.store s why (.markCancelled id ns now)) R
  after : ∀ g', R g' → D.Leads g' (.store s why (.deleteClaim id)) R

theorem follows_moveToDlq [D.Steady] (h : FailureRules cfg D s why f.jobId g R) {job : Option Job}
    (hjob : D.expects g (.store s why (.getJob f.jobId ns)) (some job)) (metadata : Option String) :
    (Sched.moveToDlq cfg s why f job metadata).Follows D g fun g' _ => R g' := by
  rcases job with _ | job
  · exact .bind ((follows_completeExecution h.stay h.release _).mono fun _ _ hg => hg)
  · refine .bind ((h.deadLetter ns job hjob _ _).mono fun g' r hg => ?_)
    rcases r with _ | _ <;> exact hg

theorem follows_handleFailure [D.Steady] (h : FailureRules cfg D s why f.jobId g R) :
    (Sched.handleFailure cfg s why f).Follows D g fun g' _ => R g' := by
  refine quiet (Sched.quietOnly_recordError cfg s why f) fun _ => ?_
  refine quiet (Sched.quietOnly_recordMetric cfg s why ..) fun _ => ?_
  obtain ⟨hp, hnext⟩ := Discipline.Steady.quiet (D := D) g
    (.store s why (.getJob f.jobId (cfg s).namespace_)) rfl
  refine bind (Follows.txn hp ((hnext none).symm ▸ h.stay) fun job hjob => ?_)
  rw [hnext]
  simp only
  split
  · exact follows_moveToDlq h hjob none
  · split
    · refine quiet (Sched.quietOnly_retryBudgetAllows cfg s _) fun allowed => ?_
      split
      · refine quiet (QuietOnly.ask rfl) fun next => ?_
        refine bind ((Follows.attempt (leads (h.retry next _))).mono fun g' r hg => ?_)
        rcases r with _ | _ <;> exact hg
      · exact follows_moveToDlq h hjob _
    · exact follows_moveToDlq h hjob none

theorem follows_finalizeSuccess [D.Steady] {c : JobCompletion}
    (h : ResultRules cfg D s why c.jobId g R) :
    (Sched.finalizeSuccess cfg s why c).Follows D g fun g' _ => R g' := by
  refine quiet (QuietOnly.ask rfl) fun now => ?_
  refine bind ((Follows.attempt (leads (h.complete _ _ now))).mono fun g' r hg => ?_)
  rcases r with _ | _
  · exact hg
  · refine .bind ((follows_completeExecution hg (h.after g' hg) _).mono fun g'' _ hg => ?_)
    exact quiet (Sched.quietOnly_recordMetric cfg s why ..) fun _ => hg

theorem follows_handleCancelled [D.Steady] (h : ResultRules cfg D s why id g R)
    (taskName : String) (wallTimeNs : Int) :
    (Sched.handleCancelled cfg s why id taskName wallTimeNs).Follows D g fun g' _ => R g' := by
  refine quiet (QuietOnly.ask rfl) fun now => ?_
  refine bind ((Follows.attempt (leads (h.markCancelled _ now))).mono
    fun g' _ hg => ?_)
  refine quiet (Sched.quietOnly_recordMetric cfg s why ..) fun _ => ?_
  refine quiet (QuietOnly.storage (quietTxn rfl) s why) fun job => ?_
  rcases job with _ | _ <;> exact hg

theorem follows_settleResult [D.Steady] (h : ResultRules cfg D s why r.jobId g R) :
    (Sched.settleResult cfg s why r).Follows D g fun g' _ => R g' := by
  cases r with
  | success c => exact follows_finalizeSuccess h
  | failure f => exact follows_handleFailure h.toFailureRules
  | cancelled id taskName wallTimeNs => exact follows_handleCancelled h taskName wallTimeNs

/-- Taking a record, and checking the attempt that it was made for. -/
theorem follows_authorizeFinished [D.Steady] (hp : D.permits g (.releaseInFlight s why id))
    (h : ∀ record, D.expects g (.releaseInFlight s why id) record →
      R (D.next g (.releaseInFlight s why id) record)) :
    (Sched.authorizeFinished cfg s why id).Follows D g fun g' _ => R g' := by
  refine .bind (.perform hp fun record hrecord => ?_)
  have hR := h record hrecord
  rcases record with _ | _
  · exact hR
  · refine quiet (QuietOnly.storage (quietTxn rfl) s why) fun fence => ?_
    split <;> exact hR

/-- **One result**: the record, and what the result then asks for. -/
theorem follows_handleResult [D.Steady] {P : γ → Prop}
    (hauth : (Sched.authorizeFinished cfg s why r.jobId).Follows D g fun g' _ => P g')
    (hR : ∀ g', P g' → R g')
    (h : ∀ g', P g' → (Sched.settleResult cfg s why r).Follows D g' fun g' _ => R g') :
    (Sched.handleResult cfg s why r).Follows D g fun g' _ => R g' := by
  refine .bind (hauth.mono fun g' authorized hg => ?_)
  split
  · exact hR g' hg
  · exact h g' hg

/-! ## Sweeps -/

theorem follows_reapEach
    (h : ∀ job g, R g → (Sched.handleResult cfg s (.reap ⟨job.id, job.retryCount⟩)
      (Sched.timeoutResult job)).Follows D g fun g' _ => R g') :
    ∀ jobs {g}, R g → (Sched.reapEach cfg s jobs).Follows D g fun g' _ => R g'
  | [], _, hg => hg
  | job :: rest, g, hg => by
    refine .bind ((h job g hg).mono fun g' r hg' => ?_)
    rcases r with _ | _
    · exact hg'
    · exact follows_reapEach h rest hg'

/-- A rescue: the transfer fails, or the sweep records the run as its own and fails it. -/
theorem follows_rescue [D.Steady] {owner : String} (hreclaim : ∀ now,
      let reclaim := SchedOp.store s (.rescue ⟨job.id, job.retryCount⟩)
        (.reclaimExecution job.id owner (cfg s).claimOwner now)
      D.Leads g reclaim R ∧ D.Leads (D.next g reclaim (some (.ok true)))
        (.trackInFlight s job.id ⟨job.taskName, (cfg s).claimOwner, job.retryCount⟩) fun g' =>
          (Sched.handleResult cfg s (.rescue ⟨job.id, job.retryCount⟩)
            (Sched.rescueResult job owner)).Follows D g' fun g' _ => R g') :
    (Sched.rescue cfg s job owner).Follows D g fun g' _ => R g' := by
  refine quiet (QuietOnly.ask rfl) fun now => ?_
  obtain ⟨hleads, htrack⟩ := hreclaim now
  refine bind (bind (Follows.txn hleads.1 (hleads.2 none) fun r _ => ?_))
  rcases r with e | _ | _
  · exact hleads.2 (some (.error e))
  · exact hleads.2 (some (.ok false))
  · refine .bind (.perform htrack.1 fun r _ => ?_)
    exact .bind ((htrack.2 r).mono fun _ _ hg => hg)

/-- A sweep: what it expires and drops, the overdue runs, the orphans. -/
theorem follows_reapStale [D.Steady]
    (hexpire : ∀ g now, D.Leads g (.store s .loop (.archivePending .expired now)) (· = g))
    (hpurge : ∀ g cutoff, D.Leads g (.store s .loop (.purgeExecutionClaims cutoff)) (· = g))
    (hstale : ∀ g now, D.Leads g (.store s .loop (.reapStaleJobs now (cfg s).namespace_)) (· = g))
    (hreap : ∀ job g, R g → (Sched.handleResult cfg s (.reap ⟨job.id, job.retryCount⟩)
      (Sched.timeoutResult job)).Follows D g fun g' _ => R g')
    (hrecover : ∀ now g, R g → (Sched.recoverOrphanedJobs cfg s now).Follows D g fun g' _ => R g')
    (hg : R g) : (Sched.reapStale cfg s).Follows D g fun g' _ => R g' := by
  refine quiet (QuietOnly.ask rfl) fun now => ?_
  have hdrain : (storage s .loop (Ops.expirePendingJobs now (cfg s).fuel)).Follows D g
      fun g' _ => g' = g := by
    refine follows_storage (calls_drainBatches (P := (· = .archivePending .expired now)) rfl ..) ?_
    rintro _ rfl
    exact hexpire g now
  refine bind ((Follows.attempt hdrain).mono fun g₁ _ hg₁ => ?_)
  subst hg₁
  refine bind ((Follows.attempt (leads (hpurge g₁ _))).mono fun g₂ _ hg₂ => ?_)
  subst hg₂
  refine bind ((leads (hstale g₂ now)).mono fun g₃ jobs hg₃ => ?_)
  subst hg₃
  rcases jobs with _ | jobs
  · exact hg
  · refine .bind ((follows_reapEach hreap jobs hg).mono fun g₄ r hg₄ => ?_)
    rcases r with _ | _
    · exact hg₄
    · exact hrecover now g₄ hg₄

end Flexiq
