import Flexiq.DependencyGate
import Flexiq.DispatchRules

/-!
# Completed jobs stay completed

Once a job is archived as complete, nothing the schedulers do should touch it again: its archived
row stays, no dead-letter entry is written for it, and no job is cancelled *because of* it. Every
transition but one is guarded — it needs the live row of its job, which a completed job no longer
has. The exception is the **dead-letter move**, which writes its entry and cascades to the
dependents whether or not the job is still live.

So the law holds in every run whose dead-letter transactions find their job still live
(`completed_stays`), and fails when a timeout is selected before, and handled after, the job
completes (`completed_stays_broken`).

A cascade is told by the error it leaves: `dependency failed` or `dependency cancelled`, and the
id of the job at its root.
-/

namespace Flexiq

open Function Option StoreOp SchedOp

variable {e : Effect} {now : Int} {op : StoreOp}
variable {job : Job} {error : String} {metadata : Option String} {shed : Bool} {id : JobId}
  {why : Cause} {known : Option JobId}

/-- The errors of the jobs a cascade from `root` cancels. -/
def cascadeErrors (root : JobId) : List String :=
  ["dependency failed: " ++ root, "dependency cancelled: " ++ root]

/-- Between the two states job `j` was left alone: same archived row, no new dead letter, nothing
cancelled on its account. -/
structure Settled (j : JobId) (db db' : Db) : Prop where
  archived : db'.archivedJobs.find j = db.archivedJobs.find j
  deadLetter : ∀ d ∈ db'.deadLetter.rows, d.originalJobId = j → d ∈ db.deadLetter.rows
  cascade : ∀ {id row}, db'.archivedJobs.find id = some row → row.status = .cancelled →
    (∃ error ∈ cascadeErrors j, row.error = some error) → db.archivedJobs.find id = some row

namespace Settled

variable {j : JobId} {db db' db'' : Db}

theorem refl (j : JobId) (db : Db) : Settled j db db := ⟨rfl, fun _ hd _ => hd, fun h _ _ => h⟩

theorem trans (h : Settled j db db') (h' : Settled j db' db'') : Settled j db db'' :=
  ⟨h'.archived.trans h.archived, fun d hd hj => h.deadLetter d (h'.deadLetter d hd hj) hj,
    fun hrow hst herr => h.cascade (h'.cascade hrow hst herr) hst herr⟩

end Settled

/-! ## Effects -/

/-- The effect leaves a completed job `j` alone. -/
def Effect.LeavesAlone (j : JobId) : Effect → Prop
  | purge _ => False
  | deadLetter entry => entry.originalJobId ≠ j
  | archive _ final => final.status = .cancelled →
      ∀ error ∈ cascadeErrors j, final.error ≠ some error
  | _ => True

variable {j : JobId} {db : Db} {r : Job} {dlqId : String} {count : Int}

theorem Settled.of_effect {db' : Db} (hj : db.archivedJobs.find j = some r) (he : e.LeavesAlone j)
    (h : e.Holds db db') : Settled j db db' := by
  refine ⟨?_, fun d hmem hd => ?_, fun {id row'} hrow hst herr => ?_⟩
  · obtain hsame | ⟨_, rfl⟩ := fate_of_archived h hj
    · rw [hsame, hj]
    · exact he.elim
  · obtain hold | rfl := deadLetter_of_effect h hmem
    · exact hold
    · exact absurd hd he
  · obtain hold | ⟨_, _, rfl, -, rfl⟩ := archived_cases h hrow
    · exact hold
    · obtain ⟨error, hmem, heq⟩ := herr
      exact absurd heq (he hst error hmem)

theorem Settled.exec (hj : db.Complete j) (hop : ∀ e, op.Effects e → e.LeavesAlone j) :
    Settled j db (op.exec db).2 := by
  obtain ⟨_, hr, -⟩ := hj
  refine (exec_effects op db).invariant (P := fun mid => Settled j db mid) ?_ (.refl j db)
  intro e _ _ he h hmid
  exact hmid.trans (.of_effect (hmid.archived.trans hr) (hop e he) h)

/-! ## Transactions -/

/-- The transactions of schedulers, and of clients that enqueue, other than a dead-letter move
and a cascade. -/
def StoreOp.routine : StoreOp → Bool
  | enqueue _ | enqueueBatch _ | enqueueDebounced _ _ _ | enqueueUnique _
  | enqueueUniqueBatch _ | activeWithKey _ | dequeue _ _ _ _ | dequeueBatch _ _ _ _ _
  | complete _ _ _ _ | completeBatch _ _ _ | retry _ _ _ | reschedule _ _ | markCancelled _ _ _
  | dependents _ | getJob _ _ | authorizeAttempt _ _ _ _ | claimExecution _ _ _
  | claimExecutionBatch _ _ _ | deleteClaim _ | reclaimExecution _ _ _ _
  | purgeExecutionClaims _ | archivePending _ _ | reapStaleJobs _ _ | reapOrphanedJobs _ _
  | countRunningByTask _ _ | countRunningByQueue _ _ | recordError _ _ _ _ | recordMetric _ =>
    true
  | _ => false

/-- An error text without a colon is not a cascade's. -/
theorem not_cascadeError {text : String} (h : ':' ∉ text.toList) :
    ∀ error ∈ cascadeErrors j, some text ≠ some error := by
  intro _ herr heq
  cases heq
  refine h ?_
  obtain rfl | rfl : text = "dependency failed: " ++ j ∨ text = "dependency cancelled: " ++ j := by
    simpa [cascadeErrors] using herr
  all_goals simp [String.toList_append]

theorem StoreOp.leavesAlone_of_routine (h : op.routine = true) (j : JobId) (he : op.Effects e) :
    e.LeavesAlone j := by
  cases op <;> simp only [StoreOp.routine, Bool.false_eq_true] at h
  case enqueue | enqueueBatch | enqueueUnique | claimExecution | deleteClaim |
      reclaimExecution | purgeExecutionClaims | recordError | recordMetric =>
    rw [show e = _ from he]
    trivial
  case activeWithKey | dependents | getJob | authorizeAttempt | reapStaleJobs |
      reapOrphanedJobs | countRunningByTask | countRunningByQueue => exact he.elim
  case enqueueDebounced => obtain rfl | ⟨_, _, _, -, rfl⟩ := he <;> trivial
  case enqueueUniqueBatch | claimExecutionBatch =>
    obtain ⟨_, -, rfl⟩ := he
    trivial
  case dequeue | dequeueBatch =>
    obtain ⟨row, -, -, -, rfl | rfl⟩ := he
    · trivial
    · exact fun _ => not_cascadeError (by decide)
  case complete =>
    obtain ⟨row, -, -, -, rfl⟩ := he
    exact nofun
  case completeBatch =>
    obtain rfl | ⟨_, -, row, -, -, -, rfl⟩ := he
    · trivial
    · exact nofun
  case retry => obtain rfl | ⟨row, -, -, rfl⟩ := he <;> trivial
  case reschedule =>
    obtain ⟨row, -, rfl⟩ := he
    trivial
  case markCancelled =>
    obtain ⟨row, -, -, rfl⟩ := he
    exact fun _ => not_cascadeError (by decide)
  case archivePending sweep now =>
    obtain ⟨_, -, rfl⟩ := he
    exact fun _ => not_cascadeError (by cases sweep <;> simp [PendingSweep.error])

theorem StoreOp.leavesAlone_of_deadLetter (hp : Partition db) (hj : db.Complete j)
    (hlive : db.Live job.id)
    (he : (StoreOp.deadLetter job dlqId error metadata count shed now).Effects e) :
    e.LeavesAlone j := by
  obtain rfl | ⟨row, -, rfl⟩ := he
  · obtain ⟨_, hrow⟩ := isSome_iff_exists.1 hlive
    obtain ⟨_, hr, -⟩ := hj
    intro heq
    have hsame : job.id = j := heq
    have hnone := hp.disjoint (hsame ▸ hrow)
    rw [hr] at hnone
    cases hnone
  · exact nofun

theorem StoreOp.leavesAlone_of_cascade {root : JobId} (hne : root ≠ j) {ids : List JobId}
    {ns : Option String}
    (he : (StoreOp.cascadeArchive root "dependency failed" ids ns now).Effects e) :
    e.LeavesAlone j := by
  obtain ⟨_, -, -, rfl⟩ := he
  intro _ error herr heq
  have htext : "dependency failed" ++ ": " ++ root = error := some.inj heq
  have hlist := congrArg String.toList htext
  obtain rfl | rfl : error = "dependency failed: " ++ j ∨
      error = "dependency cancelled: " ++ j := by
    simpa [cascadeErrors] using herr
  · simp only [String.toList_append] at hlist
    exact hne (String.toList_injective (List.append_cancel_left hlist))
  · have hchar := congrArg (fun l => l[11]?) hlist
    simp [String.toList_append] at hchar

theorem archived_kept (hop : ∀ p, ¬ op.Effects (.purge p)) (hr : db.archivedJobs.find id = some r) :
    (op.exec db).2.archivedJobs.find id = some r := by
  refine (exec_effects op db).invariant (P := fun mid => mid.archivedJobs.find id = some r) ?_ hr
  intro _ _ _ he h hmid
  obtain hsame | ⟨p, rfl⟩ := fate_of_archived h hmid
  · exact hsame
  · exact absurd he (hop p)

theorem archived_of_deadLetter (hlive : db.Live job.id)
    (h : ((StoreOp.deadLetter job dlqId error metadata count shed now).exec db).1 = .ok ()) :
    ∃ row, ((StoreOp.deadLetter job dlqId error metadata count shed now).exec
      db).2.archivedJobs.find job.id = some row ∧ row.status = .dead := by
  obtain ⟨row, hrow⟩ := isSome_iff_exists.1 hlive
  have hid : row.id = job.id := Table.find_key hrow
  simp only [StoreOp.exec] at h ⊢
  obtain ⟨_, -, hw⟩ | ⟨_, _, hbody, hw⟩ := writeTransaction_cases
    (Flexiq.deadLetter job dlqId error metadata count shed now) db
  · rw [hw] at h
    cases h
  · rw [hw]
    unfold Flexiq.deadLetter at hbody
    split at hbody
    · cases hbody
    · simp only [hrow] at hbody
      obtain ⟨_, ha, hok⟩ := bind_eq_ok.1 hbody
      cases hok
      refine ⟨_, (find_archived_archive ha _).trans (if_pos hid.symm), rfl⟩

/-! ## The discipline -/

/-- A thread may cascade only from the job it has just dead-lettered. -/
def StoreOp.CascadesFrom (known : Option JobId) : StoreOp → Prop
  | cascadeArchive root reason _ _ _ => known = some root ∧ reason = "dependency failed"
  | deadLetter _ _ _ _ _ _ _ => True
  | op => op.routine = true

/-- The job a thread knows to be dead-lettered after an operation. -/
def deadLettered {σ : Type} (known : Option JobId) : (op : SchedOp σ) → op.Res → Option JobId
  | .store _ _ (.deadLetter job _ _ _ _ _ _), some (.ok ()) => some job.id
  | _, _ => known

/-- Each thread remembers the job it dead-lettered last. -/
def cascadeDiscipline (σ : Type) : Discipline (schedSig σ) (Option JobId) where
  permits known op := ∀ o ∈ SchedOp.transaction op, o.CascadesFrom known
  expects _ _ _ := True
  next := deadLettered
  done _ := True

/-! ## Programs -/

section Programs

variable {σ α : Type} {cfg : σ → Scheduler} {codec : MetadataCodec}
variable {s : σ} {why : Cause} {job : Job} {id : JobId}

open Prog

theorem cascadesFrom_of_routine (h : op.routine = true) (known : Option JobId) :
    op.CascadesFrom known := by
  cases op <;> first | exact h | cases h

theorem obeys_storage {p : StoreProg α} (hp : p.Calls fun op => StoreOp.routine op = true) :
    Obeys (cascadeDiscipline σ) (storage s why p) := by
  refine Calls.obeys (hp.guarded (Q := fun op => ∀ o ∈ transaction op, o.routine = true)
    fun op hop o ho => ?_) fun op hop known o ho => cascadesFrom_of_routine (hop o ho) known
  cases ho
  exact hop

theorem obeys_attempt {p : StoreProg (Except QueueError α)}
    (hp : p.Calls fun op => StoreOp.routine op = true) :
    Obeys (cascadeDiscipline σ) (attempt s why p) :=
  (obeys_storage hp).bind fun _ => .ret _

theorem routine_txn (h : op.routine = true) : (txn op).Calls fun op => StoreOp.routine op = true :=
  calls_txn (P := fun op => op.routine = true) h

theorem routine_of_isSide (h : op.isSide = true) : op.routine = true := by
  cases op <;> first | rfl | cases h

theorem obeys_side {p : SchedProg σ α} (h : SideOnly p) : Obeys (cascadeDiscipline σ) p := by
  refine h.obeys fun op hop known o ho => cascadesFrom_of_routine ?_ known
  cases op with
  | store =>
    cases ho
    exact routine_of_isSide hop
  | client => cases hop
  | _ => cases ho

theorem permits_plain {op : SchedOp σ} (h : op.transaction = none) (known : Option JobId) :
    (cascadeDiscipline σ).permits known op := by
  intro _ ho
  rw [h] at ho
  cases ho

theorem obeys_ask {op : SchedOp σ} (h : op.transaction = none) :
    Obeys (cascadeDiscipline σ) (ask op) :=
  .perform (permits_plain h)

instance : (cascadeDiscipline σ).Steady where
  quiet known op hop := by
    cases op with
    | store s why op =>
      have hside := routine_of_isSide (StoreOp.isSide_of_isQuiet hop)
      refine ⟨fun o ho => ?_, fun r => ?_⟩
      · obtain rfl := Option.some.inj ho
        exact cascadesFrom_of_routine hside known
      · cases op <;> first | rfl | cases hop
    | client op => cases hop
    | _ => exact ⟨permits_plain rfl known, fun _ => rfl⟩

theorem leads_routine (h : op.routine = true) :
    (cascadeDiscipline σ).Leads known (.store s why op) fun _ => True := by
  refine ⟨fun o ho => ?_, fun _ => trivial⟩
  cases ho
  exact cascadesFrom_of_routine h known

theorem obeys_deadLetter :
    Obeys (cascadeDiscipline σ) (Sched.deadLetter cfg s why job error metadata shed) := by
  intro _
  refine follows_deadLetter (R := fun _ => True) fun dlqId count now =>
    ⟨⟨fun o ho => ?_, fun _ => trivial⟩, fun ids ns _ => ⟨fun o ho => ?_, fun _ => trivial⟩⟩
  · cases ho
    trivial
  · cases ho
    exact ⟨rfl, rfl⟩

theorem obeys_completeExecution {ns : Option String} :
    Obeys (cascadeDiscipline σ) (storage s why (Ops.completeExecution id ns)) :=
  obeys_storage (calls_completeExecution rfl rfl)

/-- Every handler may settle its run. -/
theorem cascade_rules : ResultRules cfg (cascadeDiscipline σ) s why id known fun _ => True where
  stay := trivial
  retry _ _ := leads_routine rfl
  release := leads_routine rfl
  deadLetter _ _ _ _ _ := obeys_deadLetter known
  complete _ _ _ := leads_routine rfl
  markCancelled _ _ := leads_routine rfl
  after _ _ := leads_routine rfl

theorem obeys_authorizeFinished :
    Obeys (cascadeDiscipline σ) (Sched.authorizeFinished cfg s why id) :=
  fun _ => follows_authorizeFinished (R := fun _ => True) (permits_plain rfl _) fun _ _ => trivial

theorem obeys_handleResult {r : JobResult} :
    Obeys (cascadeDiscipline σ) (Sched.handleResult cfg s why r) :=
  fun known => follows_handleResult (obeys_authorizeFinished known) (fun _ h => h)
    fun _ _ => follows_settleResult cascade_rules

variable {results : List (Int × JobResult)}

theorem obeys_drainResults : Obeys (cascadeDiscipline σ) (Sched.drainResults cfg s results) := by
  induction results with
  | nil => exact .ret _
  | cons r rest ih =>
    obtain ⟨_, r⟩ := r
    cases r with
    | success => exact obeys_authorizeFinished.bind fun _ => ih.bind fun _ => .ret _
    | failure => exact obeys_handleResult.bind fun _ => ih.bind fun _ => .ret _
    | cancelled =>
      exact obeys_handleResult.bind fun _ => ih.bind fun _ => .ret _

theorem obeys_finalizeEach {drained : List (Option ResultOutcome ⊕ Sched.Finished)} :
    Obeys (cascadeDiscipline σ) (Sched.finalizeEach cfg s drained) := by
  induction drained with
  | nil => exact .ret _
  | cons d rest ih =>
    rcases d with _ | _
    · exact ih.bind fun _ => .ret _
    · exact .bind (fun known => follows_finalizeSuccess cascade_rules) fun _ =>
        ih.bind fun _ => .ret _

theorem obeys_handleResults : Obeys (cascadeDiscipline σ) (Sched.handleResults cfg s results) := by
  refine obeys_drainResults.bind fun drained => ?_
  simp only
  split
  · exact .ret _
  · refine (obeys_ask rfl).bind fun _ => (obeys_attempt (routine_txn rfl)).bind fun r => ?_
    rcases r with _ | _
    · exact obeys_finalizeEach
    · exact .ret _

theorem obeys_recoverOrphanedJobs :
    Obeys (cascadeDiscipline σ) (Sched.recoverOrphanedJobs cfg s now) := by
  have hrescue : ∀ o : Job × String, Obeys (cascadeDiscipline σ) (Sched.rescue cfg s o.1 o.2) :=
    fun o known => follows_rescue (R := fun _ => True) fun now => ⟨leads_routine rfl,
      permits_plain rfl _, fun _ => obeys_handleResult _⟩
  refine (obeys_ask rfl).bind fun alive => ?_
  rcases alive with _ | _
  · exact .ret _
  · refine (obeys_storage (routine_txn rfl)).bind fun orphans => ?_
    rcases orphans with _ | _
    · exact .ret _
    · exact .forEach hrescue _

theorem obeys_reapStale : Obeys (cascadeDiscipline σ) (Sched.reapStale cfg s) := by
  intro known
  refine follows_reapStale (R := fun _ => True) ?_ ?_ ?_ (fun _ _ _ => obeys_handleResult _)
    (fun now known _ => obeys_recoverOrphanedJobs known) trivial
  iterate 3
    refine fun known _ => ⟨(leads_routine rfl).1, fun r => ?_⟩
    rcases r with _ | _ <;> rfl

/-! ### Dispatching -/

theorem obeys_rollback {delayMs : Int} :
    Obeys (cascadeDiscipline σ) (Sched.rollback cfg s job now delayMs) := by
  refine (obeys_ask rfl).bind fun _ => .bind ?_ fun r => ?_
  · refine obeys_completeExecution.bind fun r => ?_
    rcases r with _ | _
    · exact .ret _
    · exact obeys_attempt (routine_txn rfl)
  · rcases r with _ | _ <;> exact .ret _

theorem obeys_finishDispatch {counts : Sched.GateCounts} :
    Obeys (cascadeDiscipline σ) (Sched.finishDispatch cfg s job now counts) := by
  refine (obeys_side (Sched.sideOnly_checkPostClaimConcurrency cfg s job counts)).bind fun r => ?_
  split
  · exact .ret _
  · exact obeys_rollback.bind fun _ => .ret _
  · refine (obeys_ask rfl).bind fun _ => (obeys_ask rfl).bind fun accepted => ?_
    split
    · exact .ret _
    · exact (obeys_ask rfl).bind fun _ => obeys_rollback.bind fun _ => .ret _

theorem obeys_shedRateLimited {reason : String} {claimed : Bool} :
    Obeys (cascadeDiscipline σ) (Sched.shedRateLimited cfg s job reason claimed) := by
  cases claimed with
  | true => exact obeys_completeExecution.bind fun _ => obeys_deadLetter
  | false => exact obeys_deadLetter

/-- Dispatchers cascade only from what they shed. -/
theorem cascadeCycle :
    CycleRules cfg (cascadeDiscipline σ) s (fun _ _ _ _ => True) fun _ _ _ _ _ => True where
  skip _ := trivial
  own _ := trivial
  pass _ := trivial
  rollback _ _ _ := obeys_rollback _
  finish _ _ := obeys_finishDispatch _
  shed _ _ := (obeys_shedRateLimited _).mono fun _ _ _ => ⟨trivial, trivial⟩
  reschedule _ _ :=
    (obeys_attempt (routine_txn rfl) _).mono fun _ _ _ => ⟨trivial, fun _ => trivial⟩
  claim _ _ := leads_routine rfl
  claimBatch _ _ := ⟨(leads_routine rfl).1, trivial, fun _ => trivial, fun _ => trivial⟩
  drop _ _ _ := (obeys_deadLetter _).mono fun _ _ _ _ => trivial

theorem obeys_tryDispatch : Obeys (cascadeDiscipline σ) (Sched.tryDispatch cfg s) :=
  fun known => cascadeCycle.tryDispatch fun _ _ =>
    (obeys_storage (calls_dequeueFrom (P := fun op => op.routine = true) (fun _ _ => rfl) _)
      known).mono fun _ _ _ _ _ => trivial

theorem obeys_tryDispatchBatch : Obeys (cascadeDiscipline σ) (Sched.tryDispatchBatch cfg s) :=
  fun known => cascadeCycle.tryDispatchBatch fun _ _ _ =>
    (obeys_storage (calls_dequeueBatchFrom (P := fun op => op.routine = true) (fun _ _ _ =>
      rfl) _ _) known).mono fun _ _ _ _ _ => trivial

end Programs

/-! ## Clients -/

def StoreCall.isEnqueue : StoreCall → Bool
  | enqueue _ | enqueueBatch _ | enqueueDebounced _ _ | enqueueUnique _ | enqueueUniqueBatch _ =>
    true
  | _ => false

/-- The transactions that enqueue, and the read of a key's job. -/
def StoreOp.enqueues : StoreOp → Bool
  | enqueue _ | enqueueBatch _ | enqueueDebounced _ _ _ | enqueueUnique _
  | enqueueUniqueBatch _ | activeWithKey _ => true
  | _ => false

theorem routine_of_enqueues (h : op.enqueues = true) : op.routine = true := by
  cases op <;> first | rfl | cases h

section Clients

open Prog

variable {P : StoreOp → Prop}

theorem calls_enqueueUniqueAttempts {d : Draft} (h : P (.enqueueUnique d))
    (hread : ∀ key, P (.activeWithKey key)) :
    ∀ attempts, (Ops.enqueueUniqueAttempts d attempts).Calls (S := storeSig) P := by
  have hwinner : (Ops.uniqueWinner d).Calls (S := storeSig) P := by
    unfold Ops.uniqueWinner
    split
    · trivial
    · exact calls_txn (hread _)
  intro attempts
  induction attempts with
  | zero => trivial
  | succ attempts ih =>
    refine (calls_txn h).bind fun r => ?_
    split
    · trivial
    · refine hwinner.bind fun winner => ?_
      rcases winner with _ | _
      · exact ih
      · trivial
    · trivial

theorem calls_enqueueUniqueBatchAttempts {ds : List Draft} (h : P (.enqueueUniqueBatch ds)) :
    ∀ attempts, (Ops.enqueueUniqueBatchAttempts ds attempts).Calls (S := storeSig) P := by
  intro attempts
  induction attempts with
  | zero => trivial
  | succ attempts ih =>
    refine (calls_txn h).bind fun r => ?_
    split
    · trivial
    · exact ih
    · trivial

theorem calls_of_isEnqueue {call : StoreCall} (h : call.isEnqueue = true)
    (codec : MetadataCodec) : (call.prog codec).Calls fun op => StoreOp.enqueues op = true := by
  have htxn : ∀ {op : StoreOp}, op.enqueues = true →
      (txn op).Calls fun op => StoreOp.enqueues op = true :=
    fun hop => calls_txn (P := fun op => op.enqueues = true) hop
  cases call <;> simp only [StoreCall.isEnqueue, Bool.false_eq_true] at h
  case enqueue d => exact Calls.bind (htxn rfl |>.bind fun _ => trivial) fun _ => trivial
  case enqueueBatch ds => exact Calls.bind (htxn rfl |>.bind fun _ => trivial) fun _ => trivial
  case enqueueDebounced d options =>
    refine .bind ?_ fun _ => trivial
    unfold Ops.enqueueDebounced
    split
    · trivial
    · exact htxn rfl |>.bind fun _ => trivial
  case enqueueUnique d =>
    exact Calls.bind (calls_enqueueUniqueAttempts (P := fun op => op.enqueues = true) rfl
      (fun _ => rfl) 3) fun _ => trivial
  case enqueueUniqueBatch ds =>
    exact .bind (calls_enqueueUniqueBatchAttempts (P := fun op => op.enqueues = true) rfl 3)
      fun _ => trivial

end Clients

/-! ## Runs -/

section Runs

variable {σ τ : Type} [DecidableEq σ] [DecidableEq τ] (cfg : σ → Scheduler)
  (codec : MetadataCodec)

/-- The ids an operation draws for new jobs are not the ids of stored jobs. -/
abbrev SchedOp.Fresh (op : SchedOp σ) (db : Db) : Prop := ∀ o ∈ op.transaction, o.Fresh db

def StoreOp.deadLetters : StoreOp → Option JobId
  | deadLetter job _ _ _ _ _ _ => some job.id
  | _ => none

/-- Where the operation is a dead-letter transaction, its job is still live. -/
abbrev SchedOp.DeadLettersLive (op : SchedOp σ) (db : Db) : Prop :=
  ∀ o ∈ op.transaction, ∀ id ∈ o.deadLetters, db.Live id

/-- Any number of schedulers work on the store, with any results at any time, while other
clients enqueue jobs. -/
abbrev schedulerRules (τ : Type) : Rules (schedMachine σ) (schedClients cfg codec) τ where
  mayStart _ _ call := ∀ c, call = .client c → c.isEnqueue = true
  mayStep st _ op _ := SchedOp.Fresh op st.db

/-- The same, when a dead-letter transaction only runs while its job is live. -/
abbrev guardedDlqRules (τ : Type) : Rules (schedMachine σ) (schedClients cfg codec) τ where
  mayStart _ _ call := ∀ c, call = .client c → c.isEnqueue = true
  mayStep st _ op _ := SchedOp.Fresh op st.db ∧ SchedOp.DeadLettersLive op st.db

variable {cfg codec}

/-- The tables partition the jobs, and what a thread cascades from did not complete. -/
def CascadeInv (st : SchedState σ) (known : τ → Option JobId) : Prop :=
  Partition st.db ∧ ∀ t root, known t = some root →
    ∃ row, st.db.archivedJobs.find root = some row ∧ row.status ≠ .complete

theorem not_purge_of_cascadesFrom (h : op.CascadesFrom known) (p : ArchivePurge) :
    ¬ op.Effects (.purge p) := by
  intro he
  cases op <;> simp [StoreOp.Effects] at he
  cases h

/-- A permitted transaction of a guarded run leaves completed jobs alone. -/
theorem leavesAlone_of_cascadesFrom (hp : Partition db)
    (hknown : ∀ root, known = some root → ∃ row, db.archivedJobs.find root = some row ∧
      row.status ≠ .complete) (h : op.CascadesFrom known)
    (hlive : ∀ id ∈ op.deadLetters, db.Live id) (hj : db.Complete j) (he : op.Effects e) :
    e.LeavesAlone j := by
  cases op with
  | cascadeArchive =>
    obtain ⟨rfl, rfl⟩ := h
    refine leavesAlone_of_cascade (fun hroot => ?_) he
    subst hroot
    obtain ⟨_, hrow, hst⟩ := hknown _ rfl
    obtain ⟨_, hr, hst'⟩ := hj
    rw [hrow] at hr
    cases hr
    exact hst hst'
  | deadLetter job =>
    exact leavesAlone_of_deadLetter hp hj (hlive job.id rfl) he
  | _ => exact leavesAlone_of_routine h j he

omit [DecidableEq σ] in
theorem obeys_call {call : Sched.Call σ} (h : ∀ c, call = .client c → c.isEnqueue = true) :
    Prog.Obeys (cascadeDiscipline σ) (call.prog cfg codec) := by
  cases call with
  | client c =>
    refine .bind ?_ fun _ => .ret _
    have hcalls := (calls_of_isEnqueue (h c rfl) codec).guarded (T := schedSig σ)
      (f := client) (g := fun _ r => some r)
      (Q := fun op => ∀ o ∈ transaction op, o.routine = true) (fun op hop o ho => by
        cases ho
        exact routine_of_enqueues hop)
    exact hcalls.obeys fun op hop known o ho => cascadesFrom_of_routine (hop o ho) known
  | handleResult => exact obeys_handleResult.bind fun _ => .ret _
  | handleResults => exact obeys_handleResults.bind fun _ => .ret _
  | reapStale => exact obeys_reapStale
  | recoverOrphanedJobs => exact obeys_recoverOrphanedJobs
  | tryDispatch => exact obeys_tryDispatch
  | tryDispatchBatch => exact obeys_tryDispatchBatch
  | stop => exact obeys_ask rfl

theorem known_deadLettered {op : SchedOp σ} {w : World} {st : SchedState σ}
    (hlive : SchedOp.DeadLettersLive op st.db)
    (hknown : ∀ root, known = some root → ∃ row, (op.exec w st).2.db.archivedJobs.find root
      = some row ∧ row.status ≠ .complete)
    {root : JobId} (h : deadLettered known op (op.exec w st).1 = some root) :
    ∃ row, (op.exec w st).2.db.archivedJobs.find root = some row ∧ row.status ≠ .complete := by
  unfold deadLettered at h
  split at h
  · next _ _ job _ _ _ _ _ _ hr =>
    cases h
    obtain ⟨hok, hst⟩ := exec_store hr
    rw [hst]
    obtain ⟨row, hrow, hdead⟩ := archived_of_deadLetter (hlive _ rfl job.id rfl) hok.symm
    exact ⟨row, hrow, by rw [hdead]; decide⟩
  · exact hknown root h

theorem cascade_sound :
    Pool.Sound (guardedDlqRules cfg codec τ) (cascadeDiscipline σ) CascadeInv where
  start st known t call hinv _ hcall := by
    refine ⟨none, ⟨hinv.1, fun u root hu => ?_⟩, (obeys_call hcall) none⟩
    exact hinv.2 u root (found_of_none hu)
  step st known t op w hinv hperm hstep := by
    obtain ⟨hfresh, hlive⟩ := hstep
    -- archived rows stay, so what any thread knows stays true
    have hkeep : ∀ u root, known u = some root →
        ∃ row, (exec op w st).2.db.archivedJobs.find root = some row ∧
          row.status ≠ .complete := by
      intro u root hu
      obtain ⟨row, hrow, hst⟩ := hinv.2 u root hu
      obtain hdb | ⟨o, ho, hdb⟩ := exec_db op w st
      · exact ⟨row, hdb ▸ hrow, hst⟩
      · rw [hdb]
        exact ⟨row, archived_kept (not_purge_of_cascadesFrom (hperm o ho)) hrow, hst⟩
    refine ⟨trivial, ?_, fun u root hu => ?_⟩
    · obtain hdb | ⟨o, ho, hdb⟩ := exec_db op w st
      · exact hdb ▸ hinv.1
      · exact hdb ▸ hinv.1.exec (hfresh o ho)
    · by_cases hut : u = t
      · subst hut
        rw [update_self] at hu
        exact known_deadLettered hlive (hkeep u) hu
      · rw [update_of_ne hut] at hu
        exact hkeep u root hu

theorem settled_step {c c' : Pool (schedMachine σ) τ} {known : τ → Option JobId}
    (hc : Pool.Certified (cascadeDiscipline σ) CascadeInv c known)
    (h : Pool.Step (guardedDlqRules cfg codec τ) c c') (hj : c.state.db.Complete j) :
    Settled j c.state.db c'.state.db := by
  obtain ⟨t, _, -, -, rfl⟩ | ⟨t, op, _, w, hprog, hstep, rfl⟩ := Pool.step_cases h
  · exact .refl j _
  · obtain hdb | ⟨o, ho, hdb⟩ := exec_db op w c.state
    · exact hdb ▸ .refl j _
    · rw [show (exec op w c.state).2.db = _ from hdb]
      refine .exec hj fun e he => ?_
      exact leavesAlone_of_cascadesFrom hc.inv.1 (hc.inv.2 t) (hc.permits hprog o ho)
        (hstep.2 o ho) hj he

/-- **Once a job is archived as complete, the rest of the run leaves it alone** — as long as
every dead-letter transaction of the run finds its job live. -/
theorem completed_stays {st : SchedState σ} (hst : Partition st.db) {c c' : Pool (schedMachine σ) τ}
    (h : Pool.Reaches (guardedDlqRules cfg codec τ) (Pool.idle st) c) {j : JobId}
    (hj : c.state.db.Complete j) (h' : Pool.Reaches (guardedDlqRules cfg codec τ) c c') :
    Settled j c.state.db c'.state.db := by
  have hidle : Pool.Certified (cascadeDiscipline σ) CascadeInv (.idle st : Pool (schedMachine σ) τ)
      fun _ => none := .idle ⟨hst, nofun⟩ fun _ => trivial
  have hsound : Pool.Sound (guardedDlqRules cfg codec τ) (cascadeDiscipline σ) CascadeInv :=
    cascade_sound
  obtain ⟨known, hc⟩ := hsound.reachable hidle h
  obtain ⟨r, hr, hrst⟩ := hj
  -- along the later run: the pool stays certified, and the job stays complete and untouched
  suffices hlater : (∃ known, Pool.Certified (cascadeDiscipline σ) CascadeInv c' known) ∧
      Settled j c.state.db c'.state.db from hlater.2
  induction h' with
  | refl => exact ⟨⟨known, hc⟩, .refl j _⟩
  | tail _ hs ih =>
    obtain ⟨⟨_, hc'⟩, hset⟩ := ih
    refine ⟨hsound.certified_step hc' hs, hset.trans (settled_step hc' hs ?_)⟩
    exact ⟨r, hset.archived.trans hr, hrst⟩

end Runs

/-! ## A late timeout -/

instance {σ : Type} (call : Sched.Call σ) :
    Decidable (∀ c, call = .client c → c.isEnqueue = true) := by
  cases call with
  | client c => exact decidable_of_iff (c.isEnqueue = true) (by simp)
  | _ => exact isTrue (by simp)

/-- A scheduler of one queue without any policy. -/
def plainScheduler (owner : String) : Scheduler where
  namespace_ := none
  claimOwner := owner
  queues := ["q"]
  taskConfigs _ := none
  queueConfigs _ := none
  dispatchOrders _ := .fifo
  codelTargets _ := none
  batchSize := 1
  maxInFlight := none
  codec := plainCodec
  fuel := 4

def soloScheduler (_ : Unit) : Scheduler := plainScheduler "w"

/-- Two threads of it: the loop (`true`), and the one that drains results (`false`). -/
abbrev SoloMove := Move (schedMachine Unit) (schedClients soloScheduler plainCodec) Bool

/-- A number of steps of a thread, all at one time. -/
def steps (t : Bool) (now : Int) (n : Nat) : List SoloMove :=
  List.replicate n (.step t { World.calm with number := now })

/-- A job without retries is enqueued and dispatched, and its timeout is selected: the loop has
still to handle it. -/
def untilTimeoutSelected : List SoloMove :=
  [.start true (.client (.enqueue
    ⟨{ NewJob.plain "q" "t" with timeoutMs := 10, maxRetries := 0 }, "a", 0⟩))] ++
  steps true 0 1 ++ [.start true (.tryDispatch ())] ++ steps true 1 8 ++
  [.start true (.reapStale ())] ++ steps true 20 4

/-- The worker reports success and the job completes. -/
def successHandled : List SoloMove :=
  [.start false (.handleResult () 0 (.success ⟨"a", none, "t", 5⟩))] ++ steps false 21 7

/-- In between, a second job is enqueued and dispatched; the first stays as it is. -/
theorem completed_stays_sample :
    ∃ c c', Pool.Reaches (guardedDlqRules soloScheduler plainCodec Bool)
        (Pool.idle (SchedState.init Db.empty)) c ∧
      c.state.db.Complete "a" ∧
      Pool.Reaches (guardedDlqRules soloScheduler plainCodec Bool) c c' ∧
      c'.state.db.Running "b" ∧ Settled "a" c.state.db c'.state.db := by
  obtain ⟨c, hc, hj, hrun⟩ := Pool.exists_reaches (guardedDlqRules soloScheduler plainCodec Bool)
    (Pool.idle (SchedState.init Db.empty)) (untilTimeoutSelected ++ successHandled)
    (fun c => c.state.db.Complete "a" ∧
      (Pool.runAllowed (guardedDlqRules soloScheduler plainCodec Bool) c
        ([.start false (.client (.enqueue ⟨NewJob.plain "q" "t", "b", 21⟩))] ++ steps false 21 1 ++
        [.start false (.tryDispatch ())] ++ steps false 22 8)).any
          (fun c' => c'.state.db.Running "b") = true)
    (by decide +kernel)
  obtain ⟨c', hc', hb⟩ := (any_eq_true _ _).1 hrun
  have hlater := Pool.reaches_of_runAllowed hc'
  exact ⟨c, c', hc, hj, hlater, of_decide_eq_true hb,
    completed_stays partition_empty hc hj hlater⟩

/-- The timeout is handled after all: the scheduler has no record of the job any more, so nothing
is checked, and the completed job is dead-lettered. -/
theorem completed_stays_broken :
    ¬ ∀ (c c' : Pool (schedMachine Unit) Bool) (j : JobId),
      Pool.Reaches (schedulerRules soloScheduler plainCodec Bool)
        (Pool.idle (SchedState.init Db.empty)) c → c.state.db.Complete j →
      Pool.Reaches (schedulerRules soloScheduler plainCodec Bool) c c' →
      Settled j c.state.db c'.state.db := by
  intro hall
  obtain ⟨c, hc, hj, hrun⟩ := Pool.exists_reaches (schedulerRules soloScheduler plainCodec Bool)
    (.idle (.init .empty)) (untilTimeoutSelected ++ successHandled)
    (fun c => c.state.db.Complete "a" ∧
      (Pool.runAllowed (schedulerRules soloScheduler plainCodec Bool) c (steps true 22 9)).any
        (fun c' => ∃ d ∈ c'.state.db.deadLetter.rows,
          d.originalJobId = "a" ∧ d ∉ c.state.db.deadLetter.rows) = true)
    (by decide +kernel)
  obtain ⟨c', hc', hdead⟩ := (any_eq_true _ _).1 hrun
  obtain ⟨d, hd, horig, hnew⟩ := of_decide_eq_true hdead
  have hset := hall c c' "a" hc hj (Pool.reaches_of_runAllowed hc')
  exact hnew (hset.deadLetter d hd horig)

end Flexiq
