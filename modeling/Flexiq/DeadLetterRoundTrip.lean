import Flexiq.EffectSound
import Flexiq.ResultHandler
import Flexiq.CascadeClosure

/-!
# Dead letters and back

A failed job that is out of retries is copied into a dead-letter entry; an operator's retry
copies the entry into a fresh job. What survives the two copies is `SameWork`: everything that
says what the job does and how it may run. The metadata survives with one field set, the count
of resurrections — unless the caller of the dead-letter move passes metadata of its own, which
takes the place of the job's. The failure path does so in one case, a job that the retry budget
refused: its entry carries the marker `retry_budget_exhausted`, which is not a JSON object, and
the fresh job starts from the empty object.

The JSON library stays a parameter. `round_trip` follows a failure through the handler, under
any answers of the world, to every entry it writes, and each such entry through a retry from any
later store that still holds it.
-/

namespace Flexiq

variable {db : Db} {metadata : Option String}

/-! ## Metadata -/

abbrev JsonObject (V : Type) := AList fun _ : String => V

/-- The JSON library, as far as job metadata needs it. -/
structure JsonCodec (V : Type) where
  parseObject : String → Option (JsonObject V)
  printObject : JsonObject V → String
  ofInt : Int → V
  /-- The value as a 64-bit integer. -/
  asInt : V → Option Int
  marker : parseObject Sched.retryBudgetExhausted = none

def dlqRetryCountField : String := "__dlq_retry_count"

/-- The object in a job's metadata; the empty one when there is none. -/
def JsonCodec.object {V : Type} (J : JsonCodec V) (metadata : Option String) : JsonObject V :=
  (metadata.bind J.parseObject).getD ∅

/-- What the queue does with job metadata. The count is cut to 32 bits when it is read. -/
def JsonCodec.metadataCodec {V : Type} (J : JsonCodec V) : MetadataCodec where
  dlqRetryCount metadata :=
    ((((J.object metadata).lookup dlqRetryCountField).bind J.asInt).getD 0).bmod (2 ^ 32)
  withDlqRetryCount metadata count :=
    J.printObject ((J.object metadata).insert dlqRetryCountField (J.ofInt count))

/-! ## Entries -/

/-- The two jobs are the same work: they run the same task on the same payload under the same
limits, for the same tenant. -/
structure SameWork (job new : Job) : Prop where
  queue : new.queue = job.queue
  taskName : new.taskName = job.taskName
  payload : new.payload = job.payload
  priority : new.priority = job.priority
  maxRetries : new.maxRetries = job.maxRetries
  timeoutMs : new.timeoutMs = job.timeoutMs
  notes : new.notes = job.notes
  namespace_eq : new.namespace_ = job.namespace_
  resultTtlMs : new.resultTtlMs = job.resultTtlMs

/-- Every dead-letter entry that the transaction writes satisfies `E`. -/
def StoreOp.Enters (E : DeadLetterRow → Prop) (op : StoreOp) : Prop :=
  ∀ entry, op.Effects (.deadLetter entry) → E entry

/-- The entries of the store are old ones or satisfy `E`. -/
def OldOr (old : Table deadLetterSchema) (E : DeadLetterRow → Prop) (db : Db) : Prop :=
  ∀ entry ∈ db.deadLetter.rows, entry ∈ old.rows ∨ E entry

variable {old : Table deadLetterSchema} {E : DeadLetterRow → Prop}

theorem OldOr.of_effect {db' : Db} (h : OldOr old E db) {e : Effect}
    (he : ∀ entry, e = .deadLetter entry → E entry) (hs : e.Holds db db') : OldOr old E db' := by
  intro entry hentry
  obtain hold | heq := deadLetter_of_effect hs hentry
  · exact h entry hold
  · exact Or.inr (he entry heq)

theorem OldOr.exec (h : OldOr old E db) {op : StoreOp} (hop : op.Enters E) :
    OldOr old E (op.exec db).2 :=
  (exec_effects op db).invariant
    (fun _ _ _ he hs hold => hold.of_effect (fun entry heq => hop entry (heq ▸ he)) hs) h

/-! ## The failure path -/

section Failure

variable {σ : Type} [DecidableEq σ]
variable {st : SchedState σ}

/-- The world may answer anything. -/
abbrev anyWorld : (schedMachine σ).State → (schedSig σ).Op → (schedMachine σ).Env → Prop :=
  fun _ _ _ => True

/-- What the operation runs on the store, if anything, satisfies `P`. -/
def SchedOp.Runs (P : StoreOp → Prop) (op : SchedOp σ) : Prop :=
  ∀ o ∈ op.transaction, P o

omit [DecidableEq σ] in
theorem runs_ask {P : StoreOp → Prop} {op : SchedOp σ} (h : op.transaction = none) :
    (ask op).Calls (SchedOp.Runs P) :=
  .perform fun o ho => by rw [h] at ho; cases ho

omit [DecidableEq σ] in
theorem runs_storage {α : Type} {P : StoreOp → Prop} {p : StoreProg α}
    (h : p.Calls (S := storeSig) P) (s : σ) (why : Cause) :
    (storage s why p).Calls (SchedOp.Runs P) := by
  refine h.guarded fun op hop o ho => ?_
  cases Option.mem_some_iff.1 ho
  exact hop

variable {α : Type} {P : StoreOp → Prop}

omit [DecidableEq σ] in
theorem runs_attempt {p : StoreProg (Except QueueError α)} (h : p.Calls (S := storeSig) P) (s : σ)
    (why : Cause) : (attempt s why p).Calls (SchedOp.Runs P) :=
  (runs_storage h s why).bind fun _ => trivial

/-- What every transaction of a program keeps of the store, the program keeps. -/
theorem ensures_runs {R : Db → Prop} {p : SchedProg σ α} (hp : p.Calls (SchedOp.Runs P))
    (hstep : ∀ op db, P op → R db → R (op.exec db).2) (hst : R st.db) :
    p.Ensures (M := schedMachine σ) anyWorld st fun st' _ => R st'.db := by
  refine .of_calls (M := schedMachine σ) (R := fun st => R st.db) hp ?_ hst
  intro op w st hop h
  rcases op.exec_db w st with hsame | ⟨o, ho, hrun⟩
  · rw [hsame]
    exact h
  · rw [hrun]
    exact hstep o st.db (hop o ho) h

theorem exec_side {op : StoreOp} (h : op.isSide = true) (db : Db) :
    (op.exec db).2.jobs = db.jobs ∧ (op.exec db).2.archivedJobs = db.archivedJobs ∧
      (op.exec db).2.deadLetter = db.deadLetter := by
  cases op with
  | getJob | recordError | recordMetric | authorizeAttempt | dependents | reapStaleJobs
  | countRunningByTask | countRunningByQueue => exact ⟨rfl, rfl, rfl⟩
  | _ => cases h

variable {V : Type} (J : JsonCodec V) (cfg : σ → Scheduler) (s : σ) (why : Cause) (f : Failure)

/-- The retry budget is what stands between the failed run and its retry. -/
def Failure.onBudget (f : Failure) : Bool := f.shouldRetry && decide (f.retryCount < f.maxRetries)

/-- The metadata that the failure path passes to the dead-letter move. -/
def Failure.dlqMetadata (f : Failure) : Option String :=
  if f.onBudget then some Sched.retryBudgetExhausted else none

def Failure.Entry (f : Failure) (codec : MetadataCodec) (job : Job) (entry : DeadLetterRow) :
    Prop :=
  ∃ dlqId now, entry =
    job.toDeadLetter dlqId f.error f.dlqMetadata (codec.dlqRetryCount job.metadata) false now

variable {s f}

omit [DecidableEq σ] in
theorem runs_deadLetter {job : Job} {error : String} {shed : Bool}
    (hE : ∀ dlqId now, E (job.toDeadLetter dlqId error metadata ((cfg s).codec.dlqRetryCount
      job.metadata) shed now)) :
    (Sched.deadLetter cfg s why job error metadata shed).Calls
      (SchedOp.Runs (StoreOp.Enters E)) := by
  refine (runs_ask rfl).bind fun dlqId => (runs_ask rfl).bind fun now => runs_attempt ?_ s why
  refine (calls_txn fun entry he => ?_).bind fun r => ?_
  · rcases he with heq | ⟨row, -, heq⟩
    · cases heq
      exact hE dlqId now
    · cases heq
  · rcases r with _ | _
    · trivial
    · refine (calls_collectDependents (fun id entry he => he.elim) ..).bind fun found => ?_
      rcases found with _ | queue
      · trivial
      dsimp only
      split
      · trivial
      · refine calls_txn fun entry he => ?_
        obtain ⟨row, -, -, heq⟩ := he
        cases heq

omit [DecidableEq σ] in
theorem runs_moveToDlq {job : Option Job} (hmetadata : metadata = f.dlqMetadata) :
    (Sched.moveToDlq cfg s why f job metadata).Calls (SchedOp.Runs (StoreOp.Enters fun entry =>
      ∃ j, job = some j ∧ f.Entry (cfg s).codec j entry)) := by
  subst hmetadata
  rcases job with _ | job
  · refine (runs_storage ?_ s why).bind fun _ => trivial
    exact calls_completeExecution (fun entry he => he.elim) fun entry he => by cases he
  · refine (runs_deadLetter cfg why fun dlqId now => ⟨job, rfl, dlqId, now, rfl⟩).bind fun r => ?_
    rcases r with _ | _ <;> trivial

omit [DecidableEq σ] in
theorem runs_retryJob (queue : String) :
    (Sched.retryJob cfg s why f queue).Calls (SchedOp.Runs (StoreOp.Enters E)) := by
  refine (runs_ask rfl).bind fun next => (runs_attempt (calls_txn fun entry he => ?_) s why).bind
    fun r => ?_
  · rcases he with heq | ⟨_, -, -, heq⟩
    · cases heq
    · cases heq
  · rcases r with _ | _ <;> trivial

variable {p : SchedProg σ α}

omit [DecidableEq σ] in
theorem runs_side (h : SideOnly p) : p.Calls (SchedOp.Runs fun op => op.isSide = true) := by
  refine h.mono fun op hop o ho => ?_
  cases op with
  | store =>
    cases Option.mem_some_iff.1 ho
    exact hop
  | client => cases hop
  | _ => cases ho

/-- The jobs and the dead-letter entries are as they were. -/
def Db.Kept (db db' : Db) : Prop :=
  db'.jobs = db.jobs ∧ db'.archivedJobs = db.archivedJobs ∧ db'.deadLetter = db.deadLetter

theorem ensures_kept (hp : p.Calls (SchedOp.Runs fun op => op.isSide = true))
    (hst : db.Kept st.db) :
    p.Ensures (M := schedMachine σ) anyWorld st fun st' _ => db.Kept st'.db := by
  refine ensures_runs hp (fun op db' hop h => ?_) hst
  obtain ⟨hjobs, harchived, hdead⟩ := exec_side hop db'
  exact ⟨hjobs.trans h.1, harchived.trans h.2.1, hdead.trans h.2.2⟩

omit [DecidableEq σ] in
theorem OldOr.of_kept {db' : Db} (h : db.Kept db') (E : DeadLetterRow → Prop) :
    OldOr db.deadLetter E db' := by
  intro _ hentry
  rw [h.2.2] at hentry
  exact Or.inl hentry

theorem ensures_oldOr {p : SchedProg σ α} (hp : p.Calls (SchedOp.Runs (StoreOp.Enters E)))
    (hst : db.Kept st.db) :
    p.Ensures (M := schedMachine σ) anyWorld st fun st' _ => OldOr db.deadLetter E st'.db :=
  ensures_runs (R := OldOr db.deadLetter E) hp (fun _ _ hop h => h.exec hop) (.of_kept hst E)

/-- The entry is the failure path's copy of the job as `db` has it. -/
def Failure.Copied (f : Failure) (sched : Scheduler) (db : Db) (entry : DeadLetterRow) : Prop :=
  ∃ job, getJob f.jobId sched.namespace_ db = some job ∧ f.Entry sched.codec job entry

theorem ensures_moveToDlq (hst : db.Kept st.db) (hmetadata : metadata = f.dlqMetadata) :
    (Sched.moveToDlq cfg s why f (getJob f.jobId (cfg s).namespace_ db) metadata).Ensures
      (M := schedMachine σ) anyWorld st fun st' _ =>
        OldOr db.deadLetter (f.Copied (cfg s) db) st'.db :=
  ensures_oldOr (runs_moveToDlq cfg why hmetadata) hst

/-- Every entry that the failure path writes is its copy of the job it read. -/
theorem ensures_handleFailure (hst : db.Kept st.db) :
    (Sched.handleFailure cfg s why f).Ensures (M := schedMachine σ) anyWorld st fun st' _ =>
      OldOr db.deadLetter (f.Copied (cfg s) db) st'.db := by
  refine .bind ((ensures_kept
    (runs_side (Sched.quietOnly_recordError cfg s why f).side) hst).mono ?_)
  intro _ _ h₁
  refine .bind ((ensures_kept
    (runs_side (Sched.quietOnly_recordMetric cfg s why ..).side) h₁).mono ?_)
  intro st₂ _ h₂
  refine .bind (.guarded_perform fun w _ => ?_)
  by_cases hfault : w.fault = true
  · -- the read failed: nothing was written
    simp only [SchedOp.exec, storeAnswer, hfault, if_true]
    exact .of_kept h₂ _
  · have hget : getJob f.jobId (cfg s).namespace_ st₂.db =
        getJob f.jobId (cfg s).namespace_ db := by
      simp only [getJob, h₂.1, h₂.2.1]
    simp only [SchedOp.exec, storeAnswer, hfault, StoreOp.exec, hget]
    cases hretry : f.shouldRetry with
    | false =>
      simp only [Bool.not_false, if_true]
      exact ensures_moveToDlq cfg why h₂ (by simp [Failure.dlqMetadata, Failure.onBudget, hretry])
    | true =>
      by_cases hcount : f.retryCount < f.maxRetries
      · simp only [Bool.not_true, Bool.false_eq_true, if_false, if_pos hcount]
        refine .bind ((ensures_kept
          (runs_side (Sched.quietOnly_retryBudgetAllows cfg s f.taskName).side) h₂).mono ?_)
        intro _ allowed h₃
        cases allowed with
        | true => exact ensures_oldOr (runs_retryJob cfg why _) h₃
        | false =>
          exact ensures_moveToDlq cfg why h₃
            (by simp [Failure.dlqMetadata, Failure.onBudget, hretry, hcount])
      · simp only [Bool.not_true, Bool.false_eq_true, if_false, if_neg hcount]
        exact ensures_moveToDlq cfg why h₂
          (by simp [Failure.dlqMetadata, Failure.onBudget, hcount])

omit [DecidableEq σ] in
theorem runs_authorizeFinished (id : JobId) :
    (Sched.authorizeFinished cfg s why id).Calls (SchedOp.Runs fun op => op.isSide = true) := by
  refine (runs_ask rfl).bind fun r => ?_
  rcases r with _ | _
  · trivial
  · refine (runs_storage (sideTxn rfl) s why).bind fun r => ?_
    split <;> trivial

theorem ensures_handleResult (st : SchedState σ) :
    (Sched.handleResult cfg s why (.failure f)).Ensures (M := schedMachine σ) anyWorld st
      fun st' _ => OldOr st.db.deadLetter (f.Copied (cfg s) st.db) st'.db := by
  refine .bind ((ensures_kept (runs_authorizeFinished cfg why _)
    ⟨rfl, rfl, rfl⟩).mono ?_)
  intro _ authorized h₁
  cases authorized with
  | false => exact .of_kept h₁ _
  | true => exact ensures_handleFailure cfg why h₁

end Failure

/-! ## The retry -/

/-- A retry of an entry that is there and visible, under a fresh id, inserts the job of the
entry. -/
theorem ensures_retryDead (codec : MetadataCodec) {entry : DeadLetterRow}
    (hentry : db.deadLetter.find entry.id = some entry) {scope : Option String}
    (hscope : jobInNamespace entry.namespace_ scope = true) {id : JobId}
    (hfresh : db.jobs.find id = none) (now : Int) :
    (Ops.retryDead codec entry.id scope id now).Ensures undisturbed db fun db' r =>
      r = .ok id ∧ db'.jobs.find id = some (entry.draft
        (codec.withDlqRetryCount entry.metadata ((entry.dlqRetryCount + 1).bmod (2 ^ 32))) id
        now).job := by
  refine .bind (.perform fun env _ => ?_)
  simp only [StoreOp.exec, hentry, hscope, Bool.not_true, Bool.false_eq_true, if_false]
  refine .bind (.perform fun env _ => ?_)
  generalize hjob : (entry.draft
    (codec.withDlqRetryCount entry.metadata ((entry.dlqRetryCount + 1).bmod (2 ^ 32))) id now).job =
      job
  have hid : job.id = id := by rw [← hjob]; rfl
  have hindex : jobsSchema.index job = none := by rw [← hjob]; rfl
  obtain ⟨jobs, hins⟩ := Table.insert_of_fresh (t := db.jobs) (r := job)
    (by rw [jobsSchema_key, hid]; exact hfresh) hindex
  have hthere : db.deadLetter.count (fun d => d.id = entry.id) ≠ 0 := by
    intro hzero
    have hnot := Table.count_eq_zero.1 hzero entry (Table.mem_of_find hentry)
    simp at hnot
  have hbody : retryDead job entry.id db = .ok ((), { db with
      jobs
      deadLetter := db.deadLetter.delete fun d => d.id = entry.id }) := by
    rw [retryDead, insertJobRow, hins]
    exact if_neg hthere
  simp only [StoreOp.exec, hjob, writeTransaction_ok _ hbody]
  refine ⟨rfl, ?_⟩
  rw [Table.find_insert hins, jobsSchema_key, hid, if_pos rfl]

/-- A retry of the entry — from any store that holds it, in a scope that sees it, under a fresh
id — succeeds with a job that is the same work as `job`, and whose metadata is the given object
with the count of resurrections set, an `i32` that is one higher. -/
def Revives {V : Type} (J : JsonCodec V) (entry : DeadLetterRow) (job : Job)
    (object : JsonObject V) : Prop :=
  ∀ (db : Db) (scope : Option String) (id : JobId) (now : Int),
    db.deadLetter.find entry.id = some entry → jobInNamespace entry.namespace_ scope = true →
    db.jobs.find id = none →
    (Ops.retryDead J.metadataCodec entry.id scope id now).Ensures undisturbed db fun db' r =>
      r = .ok id ∧ ∃ new, db'.jobs.find id = some new ∧ SameWork job new ∧
        new.metadata = some (J.printObject (object.insert dlqRetryCountField
          (J.ofInt ((J.metadataCodec.dlqRetryCount job.metadata + 1).bmod (2 ^ 32)))))

/-- **Dead letters and back.** Whatever the world answers while a failed run is handled, every
entry this writes is a copy of the job that was stored and revives it. The metadata starts from
the original object, or from the empty one if the retry budget refused the job. -/
theorem dead_letter_round_trip {V : Type} (J : JsonCodec V) {σ : Type} [DecidableEq σ]
    (cfg : σ → Scheduler) (s : σ) (hcodec : (cfg s).codec = J.metadataCodec) (why : Cause)
    (f : Failure) (st : SchedState σ) :
    (Sched.handleResult cfg s why (.failure f)).Ensures (M := schedMachine σ) anyWorld st
      fun st' _ => ∀ entry ∈ st'.db.deadLetter.rows, entry ∉ st.db.deadLetter.rows →
        ∃ job, getJob f.jobId (cfg s).namespace_ st.db = some job ∧
          Revives J entry job (if f.onBudget then ∅ else J.object job.metadata) := by
  refine (ensures_handleResult cfg why st).mono fun st' _ hold entry hentry hnew => ?_
  obtain ⟨job, hjob, dlqId, failedAt, rfl⟩ := (hold entry hentry).resolve_left hnew
  refine ⟨job, hjob, fun db scope id now hthere hscope hfresh => ?_⟩
  refine (ensures_retryDead _ hthere hscope hfresh now).mono fun db' r hr => ?_
  refine ⟨hr.1, _, hr.2, ⟨rfl, rfl, rfl, rfl, rfl, rfl, rfl, rfl, rfl⟩, ?_⟩
  -- the marker of an exhausted budget replaces the metadata, and is not an object
  have hobject : J.object (f.dlqMetadata.or job.metadata) =
      if f.onBudget then ∅ else J.object job.metadata := by
    unfold Failure.dlqMetadata
    split
    · simp [JsonCodec.object, J.marker]
    · rfl
  rw [← hobject, hcodec]
  rfl

/-- A JSON library that knows one text. -/
def tenantJson : JsonCodec Int where
  parseObject text :=
    if text = "\x7b\"tenant\":1\x7d" then some (AList.insert "tenant" 1 ∅) else none
  printObject object := "\x7b" ++ ",".intercalate
    (object.entries.map fun e => "\"" ++ e.1 ++ "\":" ++ toString e.2) ++ "\x7d"
  ofInt n := n
  asInt n := some n
  marker := by decide

/-- A scheduler with a retry budget on every task. -/
def budgetedScheduler : Scheduler where
  namespace_ := none
  claimOwner := "w"
  queues := ["q"]
  taskConfigs _ := some ⟨false, .defer, false, true, none, none⟩
  queueConfigs _ := none
  dispatchOrders _ := .fifo
  codelTargets _ := none
  batchSize := 1
  maxInFlight := none
  codec := tenantJson.metadataCodec
  fuel := 2

/-- A running job whose metadata names its tenant. -/
def tenantJob : Job :=
  ({ NewJob.plain "q" "t" with metadata := some "\x7b\"tenant\":1\x7d" }.intoJob "a" 0).started 1

def tenantStore : Db := { Db.empty with jobs := ⟨[tenantJob], by decide, by decide⟩ }

/-- Its first run fails. -/
def tenantFailure : Failure := ⟨"a", "boom", 0, 3, "t", 5, true, false⟩

/-- The retry budget refuses, and the entry gets the id `d`. -/
def refusingWorld : World := { World.calm with flag := false, text := "d" }

/-- A failure that must not be retried: the entry `d` is written, and retrying it revives the job
with its metadata. -/
theorem dead_letter_round_trip_tenant :
    budgetedScheduler.codec = tenantJson.metadataCodec ∧
    ((Sched.handleResult (fun _ : Unit => budgetedScheduler) () .loop
      (.failure { tenantFailure with shouldRetry := false })).Ensures (M := schedMachine Unit)
      anyWorld (.init tenantStore) fun st' _ =>
        ∀ entry ∈ st'.db.deadLetter.rows, entry ∉ tenantStore.deadLetter.rows →
          ∃ job, getJob "a" none tenantStore = some job ∧
            Revives tenantJson entry job (tenantJson.object job.metadata)) ∧
    ∃ outcome st', (Sched.handleResult (fun _ : Unit => budgetedScheduler) () .loop
      (.failure { tenantFailure with shouldRetry := false })).Returns (schedMachine Unit)
        anyWorld (.init tenantStore) outcome st' ∧
      st'.db.deadLetter.rows.map DeadLetterRow.id = ["d"] := by
  refine ⟨rfl, ?_, ?_⟩
  · exact dead_letter_round_trip tenantJson (fun _ => budgetedScheduler) () rfl .loop
      { tenantFailure with shouldRetry := false } (.init tenantStore)
  · exact Prog.exists_returns anyWorld _ _ (.replicate 12 refusingWorld) _ (by decide +kernel)

/-- A job that the retry budget refuses comes back without its metadata. -/
theorem metadata_lost_on_exhausted_budget :
    ∃ outcome st' r db',
      (Sched.handleResult (fun _ : Unit => budgetedScheduler) () .loop
        (.failure tenantFailure)).Returns (schedMachine Unit) anyWorld (.init tenantStore)
        outcome st' ∧
      (Ops.retryDead tenantJson.metadataCodec "d" none "b" 9).Returns storeMachine undisturbed
        st'.db r db' ∧
      r = .ok "b" ∧ tenantJson.object tenantJob.metadata = AList.insert "tenant" 1 ∅ ∧
      (db'.jobs.find "b").bind Job.metadata = some "\x7b\"__dlq_retry_count\":1\x7d" := by
  obtain ⟨outcome, st', hfirst, hany⟩ := Prog.exists_returns anyWorld
    (Sched.handleResult (fun _ => budgetedScheduler) () .loop (.failure tenantFailure))
    (.init tenantStore) (.replicate 12 refusingWorld)
    (fun _ st' => ((Ops.retryDead tenantJson.metadataCodec "d" none "b" 9).runAlone undisturbed
      st'.db [(), ()]).any (fun r => r.1 = .ok "b" ∧
        (r.2.jobs.find "b").bind Job.metadata = some "\x7b\"__dlq_retry_count\":1\x7d") = true)
    (by decide +kernel)
  obtain ⟨⟨r, db'⟩, hsecond, hP⟩ := (Option.any_eq_true _ _).1 hany
  obtain ⟨hr, hlost⟩ := of_decide_eq_true hP
  exact ⟨outcome, st', r, db', hfirst, Prog.returns_of_runAlone hsecond, hr, rfl, hlost⟩

end Flexiq
