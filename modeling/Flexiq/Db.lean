import Flexiq.Table
import Flexiq.Job

/-!
# The relational store

The tables of the SQL backends, with the constraints their migrations declare — the primary
keys, the **partial unique index** on `unique_key` over pending and running jobs, and the
unique `(job_id, seq)` and `(job_id, step_key)` of a job's steps — and the few statements
that every operation is written with.

A write transaction runs to its end or not at all: `writeTransaction` keeps the state of a
body that fails. Operations are written as such bodies, in `Except`, so an early `?` of the
source is a bind here.
-/

namespace Flexiq

/-- One dependency edge: `jobId` waits for `dependsOn`. -/
structure JobDependency where
  jobId : JobId
  dependsOn : JobId
  deriving DecidableEq

structure ExecutionClaim where
  jobId : JobId
  workerId : String
  claimedAt : Int
  deriving DecidableEq

structure JobStepRow where
  jobId : JobId
  /-- Copied from the job the write resolved its fence against. -/
  namespace_ : Option String
  stepKey : String
  seq : Int
  kind : StepKind
  result : Option Bytes
  resultLen : Nat
  wakeAt : Option Int
  createdAt : Int
  deriving DecidableEq

structure DeadLetterRow where
  id : String
  originalJobId : JobId
  queue : String
  taskName : String
  payload : Bytes
  error : Option String
  retryCount : Int
  failedAt : Int
  metadata : Option String
  notes : Option String
  priority : Int
  maxRetries : Int
  timeoutMs : Int
  resultTtlMs : Option Int
  namespace_ : Option String
  dlqRetryCount : Int
  shed : Bool
  deriving DecidableEq

/-- A recorded failure of one attempt. -/
structure JobErrorRow where
  jobId : JobId
  attempt : Int
  error : String
  failedAt : Int
  deriving DecidableEq

/-- A recorded execution metric. -/
structure TaskMetricRow where
  taskName : String
  jobId : JobId
  wallTimeNs : Int
  memoryBytes : Int
  succeeded : Bool
  recordedAt : Int
  namespace_ : Option String
  deriving DecidableEq

/-- `jobs`: keyed by id; `unique_key` is unique among pending and running rows. -/
def jobsSchema : Schema Job JobId String where
  key := Job.id
  index job := if job.status.isTerminal then none else job.uniqueKey

/-- `archived_jobs`: keyed by id. -/
def archivedJobsSchema : Schema Job JobId Unit where
  key := Job.id
  index _ := none

/-- `execution_claims`: one claim a job. -/
def executionClaimsSchema : Schema ExecutionClaim JobId Unit where
  key := ExecutionClaim.jobId
  index _ := none

/-- `job_steps`: a position and a step key are each used once within a job. -/
def jobStepsSchema : Schema JobStepRow (JobId × Int) (JobId × String) where
  key row := (row.jobId, row.seq)
  index row := some (row.jobId, row.stepKey)

/-- `dead_letter`: keyed by its own id. -/
def deadLetterSchema : Schema DeadLetterRow String Unit where
  key := DeadLetterRow.id
  index _ := none

@[simp] theorem jobsSchema_key (j : Job) : jobsSchema.key j = j.id := rfl
@[simp] theorem executionClaimsSchema_key (c : ExecutionClaim) :
    executionClaimsSchema.key c = c.jobId := rfl

/-- The state of the store. -/
structure Db where
  jobs : Table jobsSchema
  archivedJobs : Table archivedJobsSchema
  jobDependencies : List JobDependency
  jobSteps : Table jobStepsSchema
  executionClaims : Table executionClaimsSchema
  deadLetter : Table deadLetterSchema
  jobErrors : List JobErrorRow
  taskMetrics : List TaskMetricRow
  deriving DecidableEq

/-- The store after its migrations have run. -/
def Db.empty : Db where
  jobs := .empty
  archivedJobs := .empty
  jobDependencies := []
  jobSteps := .empty
  executionClaims := .empty
  deadLetter := .empty
  jobErrors := []
  taskMetrics := []

/-- The body of a transaction: an answer and the next state, or an error. -/
abbrev Txn (α : Type) := Db → Except QueueError (α × Db)

/-- Run a body atomically: an error leaves the store as it was. -/
def writeTransaction {α : Type} (body : Txn α) (db : Db) : Except QueueError α × Db :=
  match body db with
  | .ok (a, db') => (.ok a, db')
  | .error e => (.error e, db)

variable {α : Type}

theorem writeTransaction_cases (body : Txn α) (db : Db) :
    (∃ e, body db = .error e ∧ writeTransaction body db = (.error e, db)) ∨
    (∃ a db', body db = .ok (a, db') ∧ writeTransaction body db = (.ok a, db')) := by
  unfold writeTransaction
  rcases body db with e | ⟨a, db'⟩
  · exact Or.inl ⟨e, rfl, rfl⟩
  · exact Or.inr ⟨a, db', rfl, rfl⟩

theorem writeTransaction_ok (body : Txn α) {db db' : Db} {a : α} (h : body db = .ok (a, db')) :
    writeTransaction body db = (.ok a, db') := by
  rw [writeTransaction, h]

theorem writeTransaction_body {body : Txn α} {db : Db} {a : α}
    (h : (writeTransaction body db).1 = .ok a) :
    body db = .ok (a, (writeTransaction body db).2) := by
  obtain ⟨e, -, hw⟩ | ⟨b, db', hbody, hw⟩ := writeTransaction_cases body db
  · rw [hw] at h
    cases h
  · rw [hw] at h ⊢
    cases h
    exact hbody

/-! ## Statements -/

def insertJobRow (row : Job) (db : Db) : Except QueueError Db :=
  match db.jobs.insert row with
  | some jobs => .ok { db with jobs }
  | none => .error (.storage .uniqueViolation)

/-- Insert one dependency edge for each id in `dependsOn`. -/
def insertDependencyRows (jobId : JobId) (dependsOn : List JobId) (db : Db) : Db :=
  { db with jobDependencies := db.jobDependencies ++ dependsOn.map (⟨jobId, ·⟩) }

def deleteClaim (jobId : JobId) (db : Db) : Db :=
  { db with executionClaims := db.executionClaims.delete fun c => c.jobId = jobId }

/-- Move an already-loaded row into `archived_jobs` and out of `jobs`, taking the job's steps
and its execution claim with it. -/
def archiveJobRow (row : Job) (db : Db) : Except QueueError Db :=
  match db.archivedJobs.insert row.toArchived with
  | none => .error (.storage .uniqueViolation)
  | some archivedJobs =>
    .ok { db with
      archivedJobs
      jobs := db.jobs.delete fun j => j.id = row.id
      jobSteps := db.jobSteps.delete fun s => s.jobId = row.id
      executionClaims := db.executionClaims.delete fun c => c.jobId = row.id }

def dependencyIds (db : Db) (jobId : JobId) : List JobId :=
  (db.jobDependencies.filter fun e => e.jobId = jobId).map JobDependency.dependsOn

/-- Whether every dependency of a job lets it run. A dependency blocks while it is live and
not complete, and also when it was archived in another state than complete; one that is in
neither table does not block. -/
def depsSatisfied (db : Db) (jobId : JobId) : Bool :=
  let depJobIds := dependencyIds db jobId
  let liveIncomplete := db.jobs.count fun j => j.id ∈ depJobIds ∧ j.status ≠ .complete
  let archivedIncomplete :=
    db.archivedJobs.count fun j => j.id ∈ depJobIds ∧ j.status ≠ .complete
  depJobIds.isEmpty || liveIncomplete + archivedIncomplete == 0

/-- Check that a dependency exists, shares the namespace and can still be waited for: a live
job that is not dead or cancelled, or an archived one that completed. -/
def validateDependency (depId : JobId) (namespace_ : Option String) (db : Db) :
    Except QueueError Unit :=
  match db.jobs.find depId with
  | some d =>
    if d.status = .dead ∨ d.status = .cancelled ∨ d.namespace_ ≠ namespace_ then
      .error (.storage .rollbackTransaction)
    else .ok ()
  | none =>
    match db.archivedJobs.find depId with
    | some a =>
      if a.status = .complete ∧ a.namespace_ = namespace_ then .ok ()
      else .error (.storage .rollbackTransaction)
    | none => .error (.storage .rollbackTransaction)

/-- Check every dependency in turn. -/
def validateDependencies (namespace_ : Option String) : List JobId → Db → Except QueueError Unit
  | [], _ => .ok ()
  | depId :: rest, db => do
    validateDependency depId namespace_ db
    validateDependencies namespace_ rest db

/-- How the enqueue paths report a rejected dependency. -/
def dependencyError : QueueError → QueueError
  | .storage .rollbackTransaction =>
    .dependencyNotFound "dependency not found or already dead/cancelled"
  | e => e

end Flexiq
