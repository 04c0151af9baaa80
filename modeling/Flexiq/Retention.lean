import Flexiq.Transitions

/-!
# Dead letters, purges and sweeps

Transaction bodies of the remaining write paths: a job's move into the dead-letter queue and
back, the batched retention purges of the archive and of the dead-letter queue, the batched
sweeps that cancel pending jobs, and the two reads that find overdue work.

A purge removes an archived job together with **every dependency edge that touches it**, in
either direction (`purgeArchivedIdBatch`).
-/

namespace Flexiq

/-! ## Dead letters -/

def Job.toDeadLetter (job : Job) (dlqId error : String) (metadata : Option String)
    (dlqRetryCount : Int) (shed : Bool) (now : Int) : DeadLetterRow where
  id := dlqId
  originalJobId := job.id
  queue := job.queue
  taskName := job.taskName
  payload := job.payload
  error := some error
  retryCount := job.retryCount
  failedAt := now
  metadata := metadata.or job.metadata
  notes := job.notes
  priority := job.priority
  maxRetries := job.maxRetries
  timeoutMs := job.timeoutMs
  resultTtlMs := job.resultTtlMs
  namespace_ := job.namespace_
  dlqRetryCount := dlqRetryCount
  shed := shed

/-- Write the dead-letter entry of `job` and archive the job as dead if it is still live.
The entry is written either way. -/
def deadLetter (job : Job) (dlqId error : String) (metadata : Option String)
    (dlqRetryCount : Int) (shed : Bool) (now : Int) : Txn Unit := fun db =>
  match db.deadLetter.insert
      (job.toDeadLetter dlqId error metadata dlqRetryCount shed now) with
  | none => .error (.storage .uniqueViolation)
  | some entries =>
    let db := { db with deadLetter := entries }
    match db.jobs.find job.id with
    | none => .ok ((), db)
    | some row => do
      let db ← archiveJobRow { row with
        status := .dead, error := some error, completedAt := some now } db
      return ((), db)

/-- The job that an operator's retry of a dead-letter entry enqueues. -/
def DeadLetterRow.toNewJob (row : DeadLetterRow) (retryMetadata : Option String) (now : Int) :
    NewJob where
  queue := row.queue
  taskName := row.taskName
  payload := row.payload
  priority := row.priority
  scheduledAt := now
  maxRetries := row.maxRetries
  timeoutMs := row.timeoutMs
  uniqueKey := none
  metadata := retryMetadata
  notes := row.notes
  dependsOn := []
  expiresAt := none
  resultTtlMs := row.resultTtlMs
  namespace_ := row.namespace_
  debounceKey := none

/-- Insert the fresh job of a dead-letter retry and delete the entry it came from. -/
def retryDead (job : Job) (deadId : String) : Txn Unit := fun db => do
  let db ← insertJobRow job db
  if db.deadLetter.count (fun d => d.id = deadId) = 0 then .error (.storage .notFound)
  else return ((), { db with deadLetter := db.deadLetter.delete fun d => d.id = deadId })

/-- Delete dead-letter entries, at most `limit` of those that match. -/
def purgeDeadBatch (p : DeadLetterRow → Bool) (limit : Nat) : Txn Nat := fun db =>
  let ids := ((db.deadLetter.select p).take limit).map DeadLetterRow.id
  .ok (ids.length, { db with deadLetter := db.deadLetter.delete fun d => d.id ∈ ids })

/-! ## Purges of the archive -/

/-- Rows deleted per purge transaction. -/
def purgeBatch : Nat := 500

/-- Delete archived jobs, every dependency edge into or out of them, and — with
`cascadeDiagnostics` — their errors and metrics. -/
def purgeArchivedIdBatch (ids : List JobId) (cascadeDiagnostics : Bool) (db : Db) : Db :=
  { db with
    archivedJobs := db.archivedJobs.delete fun j => j.id ∈ ids
    jobDependencies := db.jobDependencies.filter fun e => e.jobId ∉ ids ∧ e.dependsOn ∉ ids
    jobErrors :=
      if cascadeDiagnostics then db.jobErrors.filter fun e => e.jobId ∉ ids else db.jobErrors
    taskMetrics :=
      if cascadeDiagnostics then db.taskMetrics.filter fun m => m.jobId ∉ ids
      else db.taskMetrics }

/-- One batch of a purge: up to `purgeBatch` archived jobs that match. -/
def purgeArchivedBatch (p : Job → Bool) (cascadeDiagnostics : Bool) : Txn Nat := fun db =>
  let ids := ((db.archivedJobs.select p).take purgeBatch).map Job.id
  .ok (ids.length, purgeArchivedIdBatch ids cascadeDiagnostics db)

/-- What `purge_completed` removes: completed jobs older than the cutoff. -/
def purgeCompletedFilter (olderThanMs : Int) (job : Job) : Bool :=
  job.status = .complete && job.completedAt.any (· < olderThanMs)

/-- What the global retention cutoff removes: archived jobs without a TTL of their own, of
every terminal status. -/
def purgeGlobalTtlFilter (cutoff : Int) (job : Job) : Bool :=
  job.resultTtlMs.isNone && job.completedAt.any (· < cutoff)

/-- What a job's own TTL removes. -/
def purgeEntryTtlFilter (now : Int) (job : Job) : Bool :=
  match job.completedAt, job.resultTtlMs with
  | some completedAt, some ttl => completedAt + ttl < now
  | _, _ => false

/-! ## Sweeps over pending jobs -/

/-- Rows archived per sweep transaction. -/
def massArchiveBatch : Nat := 500

/-- One batch of a sweep: cancel up to `massArchiveBatch` pending jobs that match. -/
def archivePendingBatch (now : Int) (error : String) (p : Job → Bool) : Txn Nat := fun db => do
  let rows := (db.jobs.select fun j => j.status = .pending && p j).take massArchiveBatch
  let db ← archivePendingRows now error rows db
  return (rows.length, db)

/-- What `expire_pending_jobs` cancels. -/
def expiredFilter (now : Int) (job : Job) : Bool := job.expiresAt.any (· < now)

/-! ## Finding overdue work -/

/-- Running jobs past their timeout, without blobs. -/
def reapStaleJobs (now : Int) (namespace_ : Option String) (db : Db) : List Job :=
  (db.jobs.select fun j =>
    j.status = .running && j.startedAt.any (fun startedAt => startedAt + j.timeoutMs < now) &&
      jobInNamespace j.namespace_ namespace_).map Job.narrow

/-- The worker that holds a job's claim. -/
def claimOwner (db : Db) (jobId : JobId) : String :=
  ((db.executionClaims.find jobId).map ExecutionClaim.workerId).getD ""

/-- Running jobs whose claim names a worker outside `liveOwnerIds`, without blobs, each with
that worker. -/
def reapOrphanedJobs (liveOwnerIds : List String) (namespace_ : Option String) (db : Db) :
    List (Job × String) :=
  if liveOwnerIds.isEmpty then []
  else
    let orphanClaims := db.executionClaims.select fun c => c.workerId ∉ liveOwnerIds
    let jobIds := orphanClaims.map ExecutionClaim.jobId
    (db.jobs.select fun j =>
      j.id ∈ jobIds ∧ j.status = .running ∧ jobInNamespace j.namespace_ namespace_).map
        fun j => (j.narrow, claimOwner db j.id)

/-! ## Counts -/

def countRunningByTask (taskName : String) (namespace_ : Option String) (db : Db) : Nat :=
  db.jobs.count fun j =>
    j.taskName = taskName ∧ j.status = .running ∧ jobInNamespace j.namespace_ namespace_

/-- Running jobs of a queue, as the queue's statistics report them. -/
def countRunningByQueue (queue : String) (namespace_ : Option String) (db : Db) : Nat :=
  db.jobs.count fun j =>
    j.queue = queue ∧ j.status = .running ∧ jobInNamespace j.namespace_ namespace_

/-! ## Side tables -/

def recordError (jobId : JobId) (attempt : Int) (error : String) (now : Int) : Txn Unit :=
  fun db => .ok ((), { db with jobErrors := db.jobErrors ++ [⟨jobId, attempt, error, now⟩] })

def recordMetric (row : TaskMetricRow) : Txn Unit := fun db =>
  .ok ((), { db with taskMetrics := db.taskMetrics ++ [row] })

end Flexiq
