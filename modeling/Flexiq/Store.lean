import Flexiq.Prog
import Flexiq.Enqueue
import Flexiq.Retention
import Flexiq.Steps

/-!
# The store as a shared machine

Every public operation of the relational store is a program over **atomic transactions**
(`StoreOp`): most are one transaction, some are several — a cancellation commits before it
cascades, a purge deletes batch by batch, a deduplicating enqueue retries. Between two
transactions of one operation, any other client may commit.

`StoreOp.exec` is the meaning of one transaction; the identifiers and clock readings an
operation draws are arguments of the call that makes it. Loops the source leaves unbounded
carry a `fuel`: a run of the source that makes `n` passes is a run of every larger fuel.
-/

namespace Flexiq

/-- A job about to be inserted: its parameters with the id and the time `into_job` drew. -/
structure Draft where
  newJob : NewJob
  id : JobId
  now : Int
  deriving DecidableEq

def Draft.job (d : Draft) : Job := d.newJob.intoJob d.id d.now

/-- A draft as the batch paths carry it: the job and its dependency list. -/
def Draft.entry (d : Draft) : Job × List JobId := (d.job, d.newJob.dependsOn)

/-- The job of a debounced enqueue: created now, due when a fresh window closes. -/
def Draft.debouncedJob (d : Draft) (options : DebounceOptions) : Job :=
  { d.job with createdAt := d.now, scheduledAt := saturatingAdd d.now options.windowMs }

/-- The draft of an operator's retry of a dead-letter entry. -/
def DeadLetterRow.draft (row : DeadLetterRow) (metadata : String) (id : JobId) (now : Int) :
    Draft := ⟨row.toNewJob (some metadata) now, id, now⟩

inductive PendingSweep where
  | expired
  | byQueue (queue : String)
  | byTask (taskName : String)
  deriving DecidableEq

def PendingSweep.filter (now : Int) : PendingSweep → Job → Bool
  | expired => expiredFilter now
  | byQueue queue => fun j => j.queue = queue
  | byTask taskName => fun j => j.taskName = taskName

/-- The error a sweep leaves on the jobs it cancels. -/
def PendingSweep.error : PendingSweep → String
  | expired => "expired"
  | byQueue _ => "purged"
  | byTask _ => "revoked"

/-- Which archived jobs a purge batch deletes. -/
inductive ArchivePurge where
  | completed (olderThanMs : Int)
  | globalTtl (cutoff : Int)
  | entryTtl (now : Int)
  deriving DecidableEq

def ArchivePurge.filter : ArchivePurge → Job → Bool
  | completed olderThanMs => purgeCompletedFilter olderThanMs
  | globalTtl cutoff => purgeGlobalTtlFilter cutoff
  | entryTtl now => purgeEntryTtlFilter now

/-- Only `purge_completed` takes a job's diagnostics with it. -/
def ArchivePurge.cascadeDiagnostics : ArchivePurge → Bool
  | completed _ => true
  | globalTtl _ | entryTtl _ => false

/-- The rows the next batch of a purge takes. -/
def ArchivePurge.batch (purge : ArchivePurge) (db : Db) : List Job :=
  (db.archivedJobs.select purge.filter).take purgeBatch

/-- The atomic transactions and reads of the store. -/
inductive StoreOp where
  | enqueue (d : Draft)
  | enqueueBatch (ds : List Draft)
  | enqueueDebounced (d : Draft) (key : String) (options : DebounceOptions)
  | enqueueUnique (d : Draft)
  | enqueueUniqueBatch (ds : List Draft)
  | activeWithKey (key : String)
  | dequeue (queue : String) (now : Int) (namespace_ : Option String) (order : DispatchOrder)
  | dequeueBatch (queue : String) (now : Int) (namespace_ : Option String) (max : Nat)
      (order : DispatchOrder)
  | complete (id : JobId) (result : Option Bytes) (namespace_ : Option String) (now : Int)
  | completeBatch (completions : List JobCompletion) (namespace_ : Option String) (now : Int)
  | fail (id : JobId) (error : String) (now : Int)
  | retry (id : JobId) (nextScheduledAt : Int) (namespace_ : Option String)
  | reschedule (id : JobId) (nextScheduledAt : Int)
  | requeueStuck (id : JobId) (now : Int)
  | cancelPending (id : JobId) (namespace_ : Option String) (now : Int)
  | requestCancel (id : JobId) (namespace_ : Option String)
  | markCancelled (id : JobId) (namespace_ : Option String) (now : Int)
  | dependents (id : JobId)
  | cascadeArchive (root : JobId) (reason : String) (ids : List JobId)
      (namespace_ : Option String) (now : Int)
  | updateProgress (id : JobId) (progress : Int) (namespace_ : Option String)
  | getJob (id : JobId) (namespace_ : Option String)
  | recordStepResult (step : NewJobStep) (owner : String) (attempt : Int) (limits : StepLimits)
      (namespace_ : Option String) (now : Int)
  | sleepJob (step : NewJobStep) (owner : String) (attempt wakeAt : Int) (limits : StepLimits)
      (namespace_ : Option String) (now : Int)
  | authorizeAttempt (id : JobId) (owner : String) (attempt : Int) (namespace_ : Option String)
  | claimExecution (id : JobId) (workerId : String) (now : Int)
  | claimExecutionBatch (ids : List JobId) (workerId : String) (now : Int)
  | deleteClaim (id : JobId)
  | reclaimExecution (id : JobId) (expectedOwner newOwner : String) (now : Int)
  | purgeExecutionClaims (olderThanMs : Int)
  | deadLetter (job : Job) (dlqId error : String) (metadata : Option String)
      (dlqRetryCount : Int) (shed : Bool) (now : Int)
  | findDead (deadId : String)
  | retryDead (row : DeadLetterRow) (metadata : String) (id : JobId) (now : Int)
  | purgeDead (p : DeadLetterRow → Bool)
  | purgeArchived (purge : ArchivePurge)
  | archivePending (sweep : PendingSweep) (now : Int)
  | reapStaleJobs (now : Int) (namespace_ : Option String)
  | reapOrphanedJobs (liveOwnerIds : List String) (namespace_ : Option String)
  | countRunningByTask (taskName : String) (namespace_ : Option String)
  | countRunningByQueue (queue : String) (namespace_ : Option String)
  | recordError (id : JobId) (attempt : Int) (error : String) (now : Int)
  | recordMetric (row : TaskMetricRow)

namespace StoreOp

/-- What a transaction answers. -/
@[reducible] def Res : StoreOp → Type
  | enqueue _ | enqueueDebounced _ _ _ | enqueueUnique _ => Except QueueError Job
  | enqueueBatch _ | enqueueUniqueBatch _ => Except QueueError (List Job)
  | activeWithKey _ | getJob _ _ => Option Job
  | dequeue _ _ _ _ => Except QueueError (Option Job)
  | dequeueBatch _ _ _ _ _ => Except QueueError (List Job)
  | complete _ _ _ _ | completeBatch _ _ _ | fail _ _ _ | retry _ _ _ | reschedule _ _
  | markCancelled _ _ _ | cascadeArchive _ _ _ _ _ | updateProgress _ _ _
  | purgeExecutionClaims _ | deadLetter _ _ _ _ _ _ _ | retryDead _ _ _ _ | recordError _ _ _ _
  | recordMetric _ => Except QueueError Unit
  | requeueStuck _ _ | cancelPending _ _ _ | requestCancel _ _ | claimExecution _ _ _
  | reclaimExecution _ _ _ _ => Except QueueError Bool
  | dependents _ => List JobId
  | recordStepResult _ _ _ _ _ _ => Except QueueError StepCommit
  | sleepJob _ _ _ _ _ _ _ => Except QueueError SleepOutcome
  | authorizeAttempt _ _ _ _ => Except QueueError AttemptFence
  | claimExecutionBatch _ _ _ => Except QueueError (List Bool)
  | deleteClaim _ => Unit
  | findDead _ => Option DeadLetterRow
  | purgeDead _ | purgeArchived _ | archivePending _ _ => Except QueueError Nat
  | reapStaleJobs _ _ => List Job
  | reapOrphanedJobs _ _ => List (Job × String)
  | countRunningByTask _ _ | countRunningByQueue _ _ => Nat

def exec : (op : StoreOp) → Db → op.Res × Db
  | enqueue d => writeTransaction (Flexiq.enqueue d.job d.newJob.dependsOn)
  | enqueueBatch ds => writeTransaction (Flexiq.enqueueBatch (ds.map Draft.entry))
  | enqueueDebounced d key options =>
    writeTransaction
      (Flexiq.enqueueDebounced (d.debouncedJob options) d.newJob.dependsOn key options)
  | enqueueUnique d => writeTransaction (Flexiq.enqueueUnique d.job d.newJob.dependsOn)
  | enqueueUniqueBatch ds => writeTransaction (Flexiq.enqueueUniqueBatch (ds.map Draft.entry))
  | activeWithKey key => fun db => (Flexiq.activeWithKey key db, db)
  | dequeue queue now ns order => writeTransaction (dequeueOrdered queue now ns order)
  | dequeueBatch queue now ns max order =>
    writeTransaction (dequeueBatchOrdered queue now ns max order)
  | complete id result ns now => writeTransaction (Flexiq.complete id result ns now)
  | completeBatch cs ns now => writeTransaction (Flexiq.completeBatch ns now cs)
  | fail id error now => writeTransaction (Flexiq.fail id error now)
  | retry id next ns => writeTransaction (Flexiq.retry id next ns)
  | reschedule id next => writeTransaction (Flexiq.reschedule id next)
  | requeueStuck id now => writeTransaction (Flexiq.requeueStuck id now)
  | cancelPending id ns now => writeTransaction (Flexiq.cancelPending id ns now)
  | requestCancel id ns => writeTransaction (Flexiq.requestCancel id ns)
  | markCancelled id ns now => writeTransaction (Flexiq.markCancelled id ns now)
  | dependents id => fun db => (dependentIds db id, db)
  | cascadeArchive root reason ids ns now =>
    writeTransaction (Flexiq.cascadeArchive ids (reason ++ ": " ++ root) ns now)
  | updateProgress id progress ns => writeTransaction (Flexiq.updateProgress id progress ns)
  | getJob id ns => fun db => (Flexiq.getJob id ns db, db)
  | recordStepResult step owner attempt limits ns now =>
    writeTransaction (Flexiq.recordStepResult step owner attempt limits ns now)
  | sleepJob step owner attempt wakeAt limits ns now =>
    writeTransaction (Flexiq.sleepJob step owner attempt wakeAt limits ns now)
  | authorizeAttempt id owner attempt ns => fun db =>
    (Flexiq.authorizeAttempt id owner attempt ns db, db)
  | claimExecution id workerId now => writeTransaction (Flexiq.claimExecution id workerId now)
  | claimExecutionBatch ids workerId now =>
    writeTransaction (Flexiq.claimExecutionBatch workerId now ids)
  | deleteClaim id => fun db => ((), Flexiq.deleteClaim id db)
  | reclaimExecution id expectedOwner newOwner now =>
    writeTransaction (Flexiq.reclaimExecution id expectedOwner newOwner now)
  | purgeExecutionClaims olderThanMs =>
    writeTransaction (Flexiq.purgeExecutionClaims olderThanMs)
  | deadLetter job dlqId error metadata count shed now =>
    writeTransaction (Flexiq.deadLetter job dlqId error metadata count shed now)
  | findDead deadId => fun db => (db.deadLetter.find deadId, db)
  | retryDead row metadata id now =>
    writeTransaction (Flexiq.retryDead (row.draft metadata id now).job row.id)
  | purgeDead p => writeTransaction (purgeDeadBatch p purgeBatch)
  | purgeArchived purge =>
    writeTransaction (purgeArchivedBatch purge.filter purge.cascadeDiagnostics)
  | archivePending sweep now =>
    writeTransaction (archivePendingBatch now sweep.error (sweep.filter now))
  | reapStaleJobs now ns => fun db => (Flexiq.reapStaleJobs now ns db, db)
  | reapOrphanedJobs live ns => fun db => (Flexiq.reapOrphanedJobs live ns db, db)
  | countRunningByTask taskName ns => fun db => (Flexiq.countRunningByTask taskName ns db, db)
  | countRunningByQueue queue ns => fun db => (Flexiq.countRunningByQueue queue ns db, db)
  | recordError id attempt error now =>
    writeTransaction (Flexiq.recordError id attempt error now)
  | recordMetric row => writeTransaction (Flexiq.recordMetric row)

end StoreOp

abbrev storeSig : Signature := ⟨StoreOp, StoreOp.Res⟩

abbrev storeMachine : Machine storeSig := ⟨Db, Unit, fun op _ => op.exec⟩

/-- A program over the store's transactions. -/
abbrev StoreProg (α : Type) := Prog storeSig α

/-- One transaction, as a program. -/
def txn (op : StoreOp) : StoreProg op.Res := Prog.perform (S := storeSig) op

end Flexiq
