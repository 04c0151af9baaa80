import Mathlib

/-!
# The job record

The values every storage backend reads and writes: a **job** with its lifecycle state, the
parameters a caller enqueues with, the records of durable steps, and the errors the queue
can answer. Field names follow the source's; times are milliseconds and counters are
integers, as the source's `i64` and `i32`.

Two predicates recur in every operation and are defined once here:

* `jobInNamespace` — whether a caller scoped to a namespace may see a job;
* `JobStatus.isTerminal` — the states a job never leaves.
-/

namespace Flexiq

/-- Job ids (UUIDv7 text). -/
abbrev JobId := String

/-- Encoded payloads and results. -/
abbrev Bytes := List UInt8

/-- Lifecycle state of a job. -/
inductive JobStatus where
  | pending
  | running
  | complete
  | failed
  | dead
  | cancelled
  deriving DecidableEq

namespace JobStatus

/-- A job in this state has finished: it is not waiting and not executing. -/
def isTerminal : JobStatus → Bool
  | pending | running => false
  | complete | failed | dead | cancelled => true

end JobStatus

/-- A job stored in the queue. -/
structure Job where
  id : JobId
  /-- Queue the job belongs to. -/
  queue : String
  /-- Registered task the job runs. -/
  taskName : String
  payload : Bytes
  status : JobStatus
  /-- Higher runs first. -/
  priority : Int
  createdAt : Int
  /-- When the job becomes eligible to run. -/
  scheduledAt : Int
  startedAt : Option Int
  completedAt : Option Int
  /-- Retries attempted so far. -/
  retryCount : Int
  /-- Retries allowed before dead-lettering. -/
  maxRetries : Int
  result : Option Bytes
  error : Option String
  timeoutMs : Int
  /-- Deduplication key; at most one non-terminal job per key. -/
  uniqueKey : Option String
  progress : Option Int
  metadata : Option String
  notes : Option String
  cancelRequested : Bool
  expiresAt : Option Int
  resultTtlMs : Option Int
  /-- Tenant namespace; `none` is the default namespace. -/
  namespace_ : Option String
  /-- The job was enqueued with at least one dependency. -/
  hasDeps : Bool
  debounceKey : Option String
  deriving DecidableEq

/-- Parameters for creating a job. -/
structure NewJob where
  queue : String
  taskName : String
  payload : Bytes
  priority : Int
  scheduledAt : Int
  maxRetries : Int
  timeoutMs : Int
  uniqueKey : Option String
  metadata : Option String
  notes : Option String
  /-- Jobs that must complete before this one runs. -/
  dependsOn : List JobId
  expiresAt : Option Int
  resultTtlMs : Option Int
  namespace_ : Option String
  debounceKey : Option String
  deriving DecidableEq

/-- A job with every option left at what the source's own tests enqueue with. -/
def NewJob.plain (queue taskName : String) : NewJob where
  queue := queue
  taskName := taskName
  payload := [1, 2, 3]
  priority := 0
  scheduledAt := 0
  maxRetries := 3
  timeoutMs := 300000
  uniqueKey := none
  metadata := none
  notes := none
  dependsOn := []
  expiresAt := none
  resultTtlMs := none
  namespace_ := none
  debounceKey := none

/-- Materialise a job under a fresh id: `Pending`, created now. -/
def NewJob.intoJob (nj : NewJob) (id : JobId) (now : Int) : Job where
  id := id
  queue := nj.queue
  taskName := nj.taskName
  payload := nj.payload
  status := .pending
  priority := nj.priority
  createdAt := now
  scheduledAt := nj.scheduledAt
  startedAt := none
  completedAt := none
  retryCount := 0
  maxRetries := nj.maxRetries
  result := none
  error := none
  timeoutMs := nj.timeoutMs
  uniqueKey := nj.uniqueKey
  progress := none
  metadata := nj.metadata
  notes := nj.notes
  cancelRequested := false
  expiresAt := nj.expiresAt
  resultTtlMs := nj.resultTtlMs
  namespace_ := nj.namespace_
  hasDeps := !nj.dependsOn.isEmpty
  debounceKey := nj.debounceKey

/-- The job as the archive keeps it: `archived_jobs` has no column for the dependency flag or
the debounce key, and reads them back as unset. -/
def Job.toArchived (job : Job) : Job := { job with hasDeps := false, debounceKey := none }

/-- The job without its blobs, as the narrow scans load it. -/
def Job.narrow (job : Job) : Job := { job with payload := [], result := none }

/-- Whether a caller scoped to `caller` may act on a job of namespace `job`: an unscoped
caller sees every job, a scoped one only its own namespace. -/
def jobInNamespace (job caller : Option String) : Bool :=
  match caller with
  | none => true
  | some ns => job = some ns

/-- A successful outcome to persist in a batch. -/
structure JobCompletion where
  jobId : JobId
  result : Option Bytes
  taskName : String
  wallTimeNs : Int
  deriving DecidableEq

/-! ## Durable steps -/

/-- What a step row memoizes: a value or a deadline. -/
inductive StepKind where
  | run
  | sleep
  deriving DecidableEq

/-- The stored form. -/
def StepKind.asStr : StepKind → String
  | run => "run"
  | sleep => "sleep"

/-- A step about to be committed. -/
structure NewJobStep where
  jobId : JobId
  /-- Position in the job's step sequence. -/
  seq : Int
  stepKey : String
  kind : StepKind
  result : Option Bytes
  deriving DecidableEq

inductive StepCommit where
  | committed
  | alreadyCommitted
  deriving DecidableEq

/-- What a sleep did, with the deadline the job was rescheduled to. -/
inductive SleepOutcome where
  | slept (wakeAt : Int)
  | alreadySleeping (wakeAt : Int)
  deriving DecidableEq

/-- Whether a result still speaks for the job it names. -/
inductive AttemptFence where
  | authorized
  | superseded
  deriving DecidableEq

/-- Caps a job's committed steps are held to. -/
structure StepLimits where
  maxStepBytes : Nat
  maxTotalBytes : Nat
  maxSteps : Nat
  deriving DecidableEq

/-- Hard ceiling on `maxStepBytes`. -/
def maxStepBytesCeiling : Nat := 1024 * 1024
/-- Hard ceiling on `maxTotalBytes`. -/
def maxTotalBytesCeiling : Nat := 64 * 1024 * 1024
/-- Hard ceiling on `maxSteps`. -/
def maxStepsCeiling : Nat := 100000

/-- The limits with every field brought inside its hard ceiling. -/
def StepLimits.clamped (limits : StepLimits) : StepLimits where
  maxStepBytes := min limits.maxStepBytes maxStepBytesCeiling
  maxTotalBytes := min limits.maxTotalBytes maxTotalBytesCeiling
  maxSteps := min limits.maxSteps maxStepsCeiling

/-! ## Debounce windows -/

/-- How a debounced enqueue coalesces. -/
structure DebounceOptions where
  /-- How far ahead of now each enqueue pushes the run. -/
  windowMs : Int
  /-- Ceiling on the total delay, from the pending job's creation. -/
  maxWaitMs : Int
  /-- Overwrite the pending job's payload with the newest one. -/
  replacePayload : Bool
  deriving DecidableEq

/-- `i64::saturating_add`. -/
def saturatingAdd (a b : Int) : Int := max (-(2 ^ 63)) (min (2 ^ 63 - 1) (a + b))

/-! ## Errors -/

/-- The database errors the storage layer tells apart. -/
inductive StorageError where
  | rollbackTransaction
  | uniqueViolation
  | notFound
  /-- A statement binds more values than the database allows. -/
  | tooManyVariables
  deriving DecidableEq

/-- The errors of the modelled operations. -/
inductive QueueError where
  | storage (e : StorageError)
  | jobNotFound (id : JobId)
  | config (message : String)
  | dependencyNotFound (message : String)
  | claimLost (id : JobId)
  | stepDiverged (jobId : JobId) (seq : Int) (expected found : String)
  | stepLimitExceeded (stepKey limit : String) (actual allowed : Nat)
  | other (message : String)
  deriving DecidableEq

/-- A sequence succeeds exactly when both of its halves do. -/
theorem bind_eq_ok {ε α β : Type} {x : Except ε α} {f : α → Except ε β} {b : β} :
    x >>= f = .ok b ↔ ∃ a, x = .ok a ∧ f a = .ok b := by
  rcases x with _ | a
  · exact ⟨fun h => (nomatch h), fun ⟨_, h, _⟩ => (nomatch h)⟩
  · refine ⟨fun h => ⟨a, rfl, h⟩, ?_⟩
    rintro ⟨_, ha, h⟩
    cases ha
    exact h

/-- Check the arguments of a debounced enqueue and hand back the key it coalesces on. -/
def validatedDebounceKey (nj : NewJob) (options : DebounceOptions) : Except QueueError String :=
  let key := nj.debounceKey.getD ""
  if key.isEmpty then
    .error (.config "enqueue_debounced requires a non-empty debounce_key")
  else if options.windowMs ≤ 0 then
    .error (.config ("debounce window_ms must be positive, got " ++ toString options.windowMs))
  else if options.maxWaitMs < options.windowMs then
    .error (.config ("debounce max_wait_ms (" ++ toString options.maxWaitMs ++
      ") must be at least window_ms (" ++ toString options.windowMs ++ ")"))
  else .ok key

end Flexiq
