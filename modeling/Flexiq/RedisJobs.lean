import Flexiq.RedisStore
import Flexiq.Operations

/-!
# The Redis backend's job operations

Each operation as the program of commands it issues. Most of them read the job's document, patch it
in the client and send a transaction or a script that writes the patched document back; only some of
the scripts look at the store again before they write.

Left out are the indices no operation here reads (`jobs:all`, `jobs:by_queue`, `jobs:by_task`, the
archive's own indices, the debounce and backlog indices) and the operations over them. The walk of
`cascade_cancel` carries a `fuel`: a walk of `n` steps is a walk of every larger fuel.
-/

namespace Flexiq.Redis

/-- An operation: commands, and an error that ends it. -/
abbrev RedisProg := ExceptT QueueError (Prog redisSig)

def ask (c : Command) : RedisProg c.Res := ExceptT.mk (.call c fun r => .ret (.ok r))

def nowMillis : RedisProg Int := ask .nowMillis

/-! ## Reading a job -/

def loadJob (id : JobId) : RedisProg (Option Job) := ask (.getJob id)

def loadArchivedJob (id : JobId) : RedisProg (Option Job) := ask (.getArchived id)

/-- A live job, for the operations that write. -/
def getJobRequired (id : JobId) : RedisProg Job := do
  match ← loadJob id with
  | some job => return job
  | none => throw (.jobNotFound id)

def getJobRequiredIn (id : JobId) (namespace_ : Option String) : RedisProg Job := do
  let job ← getJobRequired id
  if namespace_.isSome ∧ job.namespace_ ≠ namespace_ then throw (.jobNotFound id) else return job

/-- A job that is live or archived. -/
def getJob (id : JobId) (namespace_ : Option String) : RedisProg (Option Job) := do
  match ← loadJob id with
  | some job => return (some job).filter fun job => jobInNamespace job.namespace_ namespace_
  | none =>
    let job ← loadArchivedJob id
    return job.filter fun job => jobInNamespace job.namespace_ namespace_

/-! ## Enqueue -/

def depMissing : String := "dependency not found or already dead/cancelled"

/-- A dependency must be live and neither dead nor cancelled, or archived as complete, and in the
namespace of the job that depends on it. Of a batch only the namespace is known. -/
def validateDepIds (namespace_ : Option String) (batch : List (JobId × Option String)) :
    List JobId → RedisProg Unit
  | [] => return ()
  | dep :: deps =>
    match batch.lookup dep with
    | some depNs =>
      if depNs ≠ namespace_ then throw (.dependencyNotFound depMissing)
      else validateDepIds namespace_ batch deps
    | none => do
      match ← loadJob dep with
      | some job =>
        if job.status = .dead ∨ job.status = .cancelled ∨ job.namespace_ ≠ namespace_ then
          throw (.dependencyNotFound depMissing)
        else validateDepIds namespace_ batch deps
      | none =>
        let archived ← loadArchivedJob dep
        if archived.any fun job => job.status = .complete ∧ job.namespace_ = namespace_ then
          validateDepIds namespace_ batch deps
        else throw (.dependencyNotFound depMissing)

/-- `NewJob::into_job`: a fresh id, created now. -/
def intoJob (newJob : NewJob) : RedisProg Job := do
  let id : JobId ← ask (.freshId (newOrigin newJob))
  let now ← nowMillis
  return newJob.intoJob id now

/-- Store both ends of each dependency. -/
def addDependencies (id : JobId) : List JobId → RedisProg Unit
  | [] => return ()
  | dep :: deps => do
    ask (.addDependsOn id dep)
    ask (.addDependent dep id)
    addDependencies id deps

/-- The commands that insert a job; they are sent together and not as a transaction. -/
def insertJob (job : Job) (dependsOn : List JobId) : RedisProg Unit := do
  ask (.setJob job)
  ask (.addStatus job.status job.id)
  ask (.addQueued job.queue job.id)
  addDependencies job.id dependsOn

def enqueue (newJob : NewJob) : RedisProg Job := do
  let job ← intoJob newJob
  validateDepIds job.namespace_ [] newJob.dependsOn
  insertJob job newJob.dependsOn
  return job

/-- The jobs of a batch, with their dependencies. -/
def intoJobs : List NewJob → RedisProg (List (Job × List JobId))
  | [] => return []
  | newJob :: newJobs => do
    let job ← intoJob newJob
    let jobs ← intoJobs newJobs
    return (job, newJob.dependsOn) :: jobs

def validateBatch (batch : List (JobId × Option String)) :
    List (Job × List JobId) → RedisProg Unit
  | [] => return ()
  | (job, dependsOn) :: jobs => do
    validateDepIds job.namespace_ batch dependsOn
    validateBatch batch jobs

def insertJobs : List (Job × List JobId) → RedisProg Unit
  | [] => return ()
  | (job, dependsOn) :: jobs => do
    insertJob job dependsOn
    insertJobs jobs

/-- Insert many jobs. -/
def enqueueBatch (newJobs : List NewJob) : RedisProg (List Job) := do
  let jobs ← intoJobs newJobs
  validateBatch (jobs.map fun entry => (entry.1.id, entry.1.namespace_)) jobs
  insertJobs jobs
  return jobs.map Prod.fst

/-- Insert a job unless one with its unique key is active. -/
def enqueueUnique (newJob : NewJob) : RedisProg Job :=
  match newJob.uniqueKey with
  | none => enqueue newJob
  | some uniqueKey => do
    let active : Option Job ← ask (.uniqueActive uniqueKey)
    match active with
    | some job => return job
    | none =>
      let job ← intoJob newJob
      validateDepIds job.namespace_ [] newJob.dependsOn
      let raced : Option Job ← ask (.storeUnique uniqueKey job newJob.dependsOn)
      match raced with
      | some existing => return existing
      | none => return job

def enqueueUniqueBatch : List NewJob → RedisProg (List Job)
  | [] => return []
  | newJob :: newJobs => do
    let job ← enqueueUnique newJob
    let jobs ← enqueueUniqueBatch newJobs
    return job :: jobs

/-! ## Dequeue -/

/-- Whether every dependency is complete, live or archived. -/
def dependenciesComplete : List JobId → RedisProg Bool
  | [] => return true
  | dep :: deps => do
    match ← getJob dep none with
    | some job => if job.status = .complete then dependenciesComplete deps else return false
    | none => return false

/-- Whether a job may run as far as its dependencies go. -/
def dependenciesMet (job : Job) : RedisProg Bool :=
  if job.hasDeps then do
    let deps : List JobId ← ask (.dependsOn job.id)
    dependenciesComplete deps
  else return true

/-- A pending job that a scan may take: it is due and in the caller's namespace. -/
def eligible (job : Job) (now : Int) (namespace_ : Option String) : Bool :=
  decide (job.status = .pending ∧ job.scheduledAt ≤ now ∧ job.namespace_ = namespace_)

def archiveExpired (queue : String) (job : Job) (now : Int) (error : String) : RedisProg Unit := do
  ask (.dropQueued queue job.id)
  ask (.archive job { job with
    status := .cancelled, completedAt := some now, error := some error } .pending)

/-- The jobs of a scan, in order: take up to `max` of them. -/
def claimCandidates (queue : String) (now : Int) (namespace_ : Option String) :
    Nat → List (JobId × Option Job) → RedisProg (List Job)
  | 0, _ | _, [] => return []
  | max + 1, (id, none) :: rest => do
    ask (.dropQueued queue id)
    claimCandidates queue now namespace_ (max + 1) rest
  | max + 1, (_, some job) :: rest =>
    if ¬ eligible job now namespace_ then claimCandidates queue now namespace_ (max + 1) rest
    else if job.expiresAt.any (now > ·) then do
      archiveExpired queue job now "expired before execution"
      claimCandidates queue now namespace_ (max + 1) rest
    else do
      if ← dependenciesMet job then
        let claimed : Bool ←
          ask (.claimPending job { job with status := .running, startedAt := some now })
        if claimed then
          let jobs ← claimCandidates queue now namespace_ max rest
          return { job with status := .running, startedAt := some now } :: jobs
        else claimCandidates queue now namespace_ (max + 1) rest
      else claimCandidates queue now namespace_ (max + 1) rest

/-- Scan a queue and claim up to `max` of the first `limit` jobs. -/
def scanAndClaim (queue : String) (now : Int) (namespace_ : Option String) (limit max : Nat) :
    RedisProg (List Job) := do
  let ids : List JobId ← ask (.scanQueue queue limit)
  let blobs : List (Option Job) ← ask (.mgetJobs ids)
  claimCandidates queue now namespace_ max (ids.zip blobs)

/-- Claim the first job of a queue that is ready. -/
def dequeue (queue : String) (now : Int) (namespace_ : Option String) : RedisProg (Option Job) := do
  let jobs ← scanAndClaim queue now namespace_ 100 1
  return jobs.head?

/-- Claim up to `max` jobs of a queue that are ready. -/
def dequeueBatch (queue : String) (now : Int) (namespace_ : Option String) (max : Nat) :
    RedisProg (List Job) :=
  if max = 0 then return [] else scanAndClaim queue now namespace_ (min (max * 4) 400) max

/-! ## Execution claims -/

/-- Claim the execution of a job; the index of claims follows in a second command. -/
def claimExecution (id : JobId) (worker : String) : RedisProg Bool := do
  let now ← nowMillis
  let acquired : Bool ← ask (.claimExecution id ⟨worker, now⟩)
  if acquired then
    ask (.indexClaim id now)
    return true
  else return false

def releaseClaim (id : JobId) : RedisProg Unit := do
  ask (.dropClaim id)
  ask (.unindexClaim id)

/-- Remove the claim of a finished job, if the job is in the caller's namespace. -/
def completeExecution (id : JobId) (namespace_ : Option String) : RedisProg Unit :=
  if namespace_.isSome then do
    match ← getJob id namespace_ with
    | none => return ()
    | some _ => releaseClaim id
  else releaseClaim id

/-- Hand a claim from one owner to another. -/
def reclaimExecution (id : JobId) (expected new : String) : RedisProg Bool := do
  let now ← nowMillis
  let won : Bool ← ask (.reclaim id expected new now)
  return won

def releaseClaims : List JobId → RedisProg Unit
  | [] => return ()
  | id :: ids => do
    releaseClaim id
    releaseClaims ids

def purgeExecutionClaims (olderThanMs : Int) : RedisProg Nat := do
  let expired : List JobId ← ask (.claimsUntil olderThanMs)
  releaseClaims expired
  return expired.length

/-! ## Terminal transitions -/

/-- Complete a running job and release its unique key. -/
def complete (id : JobId) (result : Option Bytes) (namespace_ : Option String) :
    RedisProg Unit := do
  let seen ← getJobRequiredIn id namespace_
  if seen.status ≠ .running then throw (.jobNotFound id)
  else
    let now ← nowMillis
    ask (.archive seen { seen with
      status := .complete, completedAt := some now, result := result } seen.status)
    match seen.uniqueKey with
    | some uniqueKey => ask (.releaseUnique uniqueKey id)
    | none => return ()

def fail (id : JobId) (error : String) : RedisProg Unit := do
  let seen ← getJobRequired id
  if seen.status ≠ .running then throw (.jobNotFound id)
  else
    let now ← nowMillis
    ask (.archive seen { seen with
      status := .failed, completedAt := some now, error := some error } seen.status)

/-- Every job that depends on the first one of the queue, directly or not, in the order in which
they are found. -/
def walkDependents : (fuel idx : Nat) → List JobId → RedisProg (List JobId)
  | 0, _, queue => return queue
  | fuel + 1, idx, queue =>
    match queue[idx]? with
    | none => return queue
    | some current => do
      let dependents : List JobId ← ask (.dependents current)
      walkDependents fuel (idx + 1)
        (dependents.foldl (fun queue dep => if dep ∈ queue then queue else queue ++ [dep]) queue)

/-- Cancel those of the jobs that are pending and in the namespace. -/
def cancelPending (now : Int) (error : String) (namespace_ : Option String) :
    List JobId → RedisProg Unit
  | [] => return ()
  | id :: ids => do
    match ← getJob id namespace_ with
    | none => cancelPending now error namespace_ ids
    | some seen =>
      if seen.status = .pending then
        ask (.archive seen { seen with
          status := .cancelled, completedAt := some now, error := some error } seen.status)
        cancelPending now error namespace_ ids
      else cancelPending now error namespace_ ids

def cascadeCancel (fuel : Nat) (failedJobId : JobId) (reason : String)
    (namespace_ : Option String) : RedisProg Unit := do
  let now ← nowMillis
  let queue ← walkDependents fuel 0 [failedJobId]
  cancelPending now (reason ++ ": " ++ failedJobId) namespace_ queue.tail

def cancelJob (fuel : Nat) (id : JobId) (namespace_ : Option String) : RedisProg Bool := do
  match ← getJob id namespace_ with
  | none => return false
  | some seen =>
    if seen.status ≠ .pending then return false
    else
      let now ← nowMillis
      ask (.archive seen { seen with status := .cancelled, completedAt := some now } seen.status)
      cascadeCancel fuel id "dependency cancelled" namespace_
      return true

def markCancelled (id : JobId) (namespace_ : Option String) : RedisProg Unit := do
  let seen ← getJobRequired id
  if ¬ jobInNamespace seen.namespace_ namespace_ then return ()
  else
    let now ← nowMillis
    ask (.archive seen { seen with
      status := .cancelled, completedAt := some now,
      error := some "cancelled by request" } seen.status)
    ask (.dropCancel id)

/-- Move a job to the dead-letter queue and cancel its dependents. The caller has read the job. -/
def deadLetter (codec : MetadataCodec) (fuel : Nat) (dlqId : String) (seen : Job) (error : String)
    (metadata : Option String) (shed : Bool) : RedisProg Unit := do
  let now ← nowMillis
  let entry := seen.toDeadLetter dlqId error metadata (codec.dlqRetryCount seen.metadata) shed now
  let deadLettered : Bool ← ask (.deadLetter seen { seen with
    status := .dead, error := some error, completedAt := some now } seen.status entry)
  if deadLettered then cascadeCancel fuel seen.id "dependency failed" seen.namespace_
  else return ()

/-- Cancel the pending jobs among these that have expired; answers how many. -/
def expireJobs (now : Int) : List JobId → RedisProg Nat
  | [] => return 0
  | id :: ids => do
    match ← loadJob id with
    | none => expireJobs now ids
    | some seen =>
      if seen.expiresAt.any (· < now) then
        ask (.dropQueued seen.queue seen.id)
        ask (.archive seen { seen with
          status := .cancelled, completedAt := some now, error := some "expired" } seen.status)
        let count ← expireJobs now ids
        return count + 1
      else expireJobs now ids

def expirePendingJobs (now : Int) : RedisProg Nat := do
  let ids : List JobId ← ask (.members .pending)
  expireJobs now ids

/-! ## Back to pending -/

/-- Schedule a job again, at the cost of a retry; the claim of the attempt that ended goes. -/
def retry (id : JobId) (nextScheduledAt : Int) (namespace_ : Option String) : RedisProg Unit := do
  let seen ← getJobRequiredIn id namespace_
  ask (.requeuePending seen { seen.backToPending nextScheduledAt with
    retryCount := min (2 ^ 31 - 1) (seen.retryCount + 1) } seen.status true)

/-- Schedule a job that never ran again. -/
def reschedule (id : JobId) (nextScheduledAt : Int) : RedisProg Unit := do
  let seen ← getJobRequired id
  ask (.requeuePending seen (seen.backToPending nextScheduledAt) seen.status false)

/-- Force a running job back to pending. -/
def requeueStuck (id : JobId) (now : Int) : RedisProg Bool := do
  match ← getJob id none with
  | none => return false
  | some seen =>
    if seen.status ≠ .running then return false
    else
      let applied : Bool ←
        ask (.requeueStuck seen { seen.backToPending now with cancelRequested := false })
      return applied

/-! ## Other edits of a live job -/

/-- Ask a running job to stop. -/
def requestCancel (id : JobId) (namespace_ : Option String) : RedisProg Bool := do
  match ← getJob id namespace_ with
  | none => return false
  | some seen =>
    if seen.status ≠ .running then return false
    else
      let applied : Bool ← ask (.requestCancel seen { seen with cancelRequested := true })
      return applied

/-- Whether a job was asked to stop. -/
def isCancelRequested (id : JobId) (namespace_ : Option String) : RedisProg Bool :=
  if namespace_.isSome then do
    match ← getJob id namespace_ with
    | none => return false
    | some _ =>
      let requested : Bool ← ask (.isCancelRequested id)
      return requested
  else do
    let requested : Bool ← ask (.isCancelRequested id)
    return requested

def updateProgress (id : JobId) (progress : Int) (namespace_ : Option String) :
    RedisProg Unit :=
  if ¬ (0 ≤ progress ∧ progress ≤ 100) then
    throw (.other "progress must be between 0 and 100")
  else do
    let seen ← getJobRequired id
    if ¬ jobInNamespace seen.namespace_ namespace_ then throw (.jobNotFound id)
    else
      let applied : Bool ← ask (.setIfLive seen { seen with progress := some progress })
      if applied then return () else throw (.jobNotFound id)

end Flexiq.Redis
