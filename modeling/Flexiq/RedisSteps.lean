import Flexiq.RedisJobs

/-!
# Durable steps on Redis, and the backend's clients

The operations of the step store. Every write is one script; only `sleep_job` needs two round
trips, because the document it stores has to carry the deadline the job is really rescheduled to,
and on a replay that is the stored one. The script checks what was read, and the client starts
over, three times at most.

`RedisCall` collects the operations of the backend, with their arguments, as the calls its clients
make.
-/

namespace Flexiq.Redis

/-- The word a script answers with. -/
def StepReply.word : StepReply → String
  | ok => "ok"
  | already => "already"
  | retry => "retry"
  | claimLost => "claim_lost"
  | diverged _ _ => "diverged"
  | divergedResult _ _ => "diverged_result"
  | keyTaken _ => "key_taken"
  | gap _ => "gap"
  | tooMany _ => "too_many"
  | tooBig _ => "too_big"

/-- Turn a script's refusal into an error. -/
def stepReplyError (step : NewJobStep) (limits : StepLimits) : StepReply → QueueError
  | .claimLost => .claimLost step.jobId
  | .diverged kind stepKey =>
    .stepDiverged step.jobId step.seq ("a " ++ kind.asStr ++ " step '" ++ stepKey ++ "'")
      ("a " ++ step.kind.asStr ++ " step '" ++ step.stepKey ++ "'")
  | .divergedResult _ stepKey =>
    .stepDiverged step.jobId step.seq ("the stored result of '" ++ stepKey ++ "'")
      "a different result for the same step"
  | .keyTaken seq =>
    .stepDiverged step.jobId step.seq "an unused step key"
      ("'" ++ step.stepKey ++ "', already committed at position " ++ toString seq)
  | .gap _ =>
    .stepDiverged step.jobId step.seq "the next unused position"
      ("position " ++ toString step.seq)
  | .tooMany count =>
    .stepLimitExceeded step.stepKey "step count" count.toNat limits.maxSteps
  | .tooBig total => .stepLimitExceeded step.stepKey "total bytes" total limits.maxTotalBytes
  | reply => .other ("unexpected step reply for job " ++ step.jobId ++ ": " ++ reply.word)

/-- Every position of a hash, in order. -/
def StepHash.steps (id : JobId) (h : StepHash) : List JobStep :=
  (h.rows.map fun row => decodeStep id row.1 row.2).insertionSort fun s t => s.seq ≤ t.seq

/-- The steps a caller in a scope may read. -/
def StepHash.stepsIn (id : JobId) (namespace_ : Option String) (h : StepHash) : List JobStep :=
  match namespace_ with
  | none => h.steps id
  | some scope => if h.ns ≠ some scope then [] else h.steps id

/-- Every committed step of a job, ordered by position. -/
def getJobSteps (id : JobId) (namespace_ : Option String) : RedisProg (List JobStep) := do
  let found : Option StepHash ← ask (.getSteps id)
  match found with
  | none => return []
  | some h => return h.stepsIn id namespace_

/-- Commit one step, fenced on the execution claim. -/
def recordStepResult (step : NewJobStep) (owner : String) (attempt : Int) (limits : StepLimits)
    (namespace_ : Option String) : RedisProg StepCommit :=
  let limits := limits.clamped
  let payload := step.result.getD []
  if payload.length > limits.maxStepBytes then
    throw (.stepLimitExceeded step.stepKey "step bytes" payload.length limits.maxStepBytes)
  else do
    let now ← nowMillis
    let reply : StepReply ←
      ask (.recordStep ⟨step.jobId, owner, attempt, now, namespace_.getD ""⟩ step limits)
    if reply = .ok then return .committed
    else if reply = .already then return .alreadyCommitted
    else throw (stepReplyError step limits reply)

/-- The deadline that is committed at a position, if there is one. -/
def storedSleep (step : NewJobStep) : RedisProg (Option Int) := do
  let stored : Option StepValue ← ask (.getStep step.jobId step.seq)
  match stored with
  | none => return none
  | some row =>
    if row.doc.kind ≠ .sleep ∨ row.doc.stepKey ≠ step.stepKey then
      throw (.stepDiverged step.jobId step.seq
        ("a " ++ row.doc.kind.asStr ++ " step '" ++ row.doc.stepKey ++ "'")
        ("a sleep step '" ++ step.stepKey ++ "'"))
    else
      match row.doc.wakeAt with
      | some deadline => return some deadline
      | none =>
        throw (.stepDiverged step.jobId step.seq "a sleep step with a deadline"
          ("'" ++ row.doc.stepKey ++ "' with none"))

def sleepAttempts (step : NewJobStep) (owner : String) (attempt wakeAt : Int)
    (limits : StepLimits) (namespace_ : Option String) : Nat → RedisProg SleepOutcome
  | 0 => throw (.other ("sleep for job " ++ step.jobId ++ " could not settle on a deadline"))
  | attempts + 1 => do
    let stored ← storedSleep step
    let deadline := stored.getD wakeAt
    let seen ← getJobRequiredIn step.jobId namespace_
    let now ← nowMillis
    let createdAt ← nowMillis
    let reply : StepReply ←
      ask (.sleepJob ⟨step.jobId, owner, attempt, now, namespace_.getD ""⟩ step limits.maxSteps
        createdAt stored.isSome seen (seen.backToPending deadline) seen.status deadline)
    if reply = .ok then
      return if stored.isSome then .alreadySleeping deadline else .slept deadline
    else if reply = .retry then
      sleepAttempts step owner attempt wakeAt limits namespace_ attempts
    else throw (stepReplyError step limits reply)

def sleepJob (step : NewJobStep) (owner : String) (attempt wakeAt : Int) (limits : StepLimits)
    (namespace_ : Option String) : RedisProg SleepOutcome :=
  sleepAttempts step owner attempt wakeAt limits.clamped namespace_ 3

/-- Whether a result carrying `(owner, attempt)` still speaks for the job. -/
def authorizeAttempt (id : JobId) (owner : String) (attempt : Int) (namespace_ : Option String) :
    RedisProg AttemptFence := do
  let now ← nowMillis
  let authorized : Bool ← ask (.authorize ⟨id, owner, attempt, now, namespace_.getD ""⟩)
  return if authorized then .authorized else .superseded

/-- Drop every step of a job: the explicit entry point for administrators. -/
def deleteJobSteps (id : JobId) (namespace_ : Option String) : RedisProg Nat := do
  let committed : Nat ← ask (.deleteSteps id (namespace_.getD ""))
  return committed

/-! ## Clients -/

inductive RedisCall where
  | enqueue (newJob : NewJob)
  | enqueueBatch (newJobs : List NewJob)
  | enqueueUnique (newJob : NewJob)
  | enqueueUniqueBatch (newJobs : List NewJob)
  | dequeue (queue : String) (now : Int) (namespace_ : Option String)
  | dequeueBatch (queue : String) (now : Int) (namespace_ : Option String) (max : Nat)
  | claimExecution (id : JobId) (worker : String)
  | completeExecution (id : JobId) (namespace_ : Option String)
  | reclaimExecution (id : JobId) (expected new : String)
  | purgeExecutionClaims (olderThanMs : Int)
  | complete (id : JobId) (result : Option Bytes) (namespace_ : Option String)
  | fail (id : JobId) (error : String)
  | cancelJob (fuel : Nat) (id : JobId) (namespace_ : Option String)
  | cascadeCancel (fuel : Nat) (id : JobId) (reason : String) (namespace_ : Option String)
  | markCancelled (id : JobId) (namespace_ : Option String)
  | deadLetter (codec : MetadataCodec) (fuel : Nat) (dlqId : String) (job : Job) (error : String)
      (metadata : Option String) (shed : Bool)
  | expirePendingJobs (now : Int)
  | retry (id : JobId) (nextScheduledAt : Int) (namespace_ : Option String)
  | reschedule (id : JobId) (nextScheduledAt : Int)
  | requeueStuck (id : JobId) (now : Int)
  | requestCancel (id : JobId) (namespace_ : Option String)
  | isCancelRequested (id : JobId) (namespace_ : Option String)
  | updateProgress (id : JobId) (progress : Int) (namespace_ : Option String)
  | getJobSteps (id : JobId) (namespace_ : Option String)
  | recordStepResult (step : NewJobStep) (owner : String) (attempt : Int) (limits : StepLimits)
      (namespace_ : Option String)
  | sleepJob (step : NewJobStep) (owner : String) (attempt wakeAt : Int) (limits : StepLimits)
      (namespace_ : Option String)
  | authorizeAttempt (id : JobId) (owner : String) (attempt : Int) (namespace_ : Option String)
  | deleteJobSteps (id : JobId) (namespace_ : Option String)

/-- Run an operation for its commands. -/
def issue {α : Type} (p : RedisProg α) : Prog redisSig Unit := p.run >>= fun _ => .ret ()

def RedisCall.prog : RedisCall → Prog redisSig Unit
  | enqueue newJob => issue (Redis.enqueue newJob)
  | enqueueBatch newJobs => issue (Redis.enqueueBatch newJobs)
  | enqueueUnique newJob => issue (Redis.enqueueUnique newJob)
  | enqueueUniqueBatch newJobs => issue (Redis.enqueueUniqueBatch newJobs)
  | dequeue queue now namespace_ => issue (Redis.dequeue queue now namespace_)
  | dequeueBatch queue now namespace_ max => issue (Redis.dequeueBatch queue now namespace_ max)
  | claimExecution id worker => issue (Redis.claimExecution id worker)
  | completeExecution id namespace_ => issue (Redis.completeExecution id namespace_)
  | reclaimExecution id expected new => issue (Redis.reclaimExecution id expected new)
  | purgeExecutionClaims olderThanMs => issue (Redis.purgeExecutionClaims olderThanMs)
  | complete id result namespace_ => issue (Redis.complete id result namespace_)
  | fail id error => issue (Redis.fail id error)
  | cancelJob fuel id namespace_ => issue (Redis.cancelJob fuel id namespace_)
  | cascadeCancel fuel id reason namespace_ => issue (Redis.cascadeCancel fuel id reason namespace_)
  | markCancelled id namespace_ => issue (Redis.markCancelled id namespace_)
  | deadLetter codec fuel dlqId job error metadata shed =>
    issue (Redis.deadLetter codec fuel dlqId job error metadata shed)
  | expirePendingJobs now => issue (Redis.expirePendingJobs now)
  | retry id nextScheduledAt namespace_ => issue (Redis.retry id nextScheduledAt namespace_)
  | reschedule id nextScheduledAt => issue (Redis.reschedule id nextScheduledAt)
  | requeueStuck id now => issue (Redis.requeueStuck id now)
  | requestCancel id namespace_ => issue (Redis.requestCancel id namespace_)
  | isCancelRequested id namespace_ => issue (Redis.isCancelRequested id namespace_)
  | updateProgress id progress namespace_ => issue (Redis.updateProgress id progress namespace_)
  | getJobSteps id namespace_ => issue (Redis.getJobSteps id namespace_)
  | recordStepResult step owner attempt limits namespace_ =>
    issue (Redis.recordStepResult step owner attempt limits namespace_)
  | sleepJob step owner attempt wakeAt limits namespace_ =>
    issue (Redis.sleepJob step owner attempt wakeAt limits namespace_)
  | authorizeAttempt id owner attempt namespace_ =>
    issue (Redis.authorizeAttempt id owner attempt namespace_)
  | deleteJobSteps id namespace_ => issue (Redis.deleteJobSteps id namespace_)

@[reducible] def redisClients : Clients redisSig := ⟨RedisCall, RedisCall.prog⟩

end Flexiq.Redis
