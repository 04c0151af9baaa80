import Flexiq.Scheduler

/-!
# Handling results

What a scheduler does with a result: take the dispatch record of the job, check that the
attempt it was dispatched under still speaks for the job, and complete, retry, dead-letter or
cancel it. A job without a record — one this scheduler never dispatched, or whose record an
earlier result took — is handled **without** the check.

A worker's result comes with the retry count its job was dispatched with. The handler does not
look at it; it only labels what the handler does.
-/

namespace Flexiq

namespace Sched

variable {σ : Type} (cfg : σ → Scheduler)

/-- Dead-letter metadata marking a job the retry budget refused. -/
def retryBudgetExhausted : String := "retry_budget_exhausted"

/-- Free a finished job's in-flight slot and decide whether its result still speaks for the
job. Without a record there is nothing to check, and an error of the check itself lets the
result through. -/
def authorizeFinished (s : σ) (why : Cause) (id : JobId) : SchedProg σ Bool := do
  match ← ask (.releaseInFlight s why id) with
  | none => return true
  | some record =>
    match ← storage s why
        (txn (.authorizeAttempt id record.owner record.attempt (cfg s).namespace_)) with
    | some (.ok .superseded) => return false
    | _ => return true

/-- Record an execution metric; an error is only logged. -/
def recordMetric (s : σ) (why : Cause) (taskName : String) (id : JobId) (wallTimeNs : Int)
    (succeeded : Bool) : SchedProg σ Unit := do
  let now ← ask (.nowMillis s)
  let _ ← attempt s why (txn (.recordMetric
    ⟨taskName, id, wallTimeNs, 0, succeeded, now, (cfg s).namespace_⟩))
  return ()

/-- Record the error of a failed run; an error of that is only logged. -/
def recordError (s : σ) (why : Cause) (f : Failure) : SchedProg σ Unit := do
  let now ← ask (.nowMillis s)
  let _ ← attempt s why (Ops.recordError f.jobId f.retryCount f.error (cfg s).namespace_ now)
  return ()

def deadLetter (s : σ) (why : Cause) (job : Job) (error : String) (metadata : Option String)
    (shed : Bool) : SchedProg σ (Option Unit) := do
  let dlqId ← ask (.newUuid s)
  let now ← ask (.nowMillis s)
  attempt s why (Ops.deadLetter (cfg s).codec job error metadata shed dlqId now (cfg s).fuel)

/-- Persist one successful completion. -/
def finalizeSuccess (s : σ) (why : Cause) (c : JobCompletion) :
    SchedProg σ (Option ResultOutcome) := do
  let now ← ask (.nowMillis s)
  match ← attempt s why (txn (.complete c.jobId c.result (cfg s).namespace_ now)) with
  | none => return none
  | some () =>
    let _ ← storage s why (Ops.completeExecution c.jobId (cfg s).namespace_)
    recordMetric cfg s why c.taskName c.jobId c.wallTimeNs true
    return some (.success c.jobId c.taskName c.wallTimeNs)

/-- Whether the retry budget of a task lets a retry go ahead; it does when there is none, and
when the limiter cannot be asked. -/
def retryBudgetAllows (s : σ) (taskName : String) : SchedProg σ Bool :=
  match (cfg s).taskConfigs taskName with
  | some { retryBudget := true, .. } => do
    let key := "retry::" ++ (cfg s).namespace_.getD "" ++ "::" ++ taskName
    match ← ask (.tryAcquire s key) with
    | some allowed => return allowed
    | none => return true
  | _ => return true

/-- Dead-letter the job a failed run left behind, if it is still there. -/
def moveToDlq (s : σ) (why : Cause) (f : Failure) (job : Option Job)
    (metadata : Option String) : SchedProg σ (Option ResultOutcome) := do
  let outcome := ResultOutcome.deadLettered f.jobId f.taskName ((job.map Job.queue).getD "")
    f.error f.timedOut f.wallTimeNs
  match job with
  | some job =>
    match ← deadLetter cfg s why job f.error metadata false with
    | none => return none
    | some () => return some outcome
  | none =>
    -- no transition to revoke the claim in, so it is revoked here
    let _ ← storage s why (Ops.completeExecution f.jobId (cfg s).namespace_)
    return some outcome

/-- Put a failed run's job back in its queue, with one retry spent. -/
def retryJob (s : σ) (why : Cause) (f : Failure) (queue : String) :
    SchedProg σ (Option ResultOutcome) := do
  let nextAt ← ask (.nextRetryAt s f.taskName f.retryCount)
  match ← attempt s why (txn (.retry f.jobId nextAt (cfg s).namespace_)) with
  | none => return none
  | some () =>
    return some (.retry f.jobId f.taskName queue f.error f.retryCount f.timedOut f.wallTimeNs)

def handleFailure (s : σ) (why : Cause) (f : Failure) : SchedProg σ (Option ResultOutcome) := do
  recordError cfg s why f
  recordMetric cfg s why f.taskName f.jobId f.wallTimeNs false
  match ← storage s why (txn (.getJob f.jobId (cfg s).namespace_)) with
  | none => return none
  | some job =>
    if !f.shouldRetry then moveToDlq cfg s why f job none
    else if f.retryCount < f.maxRetries then
      if ← retryBudgetAllows cfg s f.taskName then
        retryJob cfg s why f ((job.map Job.queue).getD "")
      else moveToDlq cfg s why f job (some retryBudgetExhausted)
    else moveToDlq cfg s why f job none

def handleCancelled (s : σ) (why : Cause) (id : JobId) (taskName : String)
    (wallTimeNs : Int) : SchedProg σ (Option ResultOutcome) := do
  let now ← ask (.nowMillis s)
  let _ ← attempt s why (txn (.markCancelled id (cfg s).namespace_ now))
  recordMetric cfg s why taskName id wallTimeNs false
  match ← storage s why (txn (.getJob id (cfg s).namespace_)) with
  | none => return none
  | some job => return some (.cancelled id taskName ((job.map Job.queue).getD "") wallTimeNs)

/-- Act on a result that passed the check. -/
def settleResult (s : σ) (why : Cause) : JobResult → SchedProg σ (Option ResultOutcome)
  | .success c => finalizeSuccess cfg s why c
  | .failure f => handleFailure cfg s why f
  | .cancelled id taskName wallTimeNs => handleCancelled cfg s why id taskName wallTimeNs

def handleResult (s : σ) (why : Cause) (r : JobResult) : SchedProg σ (Option ResultOutcome) := do
  if !(← authorizeFinished cfg s why r.jobId) then return some (.superseded r.jobId)
  else settleResult cfg s why r

/-- A success that passed the check and waits for the batch write. -/
structure Finished where
  execution : Execution
  completion : JobCompletion
  deriving DecidableEq

/-- The first pass over a batch: successes are checked and set aside, every other result is
handled at once. -/
def drainResults (s : σ) : List (Int × JobResult) →
    SchedProg σ (List (Option ResultOutcome ⊕ Finished))
  | [] => return []
  | (k, .success c) :: rest => do
    let authorized ← authorizeFinished cfg s (.results [⟨c.jobId, k⟩]) c.jobId
    let first : Option ResultOutcome ⊕ Finished :=
      if authorized then .inr ⟨⟨c.jobId, k⟩, c⟩ else .inl (some (.superseded c.jobId))
    return first :: (← drainResults s rest)
  | (k, r) :: rest => do
    let outcome ← handleResult cfg s (.results [⟨r.jobId, k⟩]) r
    return .inl outcome :: (← drainResults s rest)

/-- The outcomes of a batch whose successes were written together. -/
def batchOutcome : Option ResultOutcome ⊕ Finished → Option ResultOutcome
  | .inl outcome => outcome
  | .inr f => some (.success f.completion.jobId f.completion.taskName f.completion.wallTimeNs)

/-- The outcomes of a batch whose successes have to be written one by one. -/
def finalizeEach (s : σ) : List (Option ResultOutcome ⊕ Finished) →
    SchedProg σ (List (Option ResultOutcome))
  | [] => return []
  | .inl outcome :: rest => return outcome :: (← finalizeEach s rest)
  | .inr f :: rest => do
    let outcome ← finalizeSuccess cfg s (.results [f.execution]) f.completion
    return outcome :: (← finalizeEach s rest)

/-- The successes of a drained batch. -/
def finished (drained : List (Option ResultOutcome ⊕ Finished)) : List Finished :=
  drained.filterMap Sum.getRight?

/-- Handle a batch of results: the successes in one transaction, the others one by one. -/
def handleResults (s : σ) (results : List (Int × JobResult)) :
    SchedProg σ (List (Option ResultOutcome)) := do
  let drained ← drainResults cfg s results
  let successes := finished drained
  if successes.isEmpty then return drained.map batchOutcome
  else
    let now ← ask (.nowMillis s)
    let why := Cause.results (successes.map Finished.execution)
    match ← attempt s why
        (txn (.completeBatch (successes.map Finished.completion) (cfg s).namespace_ now)) with
    | some () => return drained.map batchOutcome
    | none => finalizeEach cfg s drained

/-! ## Side operations -/

theorem quietOnly_recordMetric (s : σ) (why : Cause) (taskName : String) (id : JobId)
    (wallTimeNs : Int) (succeeded : Bool) :
    QuietOnly (recordMetric cfg s why taskName id wallTimeNs succeeded) :=
  (QuietOnly.ask rfl).bind fun _ => (QuietOnly.attempt (quietTxn rfl) s why).bind fun _ => .ret _

theorem quietOnly_recordError (s : σ) (why : Cause) (f : Failure) :
    QuietOnly (recordError cfg s why f) := by
  refine (QuietOnly.ask rfl).bind fun _ => (QuietOnly.attempt ?_ s why).bind fun _ => .ret _
  exact calls_recordError (P := fun op => op.isQuiet = true) rfl rfl

theorem quietOnly_retryBudgetAllows (s : σ) (taskName : String) :
    QuietOnly (retryBudgetAllows cfg s taskName) := by
  unfold retryBudgetAllows
  split
  · refine (QuietOnly.ask rfl).bind fun r => ?_
    rcases r with _ | _ <;> exact .ret _
  · exact .ret _

end Sched

end Flexiq
