import Flexiq.Transitions

/-!
# Durable steps and execution claims

Transaction bodies of the step log and of the claims that fence it. A step may be committed
only by the attempt that is executing: the **fence** asks for a running job at the caller's
attempt number whose claim is the caller's own — or missing, in which case a write puts it
back. Everything after the fence only inspects the job's committed steps.
-/

namespace Flexiq

/-! ## The fence -/

/-- Check that `(owner, attempt)` still speaks for the job, and hand back the job's
namespace. With `reassert`, a missing claim is inserted again. -/
def resolveStepFence (jobId : JobId) (owner : String) (attempt : Int)
    (namespace_ : Option String) (reassert : Bool) (now : Int) : Txn (Option String) := fun db =>
  match db.jobs.find jobId with
  | none => .error (.claimLost jobId)
  | some job =>
    if ¬jobInNamespace job.namespace_ namespace_ ∨ job.status ≠ .running ∨
        job.retryCount ≠ attempt then
      .error (.claimLost jobId)
    else
      match db.executionClaims.find jobId with
      | some claim =>
        if claim.workerId = owner then .ok (job.namespace_, db) else .error (.claimLost jobId)
      | none =>
        if reassert then
          match db.executionClaims.insert ⟨jobId, owner, now⟩ with
          | some executionClaims => .ok (job.namespace_, { db with executionClaims })
          | none => .error (.storage .uniqueViolation)
        else .ok (job.namespace_, db)

/-- Whether a result carrying `(owner, attempt)` still speaks for the job: the fence, read
and not written. -/
def authorizeAttempt (jobId : JobId) (owner : String) (attempt : Int)
    (namespace_ : Option String) (db : Db) : Except QueueError AttemptFence :=
  match resolveStepFence jobId owner attempt namespace_ false 0 db with
  | .ok _ => .ok .authorized
  | .error (.claimLost _) => .ok .superseded
  | .error e => .error e

/-! ## Position, count and size -/

def stepRows (jobId : JobId) (db : Db) : List JobStepRow :=
  db.jobSteps.select fun s => s.jobId = jobId

/-- How many steps a job has committed, and how many encoded bytes they add up to. -/
def stepTotals (jobId : JobId) (db : Db) : Nat × Nat :=
  ((stepRows jobId db).length, ((stepRows jobId db).map JobStepRow.resultLen).sum)

/-- Reject a commit that cannot take `seq`: a key already spent at another position, or a gap
in the sequence. -/
def checkStepPosition (jobId : JobId) (seq : Int) (stepKey : String) (committed : Nat)
    (db : Db) : Except QueueError Unit :=
  match (stepRows jobId db).find? fun s => s.stepKey = stepKey with
  | some taken =>
    .error (.stepDiverged jobId seq "an unused step key"
      ("'" ++ stepKey ++ "', already committed at position " ++ toString taken.seq))
  | none =>
    if seq ≠ committed then
      .error (.stepDiverged jobId seq ("position " ++ toString committed)
        ("position " ++ toString seq))
    else .ok ()

/-- Refuse a commit that would take the job over `maxSteps`. -/
def checkStepCount (committed : Nat) (stepKey : String) (limits : StepLimits) :
    Except QueueError Unit :=
  if committed + 1 > limits.maxSteps then
    .error (.stepLimitExceeded stepKey "step count" (committed + 1) limits.maxSteps)
  else .ok ()

def NewJobStep.toRow (step : NewJobStep) (jobNamespace : Option String) (wakeAt : Option Int)
    (now : Int) : JobStepRow where
  jobId := step.jobId
  namespace_ := jobNamespace
  stepKey := step.stepKey
  seq := step.seq
  kind := step.kind
  result := step.result
  resultLen := (step.result.getD []).length
  wakeAt := wakeAt
  createdAt := now

def insertStepRow (step : NewJobStep) (jobNamespace : Option String) (wakeAt : Option Int)
    (now : Int) (db : Db) : Except QueueError Db :=
  match db.jobSteps.insert (step.toRow jobNamespace wakeAt now) with
  | some jobSteps => .ok { db with jobSteps }
  | none => .error (.storage .uniqueViolation)

/-! ## Commits -/

/-- What a commit finds at its position: a retransmission of the same step is a success, and
anything else diverges. -/
def replayStep (step : NewJobStep) (stored : JobStepRow) : Except QueueError StepCommit :=
  if stored.stepKey ≠ step.stepKey ∨ stored.kind ≠ step.kind then
    .error (.stepDiverged step.jobId step.seq
      ("a " ++ stored.kind.asStr ++ " step '" ++ stored.stepKey ++ "'")
      ("a " ++ step.kind.asStr ++ " step '" ++ step.stepKey ++ "'"))
  else if stored.result.getD [] = step.result.getD [] then .ok .alreadyCommitted
  else
    .error (.stepDiverged step.jobId step.seq
      ("the stored result of '" ++ stored.stepKey ++ "'")
      "a different result for the same step")

/-- The part of a commit behind the fence. -/
def commitStep (step : NewJobStep) (limits : StepLimits) (jobNamespace : Option String)
    (now : Int) : Txn StepCommit := fun db =>
  match db.jobSteps.find (step.jobId, step.seq) with
  | some stored => do
    let outcome ← replayStep step stored
    return (outcome, db)
  | none => do
    let (committed, storedBytes) := stepTotals step.jobId db
    checkStepPosition step.jobId step.seq step.stepKey committed db
    checkStepCount committed step.stepKey limits
    let total := storedBytes + (step.result.getD []).length
    if total > limits.maxTotalBytes then
      .error (.stepLimitExceeded step.stepKey "total bytes" total limits.maxTotalBytes)
    else
      let db ← insertStepRow step jobNamespace none now db
      return (.committed, db)

/-- Commit one step, fenced on the execution claim. -/
def recordStepResult (step : NewJobStep) (owner : String) (attempt : Int) (limits : StepLimits)
    (namespace_ : Option String) (now : Int) : Txn StepCommit := fun db =>
  let limits := limits.clamped
  let payload := step.result.getD []
  if payload.length > limits.maxStepBytes then
    .error (.stepLimitExceeded step.stepKey "step bytes" payload.length limits.maxStepBytes)
  else do
    let (jobNamespace, db) ← resolveStepFence step.jobId owner attempt namespace_ true now db
    commitStep step limits jobNamespace now db

/-- What a sleep finds at its position: the stored deadline stands. -/
def replaySleep (step : NewJobStep) (stored : JobStepRow) : Except QueueError SleepOutcome :=
  if stored.stepKey ≠ step.stepKey ∨ stored.kind ≠ .sleep then
    .error (.stepDiverged step.jobId step.seq
      ("a " ++ stored.kind.asStr ++ " step '" ++ stored.stepKey ++ "'")
      ("a sleep step '" ++ step.stepKey ++ "'"))
  else
    match stored.wakeAt with
    | some deadline => .ok (.alreadySleeping deadline)
    | none =>
      .error (.stepDiverged step.jobId step.seq "a sleep step with a deadline"
        ("'" ++ stored.stepKey ++ "' with none"))

/-- Commit the row of a sleep, or find the one that is there. -/
def commitSleep (step : NewJobStep) (wakeAt : Int) (limits : StepLimits)
    (jobNamespace : Option String) (now : Int) : Txn SleepOutcome := fun db =>
  match db.jobSteps.find (step.jobId, step.seq) with
  | some stored => do
    let outcome ← replaySleep step stored
    return (outcome, db)
  | none => do
    let (committed, _) := stepTotals step.jobId db
    checkStepPosition step.jobId step.seq step.stepKey committed db
    checkStepCount committed step.stepKey limits
    let db ← insertStepRow step jobNamespace (some wakeAt) now db
    return (.slept wakeAt, db)

/-- The deadline a sleep rescheduled its job to. -/
def SleepOutcome.wakeAt : SleepOutcome → Int
  | slept wakeAt => wakeAt
  | alreadySleeping wakeAt => wakeAt

/-- Release the claim and put the sleeping job back to pending. -/
def suspendJob (jobId : JobId) (wakeAt : Int) (db : Db) : Except QueueError Db :=
  let jobs := db.jobs.update (fun j => j.id = jobId ∧ j.status = .running)
    (·.backToPending wakeAt)
    (preserves_backToPending jobId _ (fun _ => rfl) (fun _ => rfl) fun _ => rfl)
  if db.jobs.count (fun j => j.id = jobId ∧ j.status = .running) = 0 then
    .error (.claimLost jobId)
  else .ok (deleteClaim jobId { db with jobs })

/-- End the attempt in a sleep: commit the row, release the claim, reschedule the job. -/
def sleepJob (step : NewJobStep) (owner : String) (attempt : Int) (wakeAt : Int)
    (limits : StepLimits) (namespace_ : Option String) (now : Int) : Txn SleepOutcome :=
  fun db => do
    let limits := limits.clamped
    let (jobNamespace, db) ← resolveStepFence step.jobId owner attempt namespace_ true now db
    let (outcome, db) ← commitSleep step wakeAt limits jobNamespace now db
    let db ← suspendJob step.jobId outcome.wakeAt db
    return (outcome, db)

/-! ## Execution claims -/

/-- Claim the execution of a job for a worker; the answer is `false` when it is held. -/
def claimExecution (jobId : JobId) (workerId : String) (now : Int) : Txn Bool := fun db =>
  match db.executionClaims.insert ⟨jobId, workerId, now⟩ with
  | some executionClaims => .ok (true, { db with executionClaims })
  | none => .ok (false, db)

/-- Claim many jobs in one transaction; a held one is reported and skipped. -/
def claimExecutionBatch (workerId : String) (now : Int) : List JobId → Txn (List Bool)
  | [], db => .ok ([], db)
  | jobId :: rest, db => do
    let (won, db) ← claimExecution jobId workerId now db
    let (out, db) ← claimExecutionBatch workerId now rest db
    return (won :: out, db)

def transferable (jobId : JobId) (expectedOwner : String) (c : ExecutionClaim) : Bool :=
  c.jobId = jobId ∧ c.workerId = expectedOwner

theorem preserves_transferred (jobId : JobId) (expectedOwner newOwner : String) (now : Int) :
    Table.Preserves executionClaimsSchema (transferable jobId expectedOwner)
      fun c => { c with workerId := newOwner, claimedAt := now } :=
  fun _ _ => ⟨rfl, Or.inl rfl⟩

/-- Transfer a claim from one worker to another, if the first still holds it. -/
def reclaimExecution (jobId : JobId) (expectedOwner newOwner : String) (now : Int) : Txn Bool :=
  fun db =>
    let executionClaims := db.executionClaims.update (transferable jobId expectedOwner)
      (fun c => { c with workerId := newOwner, claimedAt := now })
      (preserves_transferred jobId expectedOwner newOwner now)
    .ok (decide (db.executionClaims.count (transferable jobId expectedOwner) ≠ 0),
      { db with executionClaims })

/-- Drop claims by age. -/
def purgeExecutionClaims (olderThanMs : Int) : Txn Unit := fun db =>
  .ok ((), { db with
    executionClaims := db.executionClaims.delete fun c => c.claimedAt < olderThanMs })

end Flexiq
