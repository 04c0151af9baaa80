import Flexiq.Maintenance

/-!
# Dispatching jobs

A dispatch cycle dequeues jobs — which makes them running —, sheds what waited too long, claims
the rest, and takes each claimed job through the gates: rate limits and circuit breaker first,
then the concurrency caps, then the worker channel. A job that a gate refuses goes back to the
queue or, where its task asks for that, to the dead-letter queue.

The caps compare against a count of running jobs that is read **once** a cycle (`GateCounts`) and
lowered by hand for each job the cycle gives back.
-/

namespace Flexiq

namespace Sched

variable {σ : Type} (cfg : σ → Scheduler)

/-! ## Delays and reasons -/

def circuitBreakerRetryDelayMs : Int := 5000
def rateLimitRetryDelayMs : Int := 1000
def concurrencyRetryDelayMs : Int := 500
def channelBackpressureRetryDelayMs : Int := 100
def claimErrorRetryDelayMs : Int := 250

def rateLimitShedReason (scope : String) : String :=
  "rate_limit: " ++ scope ++ " is over its dispatch rate limit, and its on_excess is drop"

def rateLimitShedMetadata : String := "\x7b\"shed\":\"rate_limit\"\x7d"

def codelShedReason (sojourn target : Int) : String :=
  "codel: sojourn " ++ toString sojourn ++ "ms exceeded target " ++ toString target ++
    "ms under sustained overload"

def codelShedMetadata : String := "\x7b\"codel\":true\x7d"

/-! ## Cached counts -/

/-- The running-job counts of one dispatch cycle, by task and by queue. -/
structure GateCounts where
  taskRunning : List (String × Int)
  queueRunning : List (String × Int)
  deriving DecidableEq

namespace GateCounts

/-- Nothing is counted yet. -/
def empty : GateCounts := ⟨[], []⟩

def decrement (counts : List (String × Int)) (key : String) : List (String × Int) :=
  counts.map fun e => if e.1 = key then (e.1, e.2 - 1) else e

theorem lookup_decrement (counts : List (String × Int)) (key k : String) :
    (decrement counts key).lookup k =
      if k = key then (counts.lookup k).map (· - 1) else counts.lookup k := by
  induction counts with
  | nil => simp [decrement]
  | cons e rest ih =>
    obtain ⟨name, n⟩ := e
    simp only [decrement, List.map_cons] at ih ⊢
    by_cases hk : k = name
    · subst hk
      by_cases hkey : k = key <;> simp [hkey]
    · have hne : (k == name) = false := beq_false_of_ne hk
      by_cases hkey : name = key
      · simp only [hkey, if_true, List.lookup_cons] at hne ⊢
        rw [hne]
        exact ih
      · simp only [if_neg hkey, List.lookup_cons, hne]
        exact ih

/-- Drop a job that was rolled back. -/
def release (counts : GateCounts) (taskName queue : String) : GateCounts :=
  ⟨decrement counts.taskRunning taskName, decrement counts.queueRunning queue⟩

end GateCounts

def cachedTaskRunning (s : σ) (counts : GateCounts) (taskName : String) :
    SchedProg σ (Option Int × GateCounts) :=
  match counts.taskRunning.lookup taskName with
  | some n => return (some n, counts)
  | none => do
    let running : Option Nat ←
      storage s .loop (txn (.countRunningByTask taskName (cfg s).namespace_))
    match running with
    | none => return (none, counts)
    | some n =>
      return (some n, { counts with taskRunning := (taskName, n) :: counts.taskRunning })

def cachedQueueRunning (s : σ) (counts : GateCounts) (queue : String) :
    SchedProg σ (Option Int × GateCounts) :=
  match counts.queueRunning.lookup queue with
  | some n => return (some n, counts)
  | none => do
    let running : Option Nat ←
      storage s .loop (txn (.countRunningByQueue queue (cfg s).namespace_))
    match running with
    | none => return (none, counts)
    | some n => return (some n, { counts with queueRunning := (queue, n) :: counts.queueRunning })

/-! ## Gates -/

/-- What the gates before the claim decided about a job. -/
inductive GateDecision where
  | proceed
  | defer (delayMs : Int)
  | shed (reason : String)
  deriving DecidableEq

def rateLimited (onExcess : OnExcess) (scope : String) : GateDecision :=
  match onExcess with
  | .defer => .defer rateLimitRetryDelayMs
  | .drop => .shed (rateLimitShedReason scope)

def queueGate (s : σ) (job : Job) (onExcess : OnExcess) : SchedProg σ (Option GateDecision) :=
  match (cfg s).queueConfigs job.queue with
  | some { rateLimit := true, .. } => do
    match ← ask (.tryAcquire s ("queue:" ++ job.queue)) with
    | none => return none
    | some true => return some .proceed
    | some false => return some (rateLimited onExcess ("queue '" ++ job.queue ++ "'"))
  | _ => return some .proceed

def breakerGate (s : σ) (job : Job) (config : TaskConfig) : SchedProg σ (Option GateDecision) :=
  if config.circuitBreaker then do
    match ← ask (.breakerAllows s job.taskName) with
    | none => return none
    | some true => return some .proceed
    | some false => return some (.defer circuitBreakerRetryDelayMs)
  else return some .proceed

def taskGate (s : σ) (job : Job) (config : TaskConfig) : SchedProg σ (Option GateDecision) :=
  if config.rateLimit then do
    match ← ask (.tryAcquire s job.taskName) with
    | none => return none
    | some true => return some .proceed
    | some false => return some (rateLimited config.onExcess ("task '" ++ job.taskName ++ "'"))
  else return some .proceed

/-- The soft gates of a job: its queue's rate limit, its task's circuit breaker and its task's
rate limit. The first that objects decides. -/
def checkPreClaimGates (s : σ) (job : Job) : SchedProg σ (Option GateDecision) := do
  let taskConfig := (cfg s).taskConfigs job.taskName
  let onExcess := (taskConfig.map TaskConfig.onExcess).getD .defer
  match ← queueGate cfg s job onExcess with
  | some .proceed =>
    match taskConfig with
    | none => return some .proceed
    | some config =>
      match ← breakerGate s job config with
      | some .proceed => taskGate s job config
      | decision => return decision
  | decision => return decision

/-! ## Giving a job back -/

/-- Drop the claim of a job and put the job back in its queue, without spending a retry. -/
def rollbackClaimAndReschedule (s : σ) (id : JobId) (nextAt : Int) :
    SchedProg σ (Option Unit) := do
  match ← storage s .loop (Ops.completeExecution id (cfg s).namespace_) with
  | none => return none
  | some () => attempt s .loop (txn (.reschedule id nextAt))

/-- Roll a job back, due again after a randomised delay. -/
def rollback (s : σ) (job : Job) (now delayMs : Int) : SchedProg σ (Option Bool) := do
  let delay : Int ← ask (.desyncDelay s delayMs)
  match ← rollbackClaimAndReschedule cfg s job.id (now + delay) with
  | none => return none
  | some () => return some false

/-- Dead-letter a job the rate limiter shed, after dropping its claim if it has one. -/
def shedRateLimited (s : σ) (job : Job) (reason : String) (claimed : Bool) :
    SchedProg σ (Option Unit) := do
  if claimed then
    let _ ← storage s .loop (Ops.completeExecution job.id (cfg s).namespace_)
  deadLetter cfg s .loop job reason (some rateLimitShedMetadata) true

/-! ## After the claim -/

def queueCap (s : σ) (job : Job) (counts : GateCounts) :
    SchedProg σ (Option Bool × GateCounts) :=
  match ((cfg s).queueConfigs job.queue).bind QueueConfig.maxConcurrent with
  | none => return (some true, counts)
  | some maxConc => do
    let (n, counts) ← cachedQueueRunning cfg s counts job.queue
    return (n.map fun n => n ≤ maxConc, counts)

def taskCap (s : σ) (job : Job) (counts : GateCounts) :
    SchedProg σ (Option Bool × GateCounts) :=
  match ((cfg s).taskConfigs job.taskName).bind TaskConfig.maxConcurrent with
  | none => return (some true, counts)
  | some maxConc => do
    let (n, counts) ← cachedTaskRunning cfg s counts job.taskName
    return (n.map fun n => n ≤ maxConc, counts)

/-- The two counters are one program: a number is read unless the cycle has it. -/
def cachedRunning (cached : Option Int) (read : SchedProg σ (Option Nat))
    (keep : Int → GateCounts) (counts : GateCounts) : SchedProg σ (Option Int × GateCounts) :=
  match cached with
  | some n => return (some n, counts)
  | none => do
    match ← read with
    | none => return (none, counts)
    | some n => return (some n, keep n)

/-- The two caps are one program. -/
def cap (limit : Option Int) (cached : SchedProg σ (Option Int × GateCounts))
    (counts : GateCounts) : SchedProg σ (Option Bool × GateCounts) :=
  match limit with
  | none => return (some true, counts)
  | some maxConc => do
    let (n, counts) ← cached
    return (n.map fun n => n ≤ maxConc, counts)

theorem queueCap_eq_cap (s : σ) (job : Job) (counts : GateCounts) :
    queueCap cfg s job counts =
      cap (((cfg s).queueConfigs job.queue).bind QueueConfig.maxConcurrent)
        (cachedRunning (counts.queueRunning.lookup job.queue)
          (storage s .loop (txn (.countRunningByQueue job.queue (cfg s).namespace_)))
          (fun n => { counts with queueRunning := (job.queue, n) :: counts.queueRunning })
          counts) counts := rfl

theorem taskCap_eq_cap (s : σ) (job : Job) (counts : GateCounts) :
    taskCap cfg s job counts =
      cap (((cfg s).taskConfigs job.taskName).bind TaskConfig.maxConcurrent)
        (cachedRunning (counts.taskRunning.lookup job.taskName)
          (storage s .loop (txn (.countRunningByTask job.taskName (cfg s).namespace_)))
          (fun n => { counts with taskRunning := (job.taskName, n) :: counts.taskRunning })
          counts) counts := rfl

/-- The cap on the job's task within this scheduler. The job itself is not tracked yet. -/
def bulkhead (s : σ) (job : Job) : SchedProg σ Bool :=
  match ((cfg s).taskConfigs job.taskName).bind TaskConfig.maxInFlightPerTask with
  | none => return true
  | some maxInFlight => do
    let used : Nat ← ask (.taskInFlight s job.taskName)
    return used < maxInFlight

def checkPostClaimConcurrency (s : σ) (job : Job) (counts : GateCounts) :
    SchedProg σ (Option Bool × GateCounts) := do
  match ← queueCap cfg s job counts with
  | (some true, counts) =>
    match ← taskCap cfg s job counts with
    | (some true, counts) => return (some (← bulkhead cfg s job), counts)
    | refused => return refused
  | refused => return refused

/-- The tail of every dispatch: the hard gates, then the hand-over. The job is recorded as in
flight **before** it is sent, since its result may come back at once. -/
def finishDispatch (s : σ) (job : Job) (now : Int) (counts : GateCounts) :
    SchedProg σ (Option Bool × GateCounts) := do
  match ← checkPostClaimConcurrency cfg s job counts with
  | (none, counts) => return (none, counts)
  | (some false, counts) =>
    let counts := counts.release job.taskName job.queue
    return (← rollback cfg s job now concurrencyRetryDelayMs, counts)
  | (some true, counts) =>
    ask (.trackInFlight s job.id ⟨job.taskName, (cfg s).claimOwner, job.retryCount⟩)
    let accepted : Bool ← ask (.trySend s job)
    if accepted then return (some true, counts)
    else
      ask (.untrackInFlight s job.id)
      let counts := counts.release job.taskName job.queue
      return (← rollback cfg s job now channelBackpressureRetryDelayMs, counts)

/-- Dispatch a job whose claim is already written: whatever turns it away also drops the
claim. -/
def dispatchClaimed (s : σ) (job : Job) (now : Int) (counts : GateCounts) :
    SchedProg σ (Option Bool × GateCounts) := do
  match ← checkPreClaimGates cfg s job with
  | none => return (none, counts)
  | some .proceed => finishDispatch cfg s job now counts
  | some (.defer delayMs) =>
    let counts := counts.release job.taskName job.queue
    return (← rollback cfg s job now delayMs, counts)
  | some (.shed reason) =>
    let counts := counts.release job.taskName job.queue
    match ← shedRateLimited cfg s job reason true with
    | none => return (none, counts)
    | some () => return (some true, counts)

/-- What became of an attempt to claim a job. -/
inductive ClaimOutcome where
  | claimed
  | alreadyClaimed
  | errored
  deriving DecidableEq

def claimForDispatch (s : σ) (job : Job) : SchedProg σ ClaimOutcome := do
  let now ← ask (.nowMillis s)
  match ← attempt s .loop (txn (.claimExecution job.id (cfg s).claimOwner now)) with
  | some true => return .claimed
  | some false => return .alreadyClaimed
  | none => return .errored

/-- Dispatch a job that is not claimed yet: soft gates, claim, tail. -/
def gateAndDispatch (s : σ) (job : Job) (now : Int) (counts : GateCounts) :
    SchedProg σ (Option Bool × GateCounts) := do
  match ← checkPreClaimGates cfg s job with
  | none => return (none, counts)
  | some (.defer delayMs) =>
    let delay : Int ← ask (.desyncDelay s delayMs)
    match ← attempt s .loop (txn (.reschedule job.id (now + delay))) with
    | none => return (none, counts)
    | some () => return (some false, counts.release job.taskName job.queue)
  | some (.shed reason) =>
    match ← shedRateLimited cfg s job reason false with
    | none => return (none, counts)
    | some () => return (some true, counts.release job.taskName job.queue)
  | some .proceed =>
    match ← claimForDispatch cfg s job with
    | .claimed => finishDispatch cfg s job now counts
    | .alreadyClaimed => return (some false, counts)
    | .errored =>
      let counts := counts.release job.taskName job.queue
      return (← rollback cfg s job now claimErrorRetryDelayMs, counts)

/-! ## Cycles -/

/-- Shed the jobs that waited too long, where their queue asks for it. An error leaves the rest
of the batch behind. -/
def codelAdmit (s : σ) (now : Int) : List Job → SchedProg σ (Option (List Job))
  | [] => return some []
  | job :: rest =>
    match (cfg s).codelTargets job.queue with
    | none => do
      match ← codelAdmit s now rest with
      | none => return none
      | some kept => return some (job :: kept)
    | some target => do
      let sojourn := max (saturatingAdd now (-job.scheduledAt)) 0
      let drop : Bool ← ask (.codelShouldDrop s job.queue sojourn now)
      if drop then
        match ← deadLetter cfg s .loop job (codelShedReason sojourn target)
            (some codelShedMetadata) true with
        | none => return none
        | some () => codelAdmit s now rest
      else
        match ← codelAdmit s now rest with
        | none => return none
        | some kept => return some (job :: kept)

def activeQueues (s : σ) : SchedProg σ (List String) := do
  let paused : List String ← ask (.listPausedQueues s)
  return (cfg s).queues.filter fun q => q ∉ paused

/-- How many more jobs may be in flight. -/
def inFlightRemaining (s : σ) : SchedProg σ (Option Nat) :=
  match (cfg s).maxInFlight with
  | none => return none
  | some max => do
    let used : Nat ← ask (.inFlightLen s)
    return some (max - used)

/-- Dequeue one job and dispatch it. -/
def dispatchOne (s : σ) (queues : List String) (now : Int) : SchedProg σ Unit := do
  match ← attempt s .loop
      (Ops.dequeueFrom now (cfg s).namespace_ (cfg s).dispatchOrders queues) with
  | some (some job) =>
    match ← codelAdmit cfg s now [job] with
    | some (job :: _) =>
      let _ ← gateAndDispatch cfg s job now .empty
      return ()
    | _ => return ()
  | _ => return ()

/-- One dispatch cycle for a single job. -/
def tryDispatch (s : σ) : SchedProg σ Unit := do
  let now : Int ← ask (.nowMillis s)
  let queues ← activeQueues cfg s
  let remaining ← inFlightRemaining cfg s
  let capacity : Nat ← ask (.capacity s)
  if queues.isEmpty || remaining == some 0 || capacity == 0 then return ()
  else dispatchOne cfg s queues now

/-- Run a dispatch over the jobs of a batch, sharing the counts. -/
def dispatchEach (dispatch : Job → GateCounts → SchedProg σ (Option Bool × GateCounts)) :
    List Job → GateCounts → SchedProg σ Unit
  | [], _ => return ()
  | job :: rest, counts => do
    let (_, counts) ← dispatch job counts
    dispatchEach dispatch rest counts

/-- The jobs of a batch whose claim was won. -/
def wonJobs (jobs : List Job) (won : List Bool) : List Job :=
  ((jobs.zip won).filter Prod.snd).map Prod.fst

/-- Claim a dequeued batch and dispatch the jobs whose claim was won; when the claim fails as a
whole, each job claims for itself. -/
def claimAndDispatch (s : σ) (jobs : List Job) (now : Int) : SchedProg σ Unit := do
  let claimNow : Int ← ask (.nowMillis s)
  match ← attempt s .loop
      (txn (.claimExecutionBatch (jobs.map Job.id) (cfg s).claimOwner claimNow)) with
  | none => dispatchEach (fun job => gateAndDispatch cfg s job now) jobs .empty
  | some won => dispatchEach (fun job => dispatchClaimed cfg s job now) (wonJobs jobs won) .empty

/-- Dequeue a batch of jobs and dispatch them. -/
def dispatchBatch (s : σ) (queues : List String) (now : Int) (budget : Nat) :
    SchedProg σ Unit := do
  match ← attempt s .loop
      (Ops.dequeueBatchFrom now (cfg s).namespace_ (cfg s).dispatchOrders budget queues) with
  | none => return ()
  | some jobs =>
    match ← codelAdmit cfg s now jobs with
    | none => return ()
    | some jobs => if jobs.isEmpty then return () else claimAndDispatch cfg s jobs now

/-- One dispatch cycle for a batch, sized to the free places. -/
def tryDispatchBatch (s : σ) : SchedProg σ Unit := do
  let now : Int ← ask (.nowMillis s)
  let queues ← activeQueues cfg s
  let capacity : Nat ← ask (.capacity s)
  let remaining ← inFlightRemaining cfg s
  let budget := min (min (cfg s).batchSize capacity) (remaining.getD capacity)
  if queues.isEmpty || capacity == 0 || remaining == some 0 then return ()
  else dispatchBatch cfg s queues now budget

/-! ## Side operations -/

variable {s : σ} {job : Job} {config : TaskConfig}

theorem quietOnly_queueGate {onExcess : OnExcess} : QuietOnly (queueGate cfg s job onExcess) := by
  unfold queueGate
  split
  · refine (QuietOnly.ask rfl).bind fun r => ?_
    rcases r with _ | _ | _ <;> exact .ret _
  · exact .ret _

theorem quietOnly_breakerGate : QuietOnly (breakerGate s job config) := by
  unfold breakerGate
  split
  · refine (QuietOnly.ask rfl).bind fun r => ?_
    rcases r with _ | _ | _ <;> exact .ret _
  · exact .ret _

theorem quietOnly_taskGate : QuietOnly (taskGate s job config) := by
  unfold taskGate
  split
  · refine (QuietOnly.ask rfl).bind fun r => ?_
    rcases r with _ | _ | _ <;> exact .ret _
  · exact .ret _

theorem quietOnly_checkPreClaimGates (s : σ) (job : Job) :
    QuietOnly (checkPreClaimGates cfg s job) := by
  refine (quietOnly_queueGate _).bind fun decision => ?_
  split
  · split
    · exact .ret _
    · refine quietOnly_breakerGate.bind fun decision => ?_
      split
      · exact quietOnly_taskGate
      · exact .ret _
  · exact .ret _

theorem quietOnly_bulkhead (s : σ) (job : Job) : QuietOnly (bulkhead cfg s job) := by
  unfold bulkhead
  split
  · exact .ret _
  · exact (QuietOnly.ask rfl).bind fun _ => .ret _

theorem quietOnly_activeQueues (s : σ) : QuietOnly (activeQueues cfg s) :=
  (QuietOnly.ask rfl).bind fun _ => .ret _

theorem quietOnly_inFlightRemaining (s : σ) : QuietOnly (inFlightRemaining cfg s) := by
  unfold inFlightRemaining
  split
  · exact .ret _
  · exact (QuietOnly.ask rfl).bind fun _ => .ret _

theorem sideOnly_cap {read : SchedProg σ (Option Nat)} (h : SideOnly read) {limit : Option Int}
    {cached : Option Int} {keep : Int → GateCounts} {counts : GateCounts} :
    SideOnly (cap limit (cachedRunning cached read keep counts) counts) := by
  unfold cap cachedRunning
  split
  · exact .ret _
  · refine .bind ?_ fun _ => .ret _
    split
    · exact .ret _
    · refine h.bind fun r => ?_
      rcases r with _ | _ <;> exact .ret _

theorem sideOnly_checkPostClaimConcurrency (s : σ) (job : Job) (counts : GateCounts) :
    SideOnly (checkPostClaimConcurrency cfg s job counts) := by
  refine .bind (p := queueCap cfg s job counts) ?_ fun r => ?_
  · rw [queueCap_eq_cap]
    exact sideOnly_cap (.storage (sideTxn rfl) s _)
  split
  · refine .bind (p := taskCap cfg s job _) ?_ fun r => ?_
    · rw [taskCap_eq_cap]
      exact sideOnly_cap (.storage (sideTxn rfl) s _)
    split
    · exact (quietOnly_bulkhead cfg s job).side.bind fun _ => .ret _
    · exact .ret _
  · exact .ret _

/-! ## Calls -/

/-- What the threads of schedulers, and the other clients, can be asked to do. A result comes
with the retry count its run was dispatched with. -/
inductive Call (σ : Type) where
  | client (call : StoreCall)
  | handleResult (s : σ) (attempt : Int) (result : JobResult)
  | handleResults (s : σ) (results : List (Int × JobResult))
  | reapStale (s : σ)
  | recoverOrphanedJobs (s : σ) (now : Int)
  | tryDispatch (s : σ)
  | tryDispatchBatch (s : σ)
  /-- The process of a scheduler ends. -/
  | stop (s : σ)

/-- A call of another client: its transactions do not fail. -/
def clientProg (codec : MetadataCodec) (call : StoreCall) : SchedProg σ Unit := do
  let _ ← (call.prog codec).guarded (T := schedSig σ) SchedOp.client fun _ r => some r
  return ()

def Call.prog (codec : MetadataCodec) : Call σ → SchedProg σ Unit
  | client call => clientProg codec call
  | handleResult s k r => do
    let _ ← Sched.handleResult cfg s (.results [⟨r.jobId, k⟩]) r
    return ()
  | handleResults s rs => do
    let _ ← Sched.handleResults cfg s rs
    return ()
  | reapStale s => Sched.reapStale cfg s
  | recoverOrphanedJobs s now => Sched.recoverOrphanedJobs cfg s now
  | tryDispatch s => Sched.tryDispatch cfg s
  | tryDispatchBatch s => Sched.tryDispatchBatch cfg s
  | stop s => ask (.stop s)

end Sched

abbrev schedClients {σ : Type} (cfg : σ → Scheduler) (codec : MetadataCodec) :
    Clients (schedSig σ) := ⟨Sched.Call σ, Sched.Call.prog cfg codec⟩

end Flexiq
