import Flexiq.ResultHandler

/-!
# Sweeping for overdue work

`reapStale` expires pending jobs, drops old claims, times out the runs that are overdue and
then rescues the jobs of workers that died. A timeout and a rescue are both handled as a failed
run: the scheduler makes up the result and handles it like a worker's.

A timeout is selected by one transaction and handled by several later ones, with nothing in
between to keep the job as it was. A rescue first transfers the job's claim, which only one
scheduler can win.
-/

namespace Flexiq

namespace Sched

variable {σ : Type} (cfg : σ → Scheduler)

/-- How old a claim has to be to be dropped, in milliseconds. -/
def claimMaxAge : Int := 3600000

/-- The result that stands for an overdue run. -/
def timeoutResult (job : Job) : JobResult := .failure {
  jobId := job.id
  error := "job timed out after " ++ toString job.timeoutMs ++ "ms"
  retryCount := job.retryCount
  maxRetries := job.maxRetries
  taskName := job.taskName
  wallTimeNs := 0
  shouldRetry := true
  timedOut := true }

/-- The result that stands for a run whose worker died. -/
def rescueResult (job : Job) (deadOwner : String) : JobResult := .failure {
  jobId := job.id
  error := "worker " ++ deadOwner ++ " died; recovering in-flight job"
  retryCount := job.retryCount
  maxRetries := job.maxRetries
  taskName := job.taskName
  wallTimeNs := 0
  shouldRetry := true
  timedOut := false }

/-- Time out the selected jobs, one after the other; the first error ends the sweep. -/
def reapEach (s : σ) : List Job → SchedProg σ (Option Unit)
  | [] => return some ()
  | job :: rest => do
    match ← handleResult cfg s (.reap ⟨job.id, job.retryCount⟩) (timeoutResult job) with
    | none => return none
    | some _ => reapEach s rest

/-- Transfer the claim of a dead worker's job and, when that succeeds, record the job as
dispatched by this scheduler and fail the run. -/
def rescue (s : σ) (job : Job) (deadOwner : String) : SchedProg σ Unit := do
  let why := Cause.rescue ⟨job.id, job.retryCount⟩
  let now ← ask (.nowMillis s)
  match ← attempt s why
      (txn (.reclaimExecution job.id deadOwner (cfg s).claimOwner now)) with
  | some true =>
    ask (.trackInFlight s job.id ⟨job.taskName, (cfg s).claimOwner, job.retryCount⟩)
    let _ ← handleResult cfg s why (rescueResult job deadOwner)
    return ()
  | _ => return ()

/-- Rescue the running jobs whose worker is no longer alive. The scheduler counts itself among
the living. -/
def recoverOrphanedJobs (s : σ) (now : Int) : SchedProg σ Unit := do
  match ← ask (.listLiveWorkerIds s now) with
  | none => return ()
  | some alive =>
    let live := alive ++ [(cfg s).claimOwner]
    match ← storage s .loop (txn (.reapOrphanedJobs live (cfg s).namespace_)) with
    | none => return ()
    | some orphans => Prog.forEach orphans fun o => rescue cfg s o.1 o.2

/-- One sweep. -/
def reapStale (s : σ) : SchedProg σ Unit := do
  let now ← ask (.nowMillis s)
  let _ ← attempt s .loop (Ops.expirePendingJobs now (cfg s).fuel)
  let _ ← attempt s .loop (txn (.purgeExecutionClaims (saturatingAdd now (-claimMaxAge))))
  match ← storage s .loop (txn (.reapStaleJobs now (cfg s).namespace_)) with
  | none => return ()
  | some staleJobs =>
    match ← reapEach cfg s staleJobs with
    | none => return ()
    | some () => recoverOrphanedJobs cfg s now

end Sched

end Flexiq
