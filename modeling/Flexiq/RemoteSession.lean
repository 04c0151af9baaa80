import Flexiq.RemoteControl
import Flexiq.Parallel

/-!
# An executor's session

The other end of a connection, as the executor runs it: a reader that hands dispatched jobs to the
pool, the pool, a thread that writes results back, and a heartbeat thread. The executor counts the
jobs it holds in one atomic counter and publishes what that leaves free in another; the heartbeat
thread loads the published value and writes it, two separate accesses.

`Link` joins the session to the dispatcher over connection 0. Frames arrive in the order they were
written and none is lost, and the session does not drain.
-/

namespace Flexiq

def Frame.fromJobResult : JobResult → Frame
  | .success c => ⟨.success c.jobId (c.result.map List.length) c.taskName c.wallTimeNs,
      c.result.getD []⟩
  | .failure f => ⟨.failure f, []⟩
  | .cancelled jobId taskName wallTimeNs => ⟨.cancelled jobId taskName wallTimeNs, []⟩

/-- The outcome a frame reports. -/
def Frame.result (f : Frame) : Option JobResult := f.message.intoJobResult f.payload

/-- An outcome survives the wire; in particular a missing result and an empty one stay apart. -/
theorem Frame.result_fromJobResult (r : JobResult) : (Frame.fromJobResult r).result = some r := by
  cases r with
  | success c =>
    obtain ⟨jobId, result, taskName, ns⟩ := c
    cases result <;> rfl
  | failure => rfl
  | cancelled => rfl

/-- What a task reports while it runs. -/
inductive SideReport where
  | progress (jobId : JobId) (progress : Int)
  | taskLog (jobId : JobId) (taskName level message : String) (extra : Option Bytes)
  deriving DecidableEq

def SideReport.frame : SideReport → Frame
  | progress jobId p => ⟨.progress jobId p, []⟩
  | taskLog jobId taskName level message extra =>
    ⟨.taskLog jobId taskName level message (extra.map List.length), extra.getD []⟩

theorem SideReport.result_frame (r : SideReport) : r.frame.result = none := by cases r <;> rfl

/-- How a run of a job ended. -/
inductive Outcome where
  | success (result : Option Bytes) (wallTimeNs : Int)
  | failure (error : String) (wallTimeNs : Int) (shouldRetry timedOut : Bool)
  | cancelled (wallTimeNs : Int)
  deriving DecidableEq

def Outcome.of (job : Job) : Outcome → JobResult
  | success result ns => .success ⟨job.id, result, job.taskName, ns⟩
  | failure error ns shouldRetry timedOut =>
    .failure ⟨job.id, error, job.retryCount, job.maxRetries,
      job.taskName, ns, shouldRetry, timedOut⟩
  | cancelled ns => .cancelled job.id job.taskName ns

theorem Outcome.jobId_of (job : Job) (o : Outcome) : (o.of job).jobId = job.id := by cases o <;> rfl

/-! ## State and operations -/

/-- What the executor's threads share. -/
structure ExecutorSession where
  /-- Concurrency announced at the handshake. -/
  slots : UInt32
  /-- Slots not occupied, as published for the heartbeat. -/
  freeSlots : UInt32
  /-- Jobs handed to the pool and not yet answered. -/
  inFlight : UInt32
  draining : Bool
  /-- The channel into the pool. -/
  queue : List Job
  running : List Job
  /-- The channel out of the pool. -/
  results : List JobResult
  /-- The jobs received whose result has not been written yet. -/
  unanswered : List JobId

namespace ExecutorSession

/-- A session that has received nothing. -/
def start (slots : UInt32) : ExecutorSession := ⟨slots, slots, 0, false, [], [], [], []⟩

/-- The channels hold twice the announced slots. -/
def capacity (y : ExecutorSession) : Nat := max y.slots.toNat 1 * 2

end ExecutorSession

/-- What handing a job to the pool answers. -/
inductive TrySend where
  | ok
  | full
  | closed
  deriving DecidableEq

/-- The atomic operations of the executor. -/
inductive SessionOp where
  /-- Read the next dispatched job. -/
  | receive
  /-- Whether jobs are still accepted. -/
  | jobSender
  | loadDraining
  /-- `in_flight.fetch_add(1)`. -/
  | countStarted
  /-- `in_flight.fetch_update(saturating_sub(1))`. -/
  | countFinished
  | loadInFlight
  | storeFree (n : UInt32)
  | loadFree
  | trySend (job : Job)
  /-- The pool takes a job. -/
  | startJob
  /-- The pool ends the job at this place and queues its result. -/
  | finishJob (i : Nat) (outcome : Outcome)
  | takeResult
  | send (frame : Frame)
  deriving DecidableEq

/-- What an operation answers. -/
@[reducible] def SessionOp.Res : SessionOp → Type
  | receive => Option Job
  | jobSender | loadDraining => Bool
  | loadInFlight | loadFree => UInt32
  | trySend _ => TrySend
  | takeResult => Option JobResult
  | countStarted | countFinished | storeFree _ | startJob | finishJob _ _ | send _ => Unit

/-- The executor's operations. -/
abbrev sessionSig : Signature := ⟨SessionOp, SessionOp.Res⟩

/-- One atomic call of the executor on connection 0. -/
def ExecutorSession.exec :
    (op : SessionOp) → Remote × ExecutorSession → op.Res × Remote × ExecutorSession
  | .receive, (s, y) =>
    match (s.conn 0).outbox with
    | [] => (none, s, y)
    | (job, _) :: rest =>
      (some job, s.modify 0 fun x => { x with outbox := rest },
        { y with unanswered := y.unanswered ++ [job.id] })
  | .jobSender, (s, y) => (!y.draining, s, y)
  | .loadDraining, (s, y) => (y.draining, s, y)
  | .countStarted, (s, y) => ((), s, { y with inFlight := y.inFlight + 1 })
  | .countFinished, (s, y) =>
    ((), s, { y with inFlight := if y.inFlight = 0 then 0 else y.inFlight - 1 })
  | .loadInFlight, (s, y) => (y.inFlight, s, y)
  | .storeFree n, (s, y) => ((), s, { y with freeSlots := n })
  | .loadFree, (s, y) => (y.freeSlots, s, y)
  | .trySend job, (s, y) =>
    if y.queue.length < y.capacity then (.ok, s, { y with queue := y.queue ++ [job] })
    else (.full, s, y)
  | .startJob, (s, y) =>
    match y.queue with
    | [] => ((), s, y)
    | job :: rest => ((), s, { y with queue := rest, running := y.running ++ [job] })
  | .finishJob i outcome, (s, y) =>
    match y.running[i]? with
    | none => ((), s, y)
    | some job =>
      ((), s, { y with
        running := y.running.eraseIdx i
        results := y.results ++ [outcome.of job] })
  | .takeResult, (s, y) =>
    match y.results with
    | [] => (none, s, y)
    | r :: rest => (some r, s, { y with results := rest })
  | .send frame, (s, y) =>
    ((), s.modify 0 fun x => { x with inbox := x.inbox ++ [frame] },
      match frame.result with
      | none => y
      | some r => { y with unanswered := y.unanswered.erase r.jobId })

/-! ## Programs -/

/-- A program of the executor. -/
abbrev SessionProg (α : Type) := Prog sessionSig α

namespace RemoteExecutor

/-- Make one call. -/
def ask (op : SessionOp) : SessionProg op.Res := Prog.perform (S := sessionSig) op

/-- Recompute free capacity from the in-flight count, unless draining. -/
def publishFree (slots : UInt32) : SessionProg Unit := do
  if ← ask .loadDraining then return ()
  let running ← ask .loadInFlight
  ask (.storeFree (if running ≤ slots then slots - running else 0))

def jobStarted (slots : UInt32) : SessionProg Unit := do
  ask .countStarted
  publishFree slots

def jobFinished (slots : UInt32) : SessionProg Unit := do
  ask .countFinished
  publishFree slots

/-- Answer a job this executor will not run with a retryable failure. -/
def decline (job : Job) (reason : String) : SessionProg Unit :=
  ask (.send (.fromJobResult (.failure
    { jobId := job.id
      error := "executor did not run '" ++ job.taskName ++ "': " ++ reason
      retryCount := job.retryCount
      maxRetries := job.maxRetries
      taskName := job.taskName
      wallTimeNs := 0
      shouldRetry := true
      timedOut := false })))

/-- Hand one dispatched job to the pool. -/
def acceptJob (slots : UInt32) : SessionProg Unit := do
  match ← ask .receive with
  | none => return ()
  | some job =>
    if !(← ask .jobSender) then decline job "the executor is draining"
    else
      jobStarted slots
      match ← ask (.trySend job) with
      | .ok => return ()
      | .full =>
        jobFinished slots
        decline job "the executor pool is saturated"
      | .closed =>
        jobFinished slots
        decline job "the executor pool has stopped"

/-- Frame one job outcome. The job is counted as finished after its result is written. -/
def sendResult (slots : UInt32) (result : JobResult) : SessionProg Unit := do
  ask (.send (.fromJobResult result))
  jobFinished slots

/-- Frame what the tasks have reported so far. -/
def flushSideChannel (reports : List SideReport) : SessionProg Unit :=
  Prog.forEach reports fun report => ask (.send report.frame)

/-- One pass of the result loop: what the tasks reported so far goes out before the result. -/
def resultLoop (slots : UInt32) (reports : List SideReport) : SessionProg Unit := do
  match ← ask .takeResult with
  | none => return ()
  | some result =>
    flushSideChannel reports
    sendResult slots result

def heartbeat : SessionProg Unit := do
  if ← ask .loadDraining then return ()
  let free ← ask .loadFree
  ask (.send ⟨.heartbeat free, []⟩)

end RemoteExecutor

/-! ## The two ends together -/

/-- The operations of both ends. -/
abbrev linkSig : Signature := remoteSig.sum sessionSig

/-- Both ends of connection 0. -/
abbrev linkMachine : Machine linkSig where
  State := Remote × ExecutorSession
  Env := RemoteEnv
  exec
    | .inl op, env, s =>
      ((Remote.exec op env s.1).1, (Remote.exec op env s.1).2, s.2)
    | .inr op, _, s => ExecutorSession.exec op s

/-- The calls of both ends. -/
inductive LinkCall where
  | place (job : Job) (wakes : Nat)
  | readFrame
  | acceptJob
  | startJob
  | finishJob (i : Nat) (outcome : Outcome)
  | resultLoop (reports : List SideReport)
  /-- A pass of the result loop without a result. -/
  | flushSideChannel (reports : List SideReport)
  | heartbeat

def LinkCall.prog (cfg : RemoteDispatcher.Config) (slots : UInt32) : LinkCall → Prog linkSig Unit
  | .place job wakes => (RemoteDispatcher.place cfg job wakes).left
  | .readFrame => (RemoteDispatcher.readFrame cfg 0).left
  | .acceptJob => (RemoteExecutor.acceptJob slots).right
  | .startJob => (RemoteExecutor.ask .startJob).right
  | .finishJob i outcome => (RemoteExecutor.ask (.finishJob i outcome)).right
  | .resultLoop reports => (RemoteExecutor.resultLoop slots reports).right
  | .flushSideChannel reports => (RemoteExecutor.flushSideChannel reports).right
  | .heartbeat => RemoteExecutor.heartbeat.right

abbrev linkClients (cfg : RemoteDispatcher.Config) (slots : UInt32) : Clients linkSig :=
  ⟨LinkCall, LinkCall.prog cfg slots⟩

/-- The threads of both ends. -/
inductive LinkThread where
  /-- The dispatcher's placing thread, and its reader of connection 0. -/
  | run
  | reader
  /-- The executor's reader, result loop, heartbeat, and the pool's workers. -/
  | accept
  | results
  | heartbeat
  | worker (n : Nat)
  deriving DecidableEq

def linkMayStart (s : Remote) : LinkThread → LinkCall → Bool
  | .reader, .readFrame => s.mayStart (.reader 0) (.readFrame 0)
  | .run, .place _ _ | .accept, .acceptJob | .results, .resultLoop _
  | .results, .flushSideChannel _ | .heartbeat, .heartbeat | .worker _, .startJob
  | .worker _, .finishJob _ _ => true
  | _, _ => false

/-- When an operation of the executor can go on: there is something to read, to take or to end,
and room for a result. -/
def ExecutorSession.mayStep (s : Remote × ExecutorSession) : SessionOp → Bool
  | .receive => !(s.1.conn 0).outbox.isEmpty
  | .startJob => !s.2.queue.isEmpty
  | .finishJob i _ => decide (i < s.2.running.length) && decide (s.2.results.length < s.2.capacity)
  | .takeResult => !s.2.results.isEmpty
  | _ => true

/-- Operations of the dispatcher block as ever; writes succeed, the stream does not end, and the
dispatcher is not drained. -/
def linkMayStep (s : Remote × ExecutorSession) (env : RemoteEnv) : linkSig.Op → Bool
  | .inl op => Remote.mayStep s.1 env op && env.ok && !env.eof && op != .drainExecutors
  | .inr op => ExecutorSession.mayStep s op

/-- Every interleaving of the two ends. -/
abbrev linkRules (cfg : RemoteDispatcher.Config) (slots : UInt32) :
    Rules linkMachine (linkClients cfg slots) LinkThread where
  mayStart s t call := linkMayStart s.1 t call = true
  mayStep s _ op env := linkMayStep s env op = true

/-- The executor has just attached. -/
def linkInit (h : Hello) : Remote × ExecutorSession :=
  (Remote.init.attached h, ExecutorSession.start h.slots)

end Flexiq
