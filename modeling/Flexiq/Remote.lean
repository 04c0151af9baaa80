import Flexiq.Scheduler

/-!
# The remote dispatcher

Executors attach over a connection and are handed jobs; their frames come back on the same
connection. One thread places jobs, one reader thread per connection handles frames, and an
attach runs on the thread that accepted the connection. They meet in the **registry** (executor
id to executor, behind a lock), in each executor's **in-flight map** (behind its own lock) and in
each executor's **free counter**, an atomic 32-bit integer.

A call of the signature below is one critical section or one atomic access, so the runs of a pool
are the interleavings of the source at that granularity. The registry lock is held across several
calls only while a placement scans the counters; everything else that takes it is one call, which
waits until the lock is free.

What a peer writes is not restricted: `send` puts any frame on any connection.
-/

namespace Flexiq

/-! ## Frames -/

/-- The first frame of a connection: who attaches and what it can run. -/
structure Hello where
  executorId : String
  tasks : List String
  slots : UInt32
  protocolVersion : UInt32
  token : Option String
  deriving DecidableEq

/-- What an executor can say. -/
inductive ExecutorMessage where
  | hello (hello : Hello)
  | heartbeat (freeSlots : UInt32)
  | progress (jobId : JobId) (progress : Int)
  | taskLog (jobId : JobId) (taskName level message : String) (extraLen : Option Nat)
  | success (jobId : JobId) (resultLen : Option Nat) (taskName : String) (wallTimeNs : Int)
  | failure (failure : Failure)
  | cancelled (jobId : JobId) (taskName : String) (wallTimeNs : Int)
  /-- A frame type this scheduler does not know. -/
  | unknown (frameType : String)
  deriving DecidableEq

/-- A header and the payload that follows it. -/
structure Frame where
  message : ExecutorMessage
  payload : Bytes
  deriving DecidableEq

/-- The outcome a frame reports, if it is one that does. -/
def ExecutorMessage.intoJobResult (payload : Bytes) : ExecutorMessage → Option JobResult
  | success jobId resultLen taskName wallTimeNs =>
    some (.success ⟨jobId, resultLen.map fun _ => payload, taskName, wallTimeNs⟩)
  | failure f => some (.failure f)
  | cancelled jobId taskName wallTimeNs => some (.cancelled jobId taskName wallTimeNs)
  | hello _ | heartbeat _ | progress _ _ | taskLog _ _ _ _ _ | unknown _ => none

def protocolVersion : UInt32 := 1

/-- Why an attach was refused. -/
inductive AttachError where
  | transport
  | unexpectedFrame (expected : String)
  | versionMismatch (ours theirs : UInt32)
  | unauthorized (executorId : String)
  | duplicateId (executorId : String)
  | shuttingDown
  deriving DecidableEq

/-! ## State -/

/-- What the scheduler remembers about a job it handed to an executor. -/
structure RemoteInFlight where
  taskName : String
  namespace_ : Option String
  deriving DecidableEq

def RemoteInFlight.of (job : Job) : RemoteInFlight := ⟨job.taskName, job.namespace_⟩

/-- One connection: the executor behind it, and the two directions of the wire. A connection that
was never attached is the empty one. -/
structure Executor where
  id : String
  tasks : List String
  slots : UInt32
  /-- Slots not reserved, as the scheduler counts them. -/
  free : UInt32
  inFlight : AList fun _ : JobId => RemoteInFlight
  /-- Frames the peer wrote that the reader has not read. -/
  inbox : List Frame
  /-- Jobs written that the peer has not read, with the middleware disabled for each. -/
  outbox : List (Job × List String)
  /-- The reader has read the end of the stream. -/
  eof : Bool
  /-- A write has failed, or this side has closed the connection. -/
  broken : Bool
  /-- The reader thread has ended. -/
  readerOver : Bool

/-- A connection before its handshake. -/
def Executor.none : Executor := ⟨"", [], 0, 0, ∅, [], [], false, false, false⟩

/-- A freshly attached executor. -/
def Executor.new (h : Hello) : Executor :=
  { Executor.none with id := h.executorId, tasks := h.tasks, slots := h.slots, free := h.slots }

/-- Neither end of the stream nor a failed write has been seen. -/
def Executor.isOpen (x : Executor) : Bool := !x.eof && !x.broken

structure LogLine where
  jobId : JobId
  taskName : String
  level : String
  message : String
  extra : Option String
  namespace_ : Option String
  deriving DecidableEq

structure ProgressValue where
  progress : Int
  namespace_ : Option String
  deriving DecidableEq

/-- What the dispatcher's threads share. Connections are numbered in the order they attached, so
that two of them are told apart even when they announced one id. -/
structure Remote where
  /-- The connections attached so far are those below this number. -/
  next : Nat
  conn : Nat → Executor
  /-- The registry: executor id to connection. -/
  executors : AList fun _ : String => Nat
  /-- A placement holds the registry lock. -/
  locked : Bool
  /-- The executor the placement in progress has reserved a slot of. -/
  placing : Option Nat
  shutdown : Bool
  /-- The newest progress of each job not yet applied. -/
  pendingProgress : AList fun _ : JobId => ProgressValue
  logs : List LogLine
  /-- What has been sent to the scheduler. -/
  results : List JobResult

namespace Remote

/-- A dispatcher without executors. -/
def init : Remote := ⟨0, fun _ => .none, ∅, false, none, false, ∅, [], []⟩

/-- Change one connection. -/
def modify (s : Remote) (e : Nat) (f : Executor → Executor) : Remote :=
  { s with conn := Function.update s.conn e (f (s.conn e)) }

/-- The registry knows the connection. -/
abbrev Registered (s : Remote) (e : Nat) : Prop := s.executors.lookup (s.conn e).id = some e

/-- The registered connections. -/
def values (s : Remote) : List Nat := s.executors.entries.map Sigma.snd

end Remote

/-! ## Operations -/

/-- Which of the two threads that share an executor performs an operation. -/
inductive Side where
  | writer
  | reader
  deriving DecidableEq

/-- The atomic operations. -/
inductive RemoteOp where
  | loadShutdown
  /-- Raise the shutdown flag. -/
  | storeShutdown
  /-- Write the handshake's answer. -/
  | writeAck (h : Hello)
  /-- Under the registry lock: refuse, or number and register the connection. -/
  | register (h : Hello)
  /-- Take the registry lock; the registered executors, with the tasks they advertise. -/
  | lockExecutors
  | unlockExecutors
  | loadFree (e : Nat)
  /-- `free.fetch_sub(1)`. -/
  | reserve (e : Nat)
  /-- `free.fetch_add(1)`. -/
  | release (e : Nat)
  /-- `free.fetch_update(min)`. -/
  | shrink (e : Nat) (freeSlots : UInt32)
  | resolveToggles (taskName : String)
  | insertInFlight (e : Nat) (job : Job)
  | writeJob (e : Nat) (job : Job) (disabled : List String)
  | removeInFlight (e : Nat) (jobId : JobId) (side : Side)
  | running (e : Nat) (jobId : JobId)
  | drainInFlight (e : Nat)
  /-- Under the registry lock: remove whatever is registered under the executor's id. -/
  | deregister (e : Nat)
  /-- The placement in progress is over. -/
  | placed
  /-- Read the next frame; none at the end of the stream. -/
  | read (e : Nat)
  | readerExit (e : Nat)
  /-- Queue a progress value that the connection reported. -/
  | pumpProgress (e : Nat) (jobId : JobId) (value : ProgressValue)
  /-- Queue a log line that the connection reported. -/
  | pumpLog (e : Nat) (line : LogLine)
  | settleProgress (jobId : JobId)
  /-- Send a result to the scheduler; the connection it was taken from, if any. -/
  | emit (source : Option Nat) (result : JobResult)
  /-- Under the registry lock: empty the registry. -/
  | drainExecutors
  | isBusy (e : Nat)
  | close (e : Nat)
  /-- The peer writes a frame. -/
  | send (e : Nat) (frame : Frame)
  deriving DecidableEq

/-- What an operation answers. -/
@[reducible] def RemoteOp.Res : RemoteOp → Type
  | loadShutdown | writeAck _ | writeJob _ _ _ | isBusy _ => Bool
  | register _ => Except AttachError Nat
  | lockExecutors => List (Nat × List String)
  | loadFree _ => UInt32
  | resolveToggles _ => List String
  | removeInFlight _ _ _ | running _ _ => Option RemoteInFlight
  | read _ => Option Frame
  | drainExecutors => List Nat
  | storeShutdown | unlockExecutors | reserve _ | release _ | shrink _ _ | insertInFlight _ _
  | drainInFlight _ | deregister _ | placed | readerExit _ | pumpProgress _ _ _ | pumpLog _ _
  | settleProgress _ | emit _ _ | close _ | send _ _ => Unit

/-- The dispatcher's operations. -/
abbrev remoteSig : Signature := ⟨RemoteOp, RemoteOp.Res⟩

/-- What the world decides at a call. -/
structure RemoteEnv where
  /-- The write succeeds. -/
  ok : Bool
  /-- The stream has ended. -/
  eof : Bool
  /-- The order in which the registry is walked. -/
  order : List Nat
  /-- The middleware disabled for a task. -/
  toggles : List String
  deriving DecidableEq

/-- Writes succeed and the stream goes on. -/
def RemoteEnv.calm : RemoteEnv := ⟨true, false, [], []⟩

/-- The values of a map in the order the world walks it in. -/
def arranged (order values : List Nat) : List Nat := if order.isPerm values then order else values

/-- One atomic call. -/
def Remote.exec : (op : RemoteOp) → RemoteEnv → Remote → op.Res × Remote
  | .loadShutdown, _, s => (s.shutdown, s)
  | .storeShutdown, _, s => ((), { s with shutdown := true })
  | .writeAck _, env, s => (env.ok, s)
  | .register h, _, s =>
    if s.shutdown then (.error .shuttingDown, s)
    else if h.executorId ∈ s.executors then (.error (.duplicateId h.executorId), s)
    else (.ok s.next,
      { s with
        next := s.next + 1
        conn := Function.update s.conn s.next (.new h)
        executors := s.executors.insert h.executorId s.next })
  | .lockExecutors, env, s =>
    ((arranged env.order s.values).map fun e => (e, (s.conn e).tasks), { s with locked := true })
  | .unlockExecutors, _, s => ((), { s with locked := false })
  | .loadFree e, _, s => ((s.conn e).free, s)
  | .reserve e, _, s =>
    ((), { s.modify e fun x => { x with free := x.free - 1 } with placing := some e })
  | .release e, _, s => ((), s.modify e fun x => { x with free := x.free + 1 })
  | .shrink e n, _, s => ((), s.modify e fun x => { x with free := min x.free n })
  | .resolveToggles _, env, s => (env.toggles, s)
  | .insertInFlight e job, _, s =>
    ((), s.modify e fun x => { x with inFlight := x.inFlight.insert job.id (.of job) })
  | .writeJob e job disabled, env, s =>
    (env.ok, s.modify e fun x =>
      if env.ok then { x with outbox := x.outbox ++ [(job, disabled)] }
      else { x with broken := true })
  | .removeInFlight e jobId _, _, s =>
    ((s.conn e).inFlight.lookup jobId,
      s.modify e fun x => { x with inFlight := x.inFlight.erase jobId })
  | .running e jobId, _, s => ((s.conn e).inFlight.lookup jobId, s)
  | .drainInFlight e, _, s => ((), s.modify e fun x => { x with inFlight := ∅ })
  | .deregister e, _, s => ((), { s with executors := s.executors.erase (s.conn e).id })
  | .placed, _, s => ((), { s with placing := none })
  | .read e, env, s =>
    if env.eof then (none, s.modify e fun x => { x with eof := true })
    else ((s.conn e).inbox.head?, s.modify e fun x => { x with inbox := x.inbox.tail })
  | .readerExit e, _, s => ((), s.modify e fun x => { x with readerOver := true })
  | .pumpProgress _ jobId value, _, s =>
    ((), { s with pendingProgress := s.pendingProgress.insert jobId value })
  | .pumpLog _ line, _, s => ((), { s with logs := s.logs ++ [line] })
  | .settleProgress jobId, _, s =>
    ((), { s with pendingProgress := s.pendingProgress.erase jobId })
  | .emit _ result, _, s => ((), { s with results := s.results ++ [result] })
  | .drainExecutors, env, s => (arranged env.order s.values, { s with executors := ∅ })
  | .isBusy e, _, s => (!(s.conn e).inFlight.keys.isEmpty, s)
  | .close e, _, s => ((), s.modify e fun x => { x with broken := true })
  | .send e frame, _, s => ((), s.modify e fun x => { x with inbox := x.inbox ++ [frame] })

abbrev remoteMachine : Machine remoteSig := ⟨Remote, RemoteEnv, Remote.exec⟩

/-! ## Programs -/

/-- A program of the dispatcher. -/
abbrev RemoteProg (α : Type) := Prog remoteSig α

namespace RemoteDispatcher

/-- Make one call. -/
def ask (op : RemoteOp) : RemoteProg op.Res := Prog.perform (S := remoteSig) op

/-- The dispatcher's configuration. -/
structure Config where
  /-- The secret an executor has to present, if one is required. -/
  authToken : Option String
  /-- Executor-reported progress and logs are applied to storage. -/
  sideChannel : Bool
  /-- The text a blob encodes, if it is UTF-8. -/
  fromUtf8 : Bytes → Option String

/-- The credential gate of the handshake. -/
def Config.admits (cfg : Config) (token : Option String) : Bool :=
  match cfg.authToken with
  | none => true
  | some expected => token == some expected

/-- Handshake and register. -/
def attach (cfg : Config) (first : ExecutorMessage) : RemoteProg (Except AttachError Nat) := do
  if ← ask .loadShutdown then return .error .shuttingDown
  match first with
  | .hello h =>
    if !cfg.admits h.token then return .error (.unauthorized h.executorId)
    if !(← ask (.writeAck h)) then return .error .transport
    if h.protocolVersion ≠ protocolVersion then
      return .error (.versionMismatch protocolVersion h.protocolVersion)
    ask (.register h)
  | _ => return .error (.unexpectedFrame "hello")

/-- Where a job can go right now. -/
inductive Placement where
  | ready (e : Nat)
  | saturated
  | unadvertised
  deriving DecidableEq

/-- The loop of `tryAcquire`: whether the task is advertised, and the best executor so far. -/
def scan (taskName : String) :
    List (Nat × List String) → Bool → Option Nat → RemoteProg (Bool × Option Nat)
  | [], advertised, best => return (advertised, best)
  | (e, tasks) :: rest, advertised, best => do
    if !tasks.contains taskName then scan taskName rest advertised best
    else
      let free ← ask (.loadFree e)
      if free = 0 then scan taskName rest true best
      else
        match best with
        | none => scan taskName rest true (some e)
        | some current =>
          if (← ask (.loadFree current)) < free then scan taskName rest true (some e)
          else scan taskName rest true (some current)

/-- Pick the executor with the most free slots that advertises the task, and reserve one of its
slots. The counters are loaded one by one, and the reservation is a separate access. -/
def tryAcquire (taskName : String) : RemoteProg Placement := do
  let executors ← ask .lockExecutors
  match ← scan taskName executors false none with
  | (_, some e) =>
    ask (.reserve e)
    ask .unlockExecutors
    return .ready e
  | (advertised, none) =>
    ask .unlockExecutors
    return if advertised then .saturated else .unadvertised

/-- Send a reserved job to its executor. The entry is there before the frame is written; a failed
write takes it back, frees the slot and drops the executor. -/
def dispatchTo (e : Nat) (job : Job) (disabled : List String) : RemoteProg Unit := do
  ask (.insertInFlight e job)
  if ← ask (.writeJob e job disabled) then ask .placed
  else
    let _ ← ask (.removeInFlight e job.id .writer)
    ask (.release e)
    ask (.deregister e)
    ask .placed

/-- Hand a job that never reached an executor back as a retryable failure. -/
def failUnplaceable (job : Job) (reason : String) : RemoteProg Unit :=
  ask (.emit none (.failure
    { jobId := job.id
      error := "task '" ++ job.taskName ++ "' was not dispatched: " ++ reason
      retryCount := job.retryCount
      maxRetries := job.maxRetries
      taskName := job.taskName
      wallTimeNs := 0
      shouldRetry := true
      timedOut := false }))

/-- The middleware a dispatch should carry. -/
def resolveToggles (cfg : Config) (taskName : String) : RemoteProg (List String) :=
  if cfg.sideChannel then ask (.resolveToggles taskName) else return []

/-- Why a job could not be placed. -/
def Placement.reason : Placement → String
  | .unadvertised => "no attached executor advertises it"
  | _ => "every executor advertising it is busy"

/-- One pass of `place`: dispatch the job, or go on as told when no slot is free. -/
def placeOr (cfg : Config) (job : Job) (wait : Placement → RemoteProg Unit) :
    RemoteProg Unit := do
  match ← tryAcquire job.taskName with
  | .ready e =>
    let disabled ← resolveToggles cfg job.taskName
    dispatchTo e job disabled
  | p =>
    if ← ask .loadShutdown then failUnplaceable job "the dispatcher is shutting down"
    else wait p

/-- Place one job, waiting for a slot if every advertising executor is busy. The number is how
often the wait is woken before the placement timeout. -/
def place (cfg : Config) (job : Job) : Nat → RemoteProg Unit
  | 0 => placeOr cfg job fun p => failUnplaceable job p.reason
  | wakes + 1 => placeOr cfg job fun _ => place cfg job wakes

/-- Record progress an executor reported for a job it is running. -/
def applyProgress (cfg : Config) (e : Nat) (jobId : JobId) (progress : Int) :
    RemoteProg Unit := do
  if !cfg.sideChannel then return ()
  match ← ask (.running e jobId) with
  | none => return ()
  | some dispatched => ask (.pumpProgress e jobId ⟨progress, dispatched.namespace_⟩)

/-- Record a log line an executor reported. The row is attributed to the task the scheduler
dispatched, not to the name on the frame. -/
def applyTaskLog (cfg : Config) (e : Nat) (jobId : JobId) (level message : String)
    (extra : Option Bytes) : RemoteProg Unit := do
  if !cfg.sideChannel then return ()
  match ← ask (.running e jobId) with
  | none => return ()
  | some dispatched =>
    ask (.pumpLog e ⟨jobId, dispatched.taskName, level, message, extra.bind cfg.fromUtf8,
      dispatched.namespace_⟩)

/-- Apply a job's last progress before its result. -/
def settleProgress (cfg : Config) (jobId : JobId) : RemoteProg Unit :=
  if cfg.sideChannel then ask (.settleProgress jobId) else return ()

/-- Take the in-flight entry of a result's job and pass the result on; without an entry the result
is dropped. -/
def handleOutcome (cfg : Config) (e : Nat) (result : JobResult) : RemoteProg Unit := do
  match ← ask (.removeInFlight e result.jobId .reader) with
  | none => return ()
  | some _ =>
    settleProgress cfg result.jobId
    ask (.release e)
    ask (.emit (some e) result)

/-- Process one frame from an executor. -/
def handleFrame (cfg : Config) (e : Nat) (frame : Frame) : RemoteProg Unit :=
  match frame.message with
  | .heartbeat freeSlots => ask (.shrink e freeSlots)
  | .progress jobId progress => applyProgress cfg e jobId progress
  | .taskLog jobId _ level message extraLen =>
    applyTaskLog cfg e jobId level message (extraLen.map fun _ => frame.payload)
  | message =>
    match message.intoJobResult frame.payload with
    | none => return ()
    | some result => handleOutcome cfg e result

/-- Drop an executor whose connection ended, leaving its in-flight jobs to the reaper. -/
def abandon (e : Nat) : RemoteProg Unit := do
  ask (.deregister e)
  ask (.drainInFlight e)

/-- One pass of a reader thread: the next frame, or the end. -/
def readFrame (cfg : Config) (e : Nat) : RemoteProg Unit := do
  match ← ask (.read e) with
  | some frame => handleFrame cfg e frame
  | none =>
    abandon e
    ask (.readerExit e)

/-- Look whether any of the executors is busy; the drain waits while one is. -/
def anyBusy : List Nat → RemoteProg Bool
  | [] => return false
  | e :: rest => do if ← ask (.isBusy e) then return true else anyBusy rest

/-- Wait until no executor is busy, at most so many times. -/
def awaitIdle (executors : List Nat) : Nat → RemoteProg Unit
  | 0 => return ()
  | polls + 1 => do if ← anyBusy executors then awaitIdle executors polls else return ()

/-- Ask every attached executor to finish, wait out the drain budget, then close. -/
def drainAndClose (polls : Nat) : RemoteProg Unit := do
  let executors ← ask .drainExecutors
  awaitIdle executors polls
  Prog.forEach executors fun e => ask (.close e)

end RemoteDispatcher

/-! ## Threads -/

/-- What a thread of the dispatcher, or a peer, can do. -/
inductive RemoteCall where
  | place (job : Job) (wakes : Nat)
  | drainAndClose (polls : Nat)
  | readFrame (e : Nat)
  | attach (first : ExecutorMessage)
  | shutdown
  | send (e : Nat) (frame : Frame)

namespace RemoteCall

def prog (cfg : RemoteDispatcher.Config) : RemoteCall → RemoteProg Unit
  | place job wakes => RemoteDispatcher.place cfg job wakes
  | drainAndClose polls => RemoteDispatcher.drainAndClose polls
  | readFrame e => RemoteDispatcher.readFrame cfg e
  | attach first => do
    let _ ← RemoteDispatcher.attach cfg first
    return ()
  | shutdown => RemoteDispatcher.ask .storeShutdown
  | send e frame => RemoteDispatcher.ask (.send e frame)

end RemoteCall

abbrev remoteClients (cfg : RemoteDispatcher.Config) : Clients remoteSig :=
  ⟨RemoteCall, RemoteCall.prog cfg⟩

/-- The threads: the one that places jobs, a reader for every connection, and any number of
others. -/
inductive RemoteThread where
  | run
  | reader (e : Nat)
  | other (n : Nat)
  deriving DecidableEq

/-- Which thread makes which calls. A reader reads its own connection until it has ended. -/
def Remote.mayStart (s : Remote) : RemoteThread → RemoteCall → Bool
  | .run, .place _ _ => true
  | .run, .drainAndClose _ => true
  | .reader e, .readFrame e' => e == e' && decide (e < s.next) && !(s.conn e).readerOver
  | .other _, .attach _ => true
  | .other _, .shutdown => true
  | .other _, .send _ _ => true
  | _, _ => false

/-- Locks and reads block: what needs the registry lock waits until no placement holds it, and a
read waits for a frame or for the end of the stream. -/
def Remote.mayStep (s : Remote) (env : RemoteEnv) : RemoteOp → Bool
  | .lockExecutors | .register _ | .deregister _ | .drainExecutors => !s.locked
  | .read e => env.eof || !(s.conn e).inbox.isEmpty
  | _ => true

/-- Every interleaving of the dispatcher's threads and its peers. -/
abbrev remoteRules (cfg : RemoteDispatcher.Config) :
    Rules remoteMachine (remoteClients cfg) RemoteThread where
  mayStart s t call := Remote.mayStart s t call = true
  mayStep s _ op env := Remote.mayStep s env op = true

end Flexiq
