import Flexiq.RemoteSession

/-!
# The prefork pool

Jobs run in child processes, one at a time each. The dispatch loop restarts dead children, picks
the least loaded one, enters the job in the child's **slot** and writes it to the child's standard
input; a reader thread per process reads results from its standard output; a watchdog kills
children whose job is past its deadline. Whoever takes the slot's entry reports the outcome.

A slot belongs to an index, not to a process: after a restart the index has a new process and a new
reader, while the reader of the dead one may still be draining its pipe.

Processes and dispatches are numbered in the order they were made. The number of a dispatch stands
beside the job wherever the job goes, in the slot, down the pipe and beside the frame that reports
it; the code never looks at it. Sending on the result channel succeeds: the scheduler is there.
-/

namespace Flexiq

open Function

/-! ## State -/

/-- What a slot remembers about the job a child is running. -/
structure ActiveJob where
  jobId : JobId
  taskName : String
  retryCount : Int
  maxRetries : Int
  timeoutMs : Int
  startedAt : Int
  /-- Absolute deadline; none when no timeout is configured. -/
  deadline : Option Int
  dispatch : Nat
  deriving DecidableEq

/-- The deadline of a job started now; a timeout that is not positive means none. -/
def deadlineFromTimeout (now timeoutMs : Int) : Option Int :=
  if timeoutMs ≤ 0 then none else some (now + timeoutMs)

/-- The slot entry of a job. -/
def ActiveJob.of (job : Job) (now : Int) (dispatch : Nat) : ActiveJob where
  jobId := job.id
  taskName := job.taskName
  retryCount := job.retryCount
  maxRetries := job.maxRetries
  timeoutMs := job.timeoutMs
  startedAt := now
  deadline := deadlineFromTimeout now job.timeoutMs
  dispatch := dispatch

/-- A child process and its two pipes. -/
structure Child where
  idx : Nat
  alive : Bool
  /-- Jobs written to it that it has not read. -/
  stdin : List (Job × Nat)
  running : Option (Job × Nat)
  /-- Frames it wrote that its reader has not read. -/
  stdout : List (Frame × Nat)
  /-- The reader has read a result and not looked at the slot yet. -/
  hand : Option Nat
  /-- The reader thread runs. -/
  reading : Bool

/-- A child that has just been spawned. -/
def Child.new (idx : Nat) : Child := ⟨idx, true, [], none, [], none, false⟩

/-- Who reports an outcome. -/
inductive Reporter where
  | reader
  | watchdog
  deriving DecidableEq

/-- A result on the result channel. -/
structure Emitted where
  dispatch : Nat
  reporter : Reporter
  result : JobResult
  deriving DecidableEq

/-- What the pool's threads share, with the history of its dispatches. -/
structure Prefork where
  /-- The processes spawned so far are those below this number. -/
  next : Nat
  children : Nat → Child
  writers : Nat → Option Nat
  processes : Nat → Option Nat
  slots : Nat → Option ActiveJob
  inFlight : Nat → UInt32
  /-- The dispatch taken from the slot by a thread that has not lowered the counter yet. -/
  owed : Nat → Option Nat
  /-- The dispatch the watchdog has taken and not reported yet. -/
  expiring : Option Nat
  /-- The jobs dispatched; a dispatch is numbered by its place. -/
  dispatched : List Job
  /-- Dispatches whose slot entry was thrown away. -/
  dropped : List Nat
  /-- What was sent on the result channel. -/
  emitted : List Emitted
  /-- Dispatches a result frame of which was discarded. -/
  discarded : List Nat

namespace Prefork

/-- A pool before its children are started. -/
def init : Prefork :=
  ⟨0, fun _ => .new 0, fun _ => none, fun _ => none, fun _ => none, fun _ => 0, fun _ => none, none,
    [], [], [], []⟩

def modify (s : Prefork) (c : Nat) (f : Child → Child) : Prefork :=
  { s with children := update s.children c (f (s.children c)) }

/-- Empty a slot without anybody reporting its job. -/
def drop (s : Prefork) (i : Nat) : Prefork :=
  { s with
    slots := update s.slots i none
    dropped := s.dropped ++ (s.slots i).toList.map ActiveJob.dispatch }

/-- Take a slot's entry. -/
def taken (s : Prefork) (i : Nat) (a : ActiveJob) : Prefork :=
  { s with
    slots := update s.slots i none
    owed := update s.owed i (some a.dispatch) }

def answered (s : Prefork) : List Nat := s.emitted.map Emitted.dispatch

/-- The dispatches answered by a timeout of the watchdog. -/
def timeouts (s : Prefork) : List Nat :=
  (s.emitted.filter fun e => e.reporter = .watchdog).map Emitted.dispatch

/-- How many dispatches are still to be answered. -/
def unanswered (s : Prefork) : Nat :=
  Nat.count (fun d => d ∉ s.answered ∧ d ∉ s.dropped) s.dispatched.length

end Prefork

/-! ## Operations -/

/-- What writing a job to a child answers. -/
inductive SendResult where
  | noWriter
  | failed
  | ok
  deriving DecidableEq

/-- The atomic operations. -/
inductive PreforkOp where
  /-- Whether the child at an index has exited or was never spawned. -/
  | isChildDead (i : Nat)
  | spawnChild (i : Nat)
  | setWriter (i c : Nat)
  | setProcess (i c : Nat)
  /-- `slot::take` of a restart. -/
  | resetSlot (i : Nat)
  /-- `in_flight.store(0)`. -/
  | resetInFlight (i : Nat)
  | spawnReader (c : Nat)
  | loadInFlight (i : Nat)
  /-- `slot::set`; the number of the dispatch. -/
  | setSlot (i : Nat) (job : Job)
  | writeJob (i : Nat) (job : Job) (dispatch : Nat)
  /-- `slot::take` after a failed send. -/
  | rollback (i : Nat)
  /-- `in_flight.fetch_add(1)`. -/
  | addInFlight (i : Nat)
  /-- The next frame of a child; none at the end of its output. -/
  | read (c : Nat)
  /-- `slot::take` of the reader of a child. -/
  | takeSlot (i c : Nat)
  /-- `in_flight.fetch_sub(1)`. -/
  | subInFlight (i : Nat)
  | emit (e : Emitted)
  | readerExit (c : Nat)
  | now
  | takeIfExpired (i : Nat) (now : Int)
  /-- Kill the process at an index and reap it. -/
  | kill (i : Nat)
  /-- A child reads its next job. -/
  | childStart (c : Nat)
  /-- A child ends its job and writes the result. -/
  | childFinish (c : Nat) (outcome : Outcome)
  | childReport (c : Nat) (report : SideReport)
  | childExit (c : Nat)
  deriving DecidableEq

/-- What an operation answers. -/
@[reducible] def PreforkOp.Res : PreforkOp → Type
  | isChildDead _ => Bool
  | spawnChild _ => Option Nat
  | loadInFlight _ => UInt32
  | setSlot _ _ => Nat
  | writeJob _ _ _ => SendResult
  | read _ => Option (Frame × Nat)
  | takeSlot _ _ | takeIfExpired _ _ => Option ActiveJob
  | now => Int
  | setWriter _ _ | setProcess _ _ | resetSlot _ | resetInFlight _ | spawnReader _ | rollback _
  | addInFlight _ | subInFlight _ | emit _ | readerExit _ | kill _ | childStart _
  | childFinish _ _ | childReport _ _ | childExit _ => Unit

/-- The pool's operations. -/
abbrev preforkSig : Signature := ⟨PreforkOp, PreforkOp.Res⟩

/-- What the world decides at a call: the clock, and whether a spawn or a write succeeds. -/
structure PreforkEnv where
  now : Int
  ok : Bool
  deriving DecidableEq

/-- One atomic call. -/
def Prefork.exec : (op : PreforkOp) → PreforkEnv → Prefork → op.Res × Prefork
  | .isChildDead i, _, s =>
    ((s.processes i).elim true fun c => !(s.children c).alive, s)
  | .spawnChild i, env, s =>
    if env.ok then
      (some s.next,
        { s with next := s.next + 1, children := update s.children s.next (.new i) })
    else (none, s)
  | .setWriter i c, _, s => ((), { s with writers := update s.writers i (some c) })
  | .setProcess i c, _, s => ((), { s with processes := update s.processes i (some c) })
  | .resetSlot i, _, s => ((), s.drop i)
  | .resetInFlight i, _, s => ((), { s with inFlight := update s.inFlight i 0 })
  | .spawnReader c, _, s => ((), s.modify c fun x => { x with reading := true })
  | .loadInFlight i, _, s => (s.inFlight i, s)
  | .setSlot i job, env, s =>
    (s.dispatched.length,
      { s.drop i with
        slots := update s.slots i (some (.of job env.now s.dispatched.length))
        dispatched := s.dispatched ++ [job] })
  | .writeJob i job d, env, s =>
    match s.writers i with
    | none => (.noWriter, s)
    | some c =>
      if env.ok then (.ok, s.modify c fun x => { x with stdin := x.stdin ++ [(job, d)] })
      else (.failed, s)
  | .rollback i, _, s => ((), s.drop i)
  | .addInFlight i, _, s =>
    ((), { s with inFlight := update s.inFlight i (s.inFlight i + 1) })
  | .read c, _, s =>
    match (s.children c).stdout with
    | [] => (none, s)
    | (f, d) :: rest =>
      (some (f, d), s.modify c fun x =>
        { x with stdout := rest, hand := f.result.map fun _ => d })
  | .takeSlot i c, _, s =>
    match s.slots i with
    | none =>
      (none, { s.modify c fun x => { x with hand := none } with
        discarded := s.discarded ++ (s.children c).hand.toList })
    | some a => (some a, (s.modify c fun x => { x with hand := none }).taken i a)
  | .subInFlight i, _, s =>
    ((), { s with
      inFlight := update s.inFlight i (s.inFlight i - 1)
      owed := update s.owed i none })
  | .emit e, _, s =>
    ((), { s with
      emitted := s.emitted ++ [e]
      expiring := if e.reporter = .watchdog then none else s.expiring })
  | .readerExit c, _, s => ((), s.modify c fun x => { x with reading := false })
  | .now, env, s => (env.now, s)
  | .takeIfExpired i now, _, s =>
    match s.slots i with
    | none => (none, s)
    | some a =>
      if a.deadline.any (fun t => decide (t ≤ now)) then
        (some a, { s.taken i a with expiring := some a.dispatch })
      else (none, s)
  | .kill i, _, s =>
    ((), (s.processes i).elim s fun c => s.modify c fun x => { x with alive := false })
  | .childStart c, _, s =>
    ((), s.modify c fun x => { x with stdin := x.stdin.tail, running := x.stdin.head? })
  | .childFinish c outcome, _, s =>
    ((), s.modify c fun x => { x with
      running := none
      stdout := x.stdout ++
        x.running.toList.map fun (job, d) => (Frame.fromJobResult (outcome.of job), d) })
  | .childReport c report, _, s =>
    ((), s.modify c fun x => { x with
      stdout := x.stdout ++ x.running.toList.map fun (_, d) => (report.frame, d) })
  | .childExit c, _, s => ((), s.modify c fun x => { x with alive := false })

abbrev preforkMachine : Machine preforkSig := ⟨Prefork, PreforkEnv, Prefork.exec⟩

/-! ## Programs -/

/-- A program of the pool. -/
abbrev PreforkProg (α : Type) := Prog preforkSig α

namespace PreforkPool

/-- Make one call. -/
def ask (op : PreforkOp) : PreforkProg op.Res := Prog.perform (S := preforkSig) op

/-- Spawn a child and its reader thread. The slot of the index is reset for it. -/
def startChild (i : Nat) : PreforkProg Unit := do
  match ← ask (.spawnChild i) with
  | none => return ()
  | some c =>
    ask (.setWriter i c)
    ask (.setProcess i c)
    ask (.resetSlot i)
    ask (.resetInFlight i)
    ask (.spawnReader c)

def restartChild (i : Nat) : PreforkProg Unit := do
  if ← ask (.isChildDead i) then startChild i else return ()

def loadCounts : List Nat → PreforkProg (List UInt32)
  | [] => return []
  | i :: rest => do
    let count ← ask (.loadInFlight i)
    let counts ← loadCounts rest
    return count :: counts

/-- The first child with the fewest jobs in flight. -/
def leastLoaded : List UInt32 → Nat
  | [] => 0
  | count :: counts => if counts.any (· < count) then leastLoaded counts + 1 else 0

/-- Push a job to a child. The slot is registered before sending; when the send fails it is rolled
back. -/
def dispatchJob (i : Nat) (job : Job) : PreforkProg Unit := do
  let d ← ask (.setSlot i job)
  match ← ask (.writeJob i job d) with
  | .ok => ask (.addInFlight i)
  | .noWriter | .failed => ask (.rollback i)

def start (numWorkers : Nat) : PreforkProg Unit := Prog.forEach (List.range numWorkers) startChild

/-- One pass of the dispatch loop. -/
def dispatch (numWorkers : Nat) (job : Job) : PreforkProg Unit := do
  Prog.forEach (List.range numWorkers) restartChild
  let counts ← loadCounts (List.range numWorkers)
  dispatchJob (leastLoaded counts) job

/-- One pass of the reader of a child: progress and logs are passed on, a result is reported if the
reader can take the slot's entry. -/
def readFrame (i c : Nat) : PreforkProg Unit := do
  match ← ask (.read c) with
  | none => ask (.readerExit c)
  | some (frame, d) =>
    match frame.result with
    | none => return ()
    | some result =>
      match ← ask (.takeSlot i c) with
      | none => return ()
      | some _ =>
        ask (.subInFlight i)
        ask (.emit ⟨d, .reader, result⟩)

/-- The failure the watchdog reports. -/
def timeoutFailure (a : ActiveJob) (wallTimeNs : Int) : JobResult :=
  .failure
    { jobId := a.jobId
      error := "job timed out after " ++ toString a.timeoutMs ++ "ms"
      retryCount := a.retryCount
      maxRetries := a.maxRetries
      taskName := a.taskName
      wallTimeNs := wallTimeNs
      shouldRetry := true
      timedOut := true }

/-- The watchdog's look at one slot. -/
def expire (now wallTimeNs : Int) (i : Nat) : PreforkProg Unit := do
  match ← ask (.takeIfExpired i now) with
  | none => return ()
  | some a =>
    ask (.kill i)
    ask (.subInFlight i)
    ask (.emit ⟨a.dispatch, .watchdog, timeoutFailure a wallTimeNs⟩)

def watchdog (numWorkers : Nat) (wallTimeNs : Int) : PreforkProg Unit := do
  let now ← ask .now
  Prog.forEach (List.range numWorkers) (expire now wallTimeNs)

end PreforkPool

/-! ## Threads -/

/-- What the pool's threads and its children do. -/
inductive PreforkCall where
  | start
  | dispatch (job : Job)
  | readFrame (i c : Nat)
  | watchdog (wallTimeNs : Int)
  | childStart (c : Nat)
  | childFinish (c : Nat) (outcome : Outcome)
  | childReport (c : Nat) (report : SideReport)
  | childExit (c : Nat)

def PreforkCall.prog (numWorkers : Nat) : PreforkCall → PreforkProg Unit
  | .start => PreforkPool.start numWorkers
  | .dispatch job => PreforkPool.dispatch numWorkers job
  | .readFrame i c => PreforkPool.readFrame i c
  | .watchdog wallTimeNs => PreforkPool.watchdog numWorkers wallTimeNs
  | .childStart c => PreforkPool.ask (.childStart c)
  | .childFinish c outcome => PreforkPool.ask (.childFinish c outcome)
  | .childReport c report => PreforkPool.ask (.childReport c report)
  | .childExit c => PreforkPool.ask (.childExit c)

abbrev preforkClients (numWorkers : Nat) : Clients preforkSig :=
  ⟨PreforkCall, PreforkCall.prog numWorkers⟩

/-- The dispatch loop, a reader for every process, the watchdog, and the processes themselves. -/
inductive PreforkThread where
  | dispatcher
  | reader (c : Nat)
  | watchdog
  | child (c : Nat)
  deriving DecidableEq

/-- Which thread makes which calls. The pool starts its children first; a job is handed to it only
while fewer dispatches than workers are unanswered; a reader runs from its start to the end of its
child's output. -/
def Prefork.mayStart (numWorkers : Nat) (s : Prefork) : PreforkThread → PreforkCall → Bool
  | .dispatcher, .start => s.next == 0 && decide (s.unanswered < numWorkers)
  | .dispatcher, .dispatch _ => decide (s.unanswered < numWorkers)
  | .reader c, .readFrame i c' =>
    c == c' && decide (c < s.next) && (s.children c).reading && i == (s.children c).idx
  | .watchdog, .watchdog _ => true
  | .child c, .childStart c' | .child c, .childFinish c' _ | .child c, .childReport c' _
  | .child c, .childExit c' => c == c' && decide (c < s.next)
  | _, _ => false

/-- A read waits for a frame or for the end of the child; a child does one thing at a time, and
nothing once it is dead. -/
def Prefork.mayStep (s : Prefork) : PreforkOp → Bool
  | .read c => !(s.children c).stdout.isEmpty || !(s.children c).alive
  | .childStart c =>
    (s.children c).alive && (s.children c).running.isNone && !(s.children c).stdin.isEmpty
  | .childFinish c _ | .childReport c _ => (s.children c).alive && (s.children c).running.isSome
  | .childExit c => (s.children c).alive
  | _ => true

/-- Every interleaving of the dispatch loop, the readers, the watchdog and the children. -/
abbrev preforkRules (numWorkers : Nat) :
    Rules preforkMachine (preforkClients numWorkers) PreforkThread where
  mayStart s t call := Prefork.mayStart numWorkers s t call = true
  mayStep s _ op _ := Prefork.mayStep s op = true

end Flexiq
