import Flexiq.Operations

/-!
# Schedulers over a shared store

A scheduler polls the store for ready jobs, hands them to its workers, handles their results
and sweeps for overdue work. Several of its threads run at once, and any number of schedulers
share one store, so a scheduler is again a **program**: its atomic operations are the store's
transactions, the accesses to its own in-flight table (one mutex each), the hand-over of a job
to a worker, and what it asks the world — the clock, an identifier, a random delay, the rate
limiter, the circuit breaker, the list of live workers.

A storage call can also fail outright (a lost connection, an exhausted pool): the world decides,
and a failed call leaves the store as it was.

Every storage call carries its **cause** — the loop of the scheduler, the worker results it
handles, a job it timed out or one it rescued. Nothing reads it: it says on whose behalf a
transaction ran, which is what the laws about results and reaps are about.
-/

namespace Flexiq

/-! ## In-flight bookkeeping -/

/-- What a scheduler dispatched a job as: the task, and the owner and attempt it claimed
under. -/
structure DispatchRecord where
  taskName : String
  owner : String
  attempt : Int
  deriving DecidableEq

/-- Which jobs a scheduler dispatched. The source keeps the count of each task beside the map;
here it is counted. -/
structure InFlight where
  byJob : List (JobId × DispatchRecord)
  deriving DecidableEq

namespace InFlight

def empty : InFlight := ⟨[]⟩

def lookup (f : InFlight) (id : JobId) : Option DispatchRecord :=
  (f.byJob.find? fun e => e.1 = id).map Prod.snd

def remove (f : InFlight) (id : JobId) : InFlight := ⟨f.byJob.filter fun e => e.1 ≠ id⟩

def insert (f : InFlight) (id : JobId) (record : DispatchRecord) : InFlight :=
  ⟨(id, record) :: (f.remove id).byJob⟩

def len (f : InFlight) : Nat := f.byJob.length

def countFor (f : InFlight) (taskName : String) : Nat :=
  (f.byJob.filter fun e => e.2.taskName = taskName).length

theorem lookup_remove (f : InFlight) (id k : JobId) :
    (f.remove id).lookup k = if k = id then none else f.lookup k := by
  unfold lookup remove
  rw [List.find?_filter]
  by_cases hk : k = id
  · subst hk
    rw [if_pos rfl, Option.map_eq_none_iff, List.find?_eq_none]
    intro e _
    simp
  · rw [if_neg hk]
    congr 1
    refine List.find?_congr fun e _ => ?_
    by_cases he : e.1 = k
    · simp [he, hk]
    · simp [he]

/-- A job has the record it was registered with last. -/
theorem lookup_insert (f : InFlight) (id k : JobId) (record : DispatchRecord) :
    (f.insert id record).lookup k = if k = id then some record else f.lookup k := by
  by_cases hk : k = id
  · subst hk
    simp [lookup, insert]
  · have hne : ¬ id = k := fun h => hk h.symm
    rw [if_neg hk, ← (f.lookup_remove id k).trans (if_neg hk)]
    simp [lookup, insert, hne]

end InFlight

/-! ## Results -/

/-- A run that raised an error or timed out. -/
structure Failure where
  jobId : JobId
  error : String
  retryCount : Int
  maxRetries : Int
  taskName : String
  wallTimeNs : Int
  shouldRetry : Bool
  timedOut : Bool
  deriving DecidableEq

/-- What a worker reports about a job. -/
inductive JobResult where
  | success (completion : JobCompletion)
  | failure (failure : Failure)
  | cancelled (jobId : JobId) (taskName : String) (wallTimeNs : Int)
  deriving DecidableEq

def JobResult.jobId : JobResult → JobId
  | success c => c.jobId
  | failure f => f.jobId
  | cancelled id _ _ => id

/-- What handling a result did. -/
inductive ResultOutcome where
  | success (jobId : JobId) (taskName : String) (wallTimeNs : Int)
  | retry (jobId : JobId) (taskName queue error : String) (retryCount : Int) (timedOut : Bool)
      (wallTimeNs : Int)
  | deadLettered (jobId : JobId) (taskName queue error : String) (timedOut : Bool)
      (wallTimeNs : Int)
  | cancelled (jobId : JobId) (taskName queue : String) (wallTimeNs : Int)
  | superseded (jobId : JobId)
  deriving DecidableEq

/-! ## Configuration -/

/-- What the dispatcher does with a job a rate limit turns away. -/
inductive OnExcess where
  | defer
  | drop
  deriving DecidableEq

/-- Per-task policy. Of a limiter or a breaker the scheduler only needs to know that there is
one; what it answers is the world's. -/
structure TaskConfig where
  rateLimit : Bool
  onExcess : OnExcess
  circuitBreaker : Bool
  retryBudget : Bool
  maxConcurrent : Option Int
  maxInFlightPerTask : Option Nat
  deriving DecidableEq

/-- Per-queue policy. -/
structure QueueConfig where
  rateLimit : Bool
  maxConcurrent : Option Int
  deriving DecidableEq

/-- The fixed part of a scheduler. -/
structure Scheduler where
  namespace_ : Option String
  claimOwner : String
  queues : List String
  taskConfigs : String → Option TaskConfig
  queueConfigs : String → Option QueueConfig
  dispatchOrders : String → DispatchOrder
  /-- The sojourn target of each queue that sheds under overload. -/
  codelTargets : String → Option Int
  batchSize : Nat
  maxInFlight : Option Nat
  codec : MetadataCodec
  /-- Passes of the loops the source leaves unbounded. -/
  fuel : Nat

/-! ## Operations -/

/-- One run of a job: the job, and the retry count it was dispatched with. -/
@[ext] structure Execution where
  job : JobId
  attempt : Int
  deriving DecidableEq

/-- On whose behalf a scheduler acts. -/
inductive Cause where
  /-- The scheduler's own dispatching and sweeping. -/
  | loop
  | results (executions : List Execution)
  | reap (execution : Execution)
  /-- The rescue of an execution whose worker died. -/
  | rescue (execution : Execution)
  deriving DecidableEq

/-- The atomic operations of schedulers and of the other clients of the store. -/
inductive SchedOp (σ : Type) where
  /-- A transaction of another client. -/
  | client (op : StoreOp)
  /-- A storage call of a scheduler. -/
  | store (s : σ) (why : Cause) (op : StoreOp)
  /-- Take a finished job's dispatch record. -/
  | releaseInFlight (s : σ) (why : Cause) (id : JobId)
  | trackInFlight (s : σ) (id : JobId) (record : DispatchRecord)
  | untrackInFlight (s : σ) (id : JobId)
  | inFlightLen (s : σ)
  | taskInFlight (s : σ) (taskName : String)
  /-- Hand a job to the worker channel, if it has room. -/
  | trySend (s : σ) (job : Job)
  /-- Free places in the worker channel. -/
  | capacity (s : σ)
  /-- The scheduler's process ends. -/
  | stop (s : σ)
  | nowMillis (s : σ)
  | newUuid (s : σ)
  /-- A randomised delay of about `base` milliseconds. -/
  | desyncDelay (s : σ) (base : Int)
  /-- When the retry policy lets a failed run start again. -/
  | nextRetryAt (s : σ) (taskName : String) (retryCount : Int)
  | tryAcquire (s : σ) (key : String)
  | breakerAllows (s : σ) (taskName : String)
  /-- Whether CoDel drops a job that waited this long. -/
  | codelShouldDrop (s : σ) (queue : String) (sojourn now : Int)
  | listPausedQueues (s : σ)
  | listLiveWorkerIds (s : σ) (now : Int)

/-- What an operation answers; `none` is a failed call. -/
@[reducible] def SchedOp.Res {σ : Type} : SchedOp σ → Type
  | client op => op.Res
  | store _ _ op => Option op.Res
  | releaseInFlight _ _ _ => Option DispatchRecord
  | trackInFlight _ _ _ | untrackInFlight _ _ | stop _ => Unit
  | inFlightLen _ | taskInFlight _ _ | capacity _ => Nat
  | trySend _ _ | codelShouldDrop _ _ _ _ => Bool
  | nowMillis _ | desyncDelay _ _ | nextRetryAt _ _ _ => Int
  | newUuid _ => String
  | tryAcquire _ _ | breakerAllows _ _ => Option Bool
  | listPausedQueues _ => List String
  | listLiveWorkerIds _ _ => Option (List String)

/-- The scheduler an operation belongs to. -/
def SchedOp.sched {σ : Type} : SchedOp σ → Option σ
  | client _ => none
  | store s _ _ | releaseInFlight s _ _ | trackInFlight s _ _ | untrackInFlight s _
  | inFlightLen s | taskInFlight s _ | trySend s _ | capacity s | stop s | nowMillis s
  | newUuid s | desyncDelay s _ | nextRetryAt s _ _ | tryAcquire s _ | breakerAllows s _
  | codelShouldDrop s _ _ _ | listPausedQueues s | listLiveWorkerIds s _ => some s

abbrev schedSig (σ : Type) : Signature := ⟨SchedOp σ, SchedOp.Res⟩

/-- What the world decides at one operation. -/
structure World where
  /-- The call fails. -/
  fault : Bool
  flag : Bool
  number : Int
  count : Nat
  text : String
  names : List String

/-- Every call succeeds and every question is answered with yes. -/
def World.calm : World := ⟨false, true, 0, 1, "", []⟩

/-- The store and the memory of every scheduler. -/
structure SchedState (σ : Type) where
  db : Db
  inFlight : σ → InFlight
  /-- The jobs handed to workers, latest first. -/
  sent : List (σ × Job)
  /-- The schedulers whose process has ended. -/
  stopped : List σ

/-- Schedulers that have not dispatched anything, on the given store. -/
def SchedState.init {σ : Type} (db : Db) : SchedState σ := ⟨db, fun _ => .empty, [], []⟩

/-- One atomic operation. -/
def SchedOp.exec {σ : Type} [DecidableEq σ] :
    (op : SchedOp σ) → World → SchedState σ → op.Res × SchedState σ
  | client op, _, st => ((op.exec st.db).1, { st with db := (op.exec st.db).2 })
  | store _ _ op, w, st =>
    if w.fault then (none, st)
    else (some (op.exec st.db).1, { st with db := (op.exec st.db).2 })
  | releaseInFlight s _ id, _, st =>
    ((st.inFlight s).lookup id,
      { st with inFlight := Function.update st.inFlight s ((st.inFlight s).remove id) })
  | trackInFlight s id record, _, st =>
    ((), { st with inFlight := Function.update st.inFlight s ((st.inFlight s).insert id record) })
  | untrackInFlight s id, _, st =>
    ((), { st with inFlight := Function.update st.inFlight s ((st.inFlight s).remove id) })
  | inFlightLen s, _, st => ((st.inFlight s).len, st)
  | taskInFlight s taskName, _, st => ((st.inFlight s).countFor taskName, st)
  | trySend s job, w, st => (w.flag, if w.flag then { st with sent := (s, job) :: st.sent } else st)
  | stop s, _, st => ((), { st with stopped := s :: st.stopped })
  | capacity _, w, st => (w.count, st)
  | nowMillis _, w, st | desyncDelay _ _, w, st | nextRetryAt _ _ _, w, st => (w.number, st)
  | newUuid _, w, st => (w.text, st)
  | tryAcquire _ _, w, st | breakerAllows _ _, w, st =>
    (if w.fault then none else some w.flag, st)
  | codelShouldDrop _ _ _ _, w, st => (w.flag, st)
  | listPausedQueues _, w, st => (w.names, st)
  | listLiveWorkerIds _ _, w, st => (if w.fault then none else some w.names, st)

/-- Schedulers over a shared store, as a machine. -/
abbrev schedMachine (σ : Type) [DecidableEq σ] : Machine (schedSig σ) :=
  ⟨SchedState σ, World, SchedOp.exec⟩

abbrev SchedProg (σ α : Type) := Prog (schedSig σ) α

section

variable {σ α : Type}

/-- One operation, as a program. -/
def ask (op : SchedOp σ) : SchedProg σ op.Res := Prog.perform (S := schedSig σ) op

def storeAnswer (s : σ) (why : Cause) (op : StoreOp) (r : (SchedOp.store s why op).Res) :
    Option op.Res := r

/-- An operation of the store; the first failed call ends it. -/
def storage (s : σ) (why : Cause) (p : StoreProg α) : SchedProg σ (Option α) :=
  p.guarded (T := schedSig σ) (SchedOp.store s why) (storeAnswer s why)

/-- An operation of the store that can also report an error; the caller treats both alike. -/
def attempt (s : σ) (why : Cause) (p : StoreProg (Except QueueError α)) :
    SchedProg σ (Option α) := do
  let r ← storage s why p
  return r.bind Except.toOption

end

/-! ## Operations that leave the jobs alone -/

def SchedOp.transaction {σ : Type} : SchedOp σ → Option StoreOp
  | client op | store _ _ op => some op
  | _ => none

variable {σ : Type} {op : StoreOp}

/-- The store after an operation: as before, or after the transaction it ran. -/
theorem SchedOp.exec_db [DecidableEq σ] (op : SchedOp σ) (w : World) (st : SchedState σ) :
    (op.exec w st).2.db = st.db ∨ ∃ o ∈ op.transaction, (op.exec w st).2.db = (o.exec st.db).2 := by
  cases op with
  | client op => exact .inr ⟨op, rfl, rfl⟩
  | store s why op =>
    simp only [SchedOp.exec]
    split
    · exact .inl rfl
    · exact .inr ⟨op, rfl, rfl⟩
  | trySend s job =>
    simp only [SchedOp.exec]
    split <;> exact .inl rfl
  | _ => exact .inl rfl

theorem SchedOp.exec_store [DecidableEq σ] {s : σ} {why : Cause} {w : World} {st : SchedState σ}
    {r : op.Res} (h : ((SchedOp.store s why op).exec w st).1 = some r) :
    r = (op.exec st.db).1 ∧
      ((SchedOp.store s why op).exec w st).2 = { st with db := (op.exec st.db).2 } := by
  simp only [SchedOp.exec] at h ⊢
  split at h
  · cases h
  · next hfault =>
    rw [if_neg hfault]
    exact ⟨(Option.some.inj h).symm, rfl⟩

/-- Reads and diagnostics. -/
def StoreOp.isSide : StoreOp → Bool
  | getJob _ _ | recordError _ _ _ _ | recordMetric _ | authorizeAttempt _ _ _ _
  | dependents _ | reapStaleJobs _ _ | countRunningByTask _ _ | countRunningByQueue _ _ => true
  | _ => false

/-- A question to the world or to the scheduler's memory, or a side transaction. -/
def SchedOp.isSide {σ : Type} : SchedOp σ → Bool
  | store _ _ op => op.isSide
  | inFlightLen _ | taskInFlight _ _ | capacity _ | nowMillis _ | newUuid _ | desyncDelay _ _
  | nextRetryAt _ _ _ | tryAcquire _ _ | breakerAllows _ _ | codelShouldDrop _ _ _ _
  | listPausedQueues _ | listLiveWorkerIds _ _ => true
  | _ => false

/-- A side transaction other than a count of running jobs. -/
def StoreOp.isQuiet : StoreOp → Bool
  | countRunningByTask _ _ | countRunningByQueue _ _ => false
  | op => op.isSide

/-- A side operation that counts no running jobs. -/
def SchedOp.isQuiet {σ : Type} : SchedOp σ → Bool
  | store _ _ op => op.isQuiet
  | op => op.isSide

/-- A quiet transaction is a side transaction that counts nothing. -/
theorem StoreOp.isSide_of_isQuiet (h : op.isQuiet = true) : op.isSide = true := by
  cases op <;> first | rfl | exact h

theorem SchedOp.isSide_of_isQuiet {op : SchedOp σ} (h : op.isQuiet = true) : op.isSide = true := by
  cases op with
  | store s why op => exact StoreOp.isSide_of_isQuiet (show op.isQuiet = true from h)
  | _ => exact h

section

open Prog

variable {σ α : Type}

/-- The program only makes side operations. -/
def SideOnly (p : SchedProg σ α) : Prop := p.Calls fun op => SchedOp.isSide op = true

theorem SideOnly.ret (a : α) : SideOnly (.ret a : SchedProg σ α) := trivial

variable {β : Type} {p : SchedProg σ α} {op : StoreOp}
variable {f : α → SchedProg σ β}

theorem SideOnly.bind (h : SideOnly p) (hf : ∀ a, SideOnly (f a)) :
    SideOnly (p >>= f) := Calls.bind h hf

theorem SideOnly.ask {op : SchedOp σ} (h : op.isSide = true) : SideOnly (ask op) :=
  ⟨h, fun _ => trivial⟩

/-- A side program may run under a scheduler, whether or not its calls fail. -/
theorem SideOnly.storage {p : StoreProg α} (h : p.Calls fun op => StoreOp.isSide op = true)
    (s : σ) (why : Cause) : SideOnly (storage s why p) := Calls.guarded h fun _ hop => hop

theorem sideTxn (h : op.isSide = true) : (txn op).Calls fun op => StoreOp.isSide op = true :=
  calls_txn (P := fun op => op.isSide = true) h

/-- The program only makes side operations, and counts no running jobs. -/
def QuietOnly (p : SchedProg σ α) : Prop := p.Calls fun op => SchedOp.isQuiet op = true

/-- What counts no running jobs is a side program all the more. -/
theorem QuietOnly.side (h : QuietOnly p) : SideOnly p :=
  h.mono fun _ hop => SchedOp.isSide_of_isQuiet hop

theorem QuietOnly.ret (a : α) : QuietOnly (.ret a : SchedProg σ α) := trivial

theorem QuietOnly.bind (h : QuietOnly p) (hf : ∀ a, QuietOnly (f a)) :
    QuietOnly (p >>= f) := Calls.bind h hf

theorem QuietOnly.ask {op : SchedOp σ} (h : op.isQuiet = true) : QuietOnly (ask op) :=
  ⟨h, fun _ => trivial⟩

theorem QuietOnly.storage {p : StoreProg α} (h : p.Calls fun op => StoreOp.isQuiet op = true)
    (s : σ) (why : Cause) : QuietOnly (storage s why p) := Calls.guarded h fun _ hop => hop

/-- An error that is logged and passed over keeps the program quiet. -/
theorem QuietOnly.attempt {p : StoreProg (Except QueueError α)}
    (h : p.Calls fun op => StoreOp.isQuiet op = true) (s : σ) (why : Cause) :
    QuietOnly (attempt s why p) := (QuietOnly.storage h s why).bind fun _ => .ret _

theorem quietTxn (h : op.isQuiet = true) : (txn op).Calls fun op => StoreOp.isQuiet op = true :=
  calls_txn (P := fun op => op.isQuiet = true) h

end

end Flexiq
