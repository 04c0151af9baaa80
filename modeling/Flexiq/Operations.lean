import Flexiq.Store

/-!
# The public operations of the store

Each operation as the program it runs: which transactions, in which order, and what it does
with their answers. The names and the error texts are the source's. `StoreCall` collects
them, with their arguments, as the calls a client of the store can make.
-/

namespace Flexiq

variable {ns : Option String} {now : Int}

/-- What the queue reads and writes inside a job's JSON metadata. The JSON library itself is
not modelled: these are the two functions the source composes from it. -/
structure MetadataCodec where
  /-- The `__dlq_retry_count` of a job's metadata, 0 when there is none. -/
  dlqRetryCount : Option String → Int
  /-- The metadata of a retried dead letter, with the count set. -/
  withDlqRetryCount : Option String → Int → String

namespace Ops

/-! ## Enqueue -/

/-- Insert a new job. -/
def enqueue (d : Draft) : StoreProg (Except QueueError Job) := do
  let r ← txn (.enqueue d)
  return r.mapError dependencyError

/-- Insert many jobs in one transaction. -/
def enqueueBatch (ds : List Draft) : StoreProg (Except QueueError (List Job)) := do
  let r ← txn (.enqueueBatch ds)
  return r.mapError dependencyError

def enqueueDebounced (d : Draft) (options : DebounceOptions) :
    StoreProg (Except QueueError Job) :=
  match validatedDebounceKey d.newJob options with
  | .error e => return .error e
  | .ok key => do
    let r ← txn (.enqueueDebounced d key options)
    return r.mapError dependencyError

/-- What a deduplicating enqueue does after a lost insert: hand back the winner if it is
still active. -/
def uniqueWinner (d : Draft) : StoreProg (Option Job) :=
  match d.newJob.uniqueKey with
  | none => return none
  | some key => txn (.activeWithKey key)

def enqueueUniqueAttempts (d : Draft) : Nat → StoreProg (Except QueueError Job)
  | 0 => return .error (.other "enqueue_unique: unique key contended across retries")
  | attempts + 1 => do
    match ← txn (.enqueueUnique d) with
    | .ok job => return .ok job
    | .error (.storage .uniqueViolation) =>
      match ← uniqueWinner d with
      | some job => return .ok job
      | none => enqueueUniqueAttempts d attempts
    | .error e => return .error (dependencyError e)

/-- Enqueue, or return the active job with the same unique key. -/
def enqueueUnique (d : Draft) : StoreProg (Except QueueError Job) := enqueueUniqueAttempts d 3

def enqueueUniqueBatchAttempts (ds : List Draft) : Nat → StoreProg (Except QueueError (List Job))
  | 0 => return .error (.other "enqueue_unique_batch: unique key contended across retries")
  | attempts + 1 => do
    match ← txn (.enqueueUniqueBatch ds) with
    | .ok jobs => return .ok jobs
    | .error (.storage .uniqueViolation) => enqueueUniqueBatchAttempts ds attempts
    | .error e => return .error (dependencyError e)

/-- Deduplicating enqueue of many jobs in one transaction. -/
def enqueueUniqueBatch (ds : List Draft) : StoreProg (Except QueueError (List Job)) :=
  enqueueUniqueBatchAttempts ds 3

/-! ## Dequeue -/

/-- Claim one job, checking the queues in order. -/
def dequeueFrom (now : Int) (namespace_ : Option String) (orders : String → DispatchOrder) :
    List String → StoreProg (Except QueueError (Option Job))
  | [] => return .ok none
  | queue :: rest => do
    match ← txn (.dequeue queue now namespace_ (orders queue)) with
    | .ok (some job) => return .ok (some job)
    | .ok none => dequeueFrom now namespace_ orders rest
    | .error e => return .error e

/-- Claim up to `max` jobs, checking the queues in order until the budget is spent. -/
def dequeueBatchFrom (now : Int) (namespace_ : Option String)
    (orders : String → DispatchOrder) :
    Nat → List String → StoreProg (Except QueueError (List Job))
  | _, [] => return .ok []
  | 0, _ :: _ => return .ok []
  | max + 1, queue :: rest => do
    match ← txn (.dequeueBatch queue now namespace_ (max + 1) (orders queue)) with
    | .ok batch =>
      match ← dequeueBatchFrom now namespace_ orders (max + 1 - batch.length) rest with
      | .ok more => return .ok (batch ++ more)
      | .error e => return .error e
    | .error e => return .error e

/-! ## Cascades -/

/-- Add the ids not seen yet to the end of the breadth-first queue. -/
def addUnvisited (queue : List JobId) : List JobId → List JobId
  | [] => queue
  | id :: rest => addUnvisited (if id ∈ queue then queue else queue ++ [id]) rest

/-- Breadth-first search over the dependency edges, one read a job; nothing if `fuel` reads do not
get to the end of the queue. -/
def collectDependents : Nat → Nat → List JobId → StoreProg (Option (List JobId))
  | 0, idx, queue => return if queue.length ≤ idx then some queue else none
  | fuel + 1, idx, queue =>
    match queue[idx]? with
    | none => return some queue
    | some current => do
      let dependents ← txn (.dependents current)
      collectDependents fuel (idx + 1) (addUnvisited queue dependents)

/-- Cancel every pending job that depends, directly or not, on `root`. -/
def cascadeCancel (root : JobId) (reason : String) (namespace_ : Option String) (now : Int)
    (fuel : Nat) : StoreProg (Except QueueError Unit) := do
  match ← collectDependents fuel 0 [root] with
  -- the walk of the source goes on until it is through; one that is cut off cancels nothing
  | none => return .ok ()
  | some queue =>
    if queue.tail.isEmpty then return .ok ()
    else txn (.cascadeArchive root reason queue.tail namespace_ now)

/-- Cancel a pending job and cascade to its dependents. -/
def cancelJob (id : JobId) (namespace_ : Option String) (now : Int) (fuel : Nat) :
    StoreProg (Except QueueError Bool) := do
  match ← txn (.cancelPending id namespace_ now) with
  | .error e => return .error e
  | .ok false => return .ok false
  | .ok true =>
    match ← cascadeCancel id "dependency cancelled" namespace_ now fuel with
    | .error e => return .error e
    | .ok () => return .ok true

/-! ## Dead letters -/

/-- Move a job to the dead-letter queue and cancel its dependents. `shed` marks a job the
scheduler threw away. -/
def deadLetter (codec : MetadataCodec) (job : Job) (error : String) (metadata : Option String)
    (shed : Bool) (dlqId : String) (now : Int) (fuel : Nat) :
    StoreProg (Except QueueError Unit) := do
  match ← txn (.deadLetter job dlqId error metadata (codec.dlqRetryCount job.metadata) shed
      now) with
  | .error e => return .error e
  | .ok () => cascadeCancel job.id "dependency failed" job.namespace_ now fuel

/-- Enqueue a fresh job from a dead-letter entry and drop the entry. The count of retries is an
`i32`. -/
def retryDead (codec : MetadataCodec) (deadId : String) (namespace_ : Option String)
    (id : JobId) (now : Int) : StoreProg (Except QueueError JobId) := do
  match ← txn (.findDead deadId) with
  | none => return .error (.jobNotFound deadId)
  | some row =>
    if !jobInNamespace row.namespace_ namespace_ then return .error (.jobNotFound deadId)
    else
      let metadata := codec.withDlqRetryCount row.metadata ((row.dlqRetryCount + 1).bmod (2 ^ 32))
      match ← txn (.retryDead row metadata id now) with
      | .ok () => return .ok id
      | .error (.storage .notFound) => return .error (.jobNotFound deadId)
      | .error e => return .error e

/-! ## Claims and errors -/

/-- Drop the execution claim of a job the caller may see. -/
def completeExecution (id : JobId) (namespace_ : Option String) : StoreProg Unit :=
  match namespace_ with
  | none => txn (.deleteClaim id)
  | some ns => do
    match ← txn (.getJob id (some ns)) with
    | none => return ()
    | some _ => txn (.deleteClaim id)

/-- Record a failed attempt of a job the caller may see. -/
def recordError (id : JobId) (attempt : Int) (error : String) (namespace_ : Option String)
    (now : Int) : StoreProg (Except QueueError Unit) :=
  match namespace_ with
  | none => txn (.recordError id attempt error now)
  | some ns => do
    match ← txn (.getJob id (some ns)) with
    | none => return .ok ()
    | some _ => txn (.recordError id attempt error now)

/-! ## Batched sweeps -/

/-- Batches one purge sweep may drain. -/
def maxBatchesPerSweep : Nat := 200

/-- Run a batch until it comes back short or the cap is reached. -/
def drainBatches (op : StoreOp) (answer : op.Res → Except QueueError Nat) (batch : Nat) :
    Nat → StoreProg (Except QueueError Nat)
  | 0 => return .ok 0
  | rounds + 1 => do
    let r ← txn op
    match answer r with
    | .error e => return .error e
    | .ok removed =>
      if removed < batch then return .ok removed
      else
        match ← drainBatches op answer batch rounds with
        | .error e => return .error e
        | .ok more => return .ok (removed + more)

/-- Purge archived jobs, batch by batch. -/
def purgeArchived (purge : ArchivePurge) : StoreProg (Except QueueError Nat) :=
  drainBatches (.purgeArchived purge) id purgeBatch maxBatchesPerSweep

def purgeCompleted (olderThanMs : Int) : StoreProg (Except QueueError Nat) :=
  purgeArchived (.completed olderThanMs)

/-- The part of a retention purge that a global cutoff drives. -/
def globalSweep : Option Int → StoreProg (Except QueueError Nat)
  | some cutoff => purgeArchived (.globalTtl cutoff)
  | none => return .ok 0

/-- Purge archived jobs by the global cutoff, if there is one, and by their own TTL. -/
def purgeCompletedWithTtl (globalCutoffMs : Option Int) (now : Int) :
    StoreProg (Except QueueError Nat) := do
  match ← globalSweep globalCutoffMs with
  | .error e => return .error e
  | .ok n =>
    match ← purgeArchived (.entryTtl now) with
    | .error e => return .error e
    | .ok m => return .ok (n + m)

/-- Purge dead-letter entries that match, batch by batch. -/
def purgeDead (p : DeadLetterRow → Bool) : StoreProg (Except QueueError Nat) :=
  drainBatches (.purgeDead p) id purgeBatch maxBatchesPerSweep

def archivePendingInBatches (sweep : PendingSweep) (now : Int) (fuel : Nat) :
    StoreProg (Except QueueError Nat) :=
  drainBatches (.archivePending sweep now) id massArchiveBatch fuel

def expirePendingJobs (now : Int) (fuel : Nat) : StoreProg (Except QueueError Nat) :=
  archivePendingInBatches .expired now fuel

end Ops

/-! ## The transactions an operation makes -/

section Calls

open Prog

variable {P : StoreOp → Prop}
variable {op : StoreOp} {id : JobId} {orders : String → DispatchOrder}

theorem calls_txn (h : P op) : (txn op).Calls (S := storeSig) P := .perform h

theorem calls_completeExecution (hget : P (.getJob id ns)) (hdelete : P (.deleteClaim id)) :
    (Ops.completeExecution id ns).Calls (S := storeSig) P := by
  cases ns with
  | none => exact calls_txn hdelete
  | some ns =>
    refine (calls_txn hget).bind fun r => ?_
    rcases r with _ | _
    · trivial
    · exact calls_txn hdelete

theorem calls_recordError {k : Int} {error : String} (hget : P (.getJob id ns))
    (hrecord : P (.recordError id k error now)) :
    (Ops.recordError id k error ns now).Calls (S := storeSig) P := by
  cases ns with
  | none => exact calls_txn hrecord
  | some ns =>
    refine (calls_txn hget).bind fun r => ?_
    rcases r with _ | _
    · trivial
    · exact calls_txn hrecord

theorem calls_drainBatches (h : P op) (answer : op.Res → Except QueueError Nat)
    (batch rounds : Nat) :
    (Ops.drainBatches op answer batch rounds).Calls (S := storeSig) P := by
  induction rounds with
  | zero => trivial
  | succ rounds ih =>
    refine (calls_txn h).bind fun r => ?_
    split
    · trivial
    · split
      · trivial
      · refine ih.bind fun more => ?_
        rcases more with _ | _ <;> trivial

theorem calls_dequeueFrom (h : ∀ queue order, P (.dequeue queue now ns order))
    (queues : List String) : (Ops.dequeueFrom now ns orders queues).Calls (S := storeSig) P := by
  induction queues with
  | nil => trivial
  | cons queue rest ih =>
    refine (calls_txn (h queue _)).bind fun r => ?_
    rcases r with _ | _ | _
    · trivial
    · exact ih
    · trivial

theorem calls_dequeueBatchFrom (h : ∀ queue max order, P (.dequeueBatch queue now ns max order))
    (queues : List String) :
    ∀ max, (Ops.dequeueBatchFrom now ns orders max queues).Calls (S := storeSig) P := by
  induction queues with
  | nil => exact fun _ => trivial
  | cons queue rest ih =>
    rintro (_ | _)
    · trivial
    · refine (calls_txn (h queue _ _)).bind fun r => ?_
      rcases r with _ | _
      · trivial
      · refine (ih _).bind fun more => ?_
        rcases more with _ | _ <;> trivial

theorem calls_collectDependents (h : ∀ id, P (.dependents id)) :
    ∀ fuel idx queue, (Ops.collectDependents fuel idx queue).Calls (S := storeSig) P := by
  intro fuel
  induction fuel with
  | zero => exact fun _ _ => trivial
  | succ fuel ih =>
    intro _ _
    simp only [Ops.collectDependents]
    split
    · trivial
    · exact (calls_txn (h _)).bind fun _ => ih _ _

end Calls

/-! ## Clients -/

/-- The calls a client of the store can make. -/
inductive StoreCall where
  | enqueue (d : Draft)
  | enqueueBatch (ds : List Draft)
  | enqueueDebounced (d : Draft) (options : DebounceOptions)
  | enqueueUnique (d : Draft)
  | enqueueUniqueBatch (ds : List Draft)
  | dequeueFrom (queues : List String) (now : Int) (namespace_ : Option String)
      (orders : String → DispatchOrder)
  | dequeueBatchFrom (queues : List String) (now : Int) (namespace_ : Option String)
      (max : Nat) (orders : String → DispatchOrder)
  | complete (id : JobId) (result : Option Bytes) (namespace_ : Option String) (now : Int)
  | completeBatch (completions : List JobCompletion) (namespace_ : Option String) (now : Int)
  | fail (id : JobId) (error : String) (now : Int)
  | retry (id : JobId) (nextScheduledAt : Int) (namespace_ : Option String)
  | reschedule (id : JobId) (nextScheduledAt : Int)
  | requeueStuck (id : JobId) (now : Int)
  | cancelJob (id : JobId) (namespace_ : Option String) (now : Int) (fuel : Nat)
  | requestCancel (id : JobId) (namespace_ : Option String)
  | markCancelled (id : JobId) (namespace_ : Option String) (now : Int)
  | cascadeCancel (root : JobId) (reason : String) (namespace_ : Option String) (now : Int)
      (fuel : Nat)
  | archivePending (sweep : PendingSweep) (now : Int) (fuel : Nat)
  | updateProgress (id : JobId) (progress : Int) (namespace_ : Option String)
  | recordStepResult (step : NewJobStep) (owner : String) (attempt : Int) (limits : StepLimits)
      (namespace_ : Option String) (now : Int)
  | sleepJob (step : NewJobStep) (owner : String) (attempt wakeAt : Int) (limits : StepLimits)
      (namespace_ : Option String) (now : Int)
  | claimExecution (id : JobId) (workerId : String) (now : Int)
  | claimExecutionBatch (ids : List JobId) (workerId : String) (now : Int)
  | completeExecution (id : JobId) (namespace_ : Option String)
  | reclaimExecution (id : JobId) (expectedOwner newOwner : String) (now : Int)
  | purgeExecutionClaims (olderThanMs : Int)
  | deadLetter (job : Job) (error : String) (metadata : Option String) (shed : Bool)
      (dlqId : String) (now : Int) (fuel : Nat)
  | retryDead (deadId : String) (namespace_ : Option String) (id : JobId) (now : Int)
  | purgeDead (p : DeadLetterRow → Bool)
  | purgeCompleted (olderThanMs : Int)
  | purgeCompletedWithTtl (globalCutoffMs : Option Int) (now : Int)

/-- Run a program for its effects. -/
def discard {α : Type} (p : StoreProg α) : StoreProg Unit := do
  let _ ← p
  return ()

def StoreCall.prog (codec : MetadataCodec) : StoreCall → StoreProg Unit
  | enqueue d => discard (Ops.enqueue d)
  | enqueueBatch ds => discard (Ops.enqueueBatch ds)
  | enqueueDebounced d options => discard (Ops.enqueueDebounced d options)
  | enqueueUnique d => discard (Ops.enqueueUnique d)
  | enqueueUniqueBatch ds => discard (Ops.enqueueUniqueBatch ds)
  | dequeueFrom queues now ns orders => discard (Ops.dequeueFrom now ns orders queues)
  | dequeueBatchFrom queues now ns max orders =>
    discard (Ops.dequeueBatchFrom now ns orders max queues)
  | complete id result ns now => discard (txn (.complete id result ns now))
  | completeBatch cs ns now => discard (txn (.completeBatch cs ns now))
  | fail id error now => discard (txn (.fail id error now))
  | retry id next ns => discard (txn (.retry id next ns))
  | reschedule id next => discard (txn (.reschedule id next))
  | requeueStuck id now => discard (txn (.requeueStuck id now))
  | cancelJob id ns now fuel => discard (Ops.cancelJob id ns now fuel)
  | requestCancel id ns => discard (txn (.requestCancel id ns))
  | markCancelled id ns now => discard (txn (.markCancelled id ns now))
  | cascadeCancel root reason ns now fuel => discard (Ops.cascadeCancel root reason ns now fuel)
  | archivePending sweep now fuel => discard (Ops.archivePendingInBatches sweep now fuel)
  | updateProgress id progress ns => discard (txn (.updateProgress id progress ns))
  | recordStepResult step owner attempt limits ns now =>
    discard (txn (.recordStepResult step owner attempt limits ns now))
  | sleepJob step owner attempt wakeAt limits ns now =>
    discard (txn (.sleepJob step owner attempt wakeAt limits ns now))
  | claimExecution id workerId now => discard (txn (.claimExecution id workerId now))
  | claimExecutionBatch ids workerId now =>
    discard (txn (.claimExecutionBatch ids workerId now))
  | completeExecution id ns => Ops.completeExecution id ns
  | reclaimExecution id expectedOwner newOwner now =>
    discard (txn (.reclaimExecution id expectedOwner newOwner now))
  | purgeExecutionClaims olderThanMs => discard (txn (.purgeExecutionClaims olderThanMs))
  | deadLetter job error metadata shed dlqId now fuel =>
    discard (Ops.deadLetter codec job error metadata shed dlqId now fuel)
  | retryDead deadId ns id now => discard (Ops.retryDead codec deadId ns id now)
  | purgeDead p => discard (Ops.purgeDead p)
  | purgeCompleted olderThanMs => discard (Ops.purgeCompleted olderThanMs)
  | purgeCompletedWithTtl cutoff now => discard (Ops.purgeCompletedWithTtl cutoff now)

abbrev storeClients (codec : MetadataCodec) : Clients storeSig := ⟨StoreCall, StoreCall.prog codec⟩

end Flexiq
