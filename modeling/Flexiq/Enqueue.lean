import Flexiq.Db

/-!
# The enqueue paths

Transaction bodies of the five ways a job enters the relational store. All of them check
dependencies before they write, and all of them write the same three things: the job row,
one edge for each dependency, nothing else.

* `enqueue`, `enqueueBatch` — always insert;
* `enqueueDebounced` — slides the deadline of a pending job of the same key, if one is open;
* `enqueueUnique`, `enqueueUniqueBatch` — hand back the active job of the same `unique_key`,
  if there is one.
-/

namespace Flexiq

/-- Validate the dependencies of a job, insert its row and its edges. -/
def insertWithDependencies (job : Job) (dependsOn : List JobId) (db : Db) :
    Except QueueError Db := do
  validateDependencies job.namespace_ dependsOn db
  let db ← insertJobRow job db
  return insertDependencyRows job.id dependsOn db

/-- Insert a new job. -/
def enqueue (job : Job) (dependsOn : List JobId) : Txn Job := fun db => do
  let db ← insertWithDependencies job dependsOn db
  return (job, db)

/-! ## Batches -/

/-- The namespace of a member of the batch; a later member of the same id shadows an earlier
one, as in the map the source collects. -/
def batchNamespace (jobs : List (Job × List JobId)) (id : JobId) : Option (Option String) :=
  (jobs.reverse.find? fun p => p.1.id = id).map fun p => p.1.namespace_

/-- Check one dependency of a batch member. An edge onto another member resolves against the
batch, since its row is not written yet. -/
def validateBatchDependency (jobs : List (Job × List JobId)) (namespace_ : Option String)
    (depId : JobId) (db : Db) : Except QueueError Unit :=
  match batchNamespace jobs depId with
  | some depNs => if depNs ≠ namespace_ then .error (.storage .rollbackTransaction) else .ok ()
  | none => validateDependency depId namespace_ db

def validateBatchMember (jobs : List (Job × List JobId)) (namespace_ : Option String) :
    List JobId → Db → Except QueueError Unit
  | [], _ => .ok ()
  | depId :: rest, db => do
    validateBatchDependency jobs namespace_ depId db
    validateBatchMember jobs namespace_ rest db

/-- Check the dependencies of every member of `members`, part of the batch `jobs`. -/
def validateBatch (jobs : List (Job × List JobId)) :
    List (Job × List JobId) → Db → Except QueueError Unit
  | [], _ => .ok ()
  | (job, dependsOn) :: rest, db => do
    validateBatchMember jobs job.namespace_ dependsOn db
    validateBatch jobs rest db

def insertJobRows : List Job → Db → Except QueueError Db
  | [], db => .ok db
  | job :: rest, db => do
    let db ← insertJobRow job db
    insertJobRows rest db

def insertBatchDependencyRows : List (Job × List JobId) → Db → Db
  | [], db => db
  | (job, dependsOn) :: rest, db =>
    insertBatchDependencyRows rest (insertDependencyRows job.id dependsOn db)

/-- Insert many jobs: all of them or none. -/
def enqueueBatch (jobs : List (Job × List JobId)) : Txn (List Job) := fun db => do
  validateBatch jobs jobs db
  let db ← insertJobRows (jobs.map Prod.fst) db
  return (jobs.map Prod.fst, insertBatchDependencyRows jobs db)

/-! ## Debounce windows -/

/-- How many pending rows a debounce write inspects. -/
def debounceCandidateScan : Nat := 8

/-- Oldest first. -/
def olderThan (a b : Job) : Prop :=
  a.createdAt < b.createdAt ∨ (a.createdAt = b.createdAt ∧ a.id ≤ b.id)

instance : DecidableRel olderThan := fun _ _ => inferInstanceAs (Decidable (_ ∨ _))

def debounceCandidates (namespace_ : Option String) (key : String) (db : Db) : List Job :=
  (((db.jobs.select fun j =>
    j.debounceKey = some key ∧ j.status = .pending ∧ j.namespace_ = namespace_).insertionSort
      olderThan).take debounceCandidateScan).map Job.narrow

/-- The pending job a debounced write may slide: the oldest candidate without a claim. -/
def findDebounceTarget (namespace_ : Option String) (key : String) (db : Db) : Option Job :=
  (debounceCandidates namespace_ key db).find? fun row =>
    (db.executionClaims.find row.id).isNone

/-- Slide a pending job's deadline, and replace its payload when asked to. -/
def slideDebounced (target : JobId) (deadline : Int) (payload : Option Bytes) (db : Db) : Db :=
  { db with
    jobs := db.jobs.update (fun j => j.id = target)
      (fun j => { j with scheduledAt := deadline, payload := payload.getD j.payload })
      fun _ _ => ⟨rfl, Or.inl rfl⟩ }

/-- Enqueue under a debounce window. `job` already carries the creation time and the deadline
of a fresh window. -/
def enqueueDebounced (job : Job) (dependsOn : List JobId) (key : String)
    (options : DebounceOptions) : Txn Job := fun db =>
  match findDebounceTarget job.namespace_ key db with
  | some pending =>
    let deadline := min job.scheduledAt (saturatingAdd pending.createdAt options.maxWaitMs)
    let db := slideDebounced pending.id deadline
      (if options.replacePayload then some job.payload else none) db
    match db.jobs.find pending.id with
    | some row => .ok (row, db)
    | none => .error (.storage .notFound)
  | none => enqueue job dependsOn db

/-! ## Unique keys -/

/-- The pending or running job that holds a unique key. -/
def activeWithKey (key : String) (db : Db) : Option Job :=
  db.jobs.rows.find? fun j => j.uniqueKey = some key ∧ (j.status = .pending ∨ j.status = .running)

/-- The active job that an enqueue with this job's key coalesces with. -/
def existingActive (job : Job) (db : Db) : Option Job :=
  job.uniqueKey.bind fun key => activeWithKey key db

/-- One attempt of a deduplicating enqueue. -/
def enqueueUnique (job : Job) (dependsOn : List JobId) : Txn Job := fun db =>
  match existingActive job db with
  | some row => .ok (row, db)
  | none => enqueue job dependsOn db

/-- One attempt of a deduplicating batch. -/
def enqueueUniqueBatch : List (Job × List JobId) → Txn (List Job)
  | [], db => .ok ([], db)
  | (job, dependsOn) :: rest, db => do
    let (row, db) ← enqueueUnique job dependsOn db
    let (out, db) ← enqueueUniqueBatch rest db
    return (row :: out, db)

end Flexiq
