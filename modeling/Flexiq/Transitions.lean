import Flexiq.Db

/-!
# Job transitions

Transaction bodies that move a job through its life in the relational store: the dequeue
that claims it, the outcomes that archive it, the paths that put it back to pending, and the
cancellations. A terminal transition is always the same gesture — load the row, set its
final columns, `archiveJobRow` — so the live table only ever holds pending and running rows.

The guards differ, and are kept exactly as each operation has them: `complete`, `fail` and
`requeueStuck` act on running jobs only, `cancelJob` on pending ones, `retry`, `reschedule`
and `markCancelled` on whatever the live table holds under that id.
-/

namespace Flexiq

/-! ## Dequeue -/

/-- Tie-break among jobs of equal priority. -/
inductive DispatchOrder where
  | fifo
  | lifo
  deriving DecidableEq

/-- Candidate order: priority first, then `(scheduled_at, id)` in the dispatch order. -/
def dispatchBefore (order : DispatchOrder) (a b : Job) : Prop :=
  b.priority < a.priority ∨ (a.priority = b.priority ∧
    match order with
    | .fifo => a.scheduledAt < b.scheduledAt ∨ (a.scheduledAt = b.scheduledAt ∧ a.id ≤ b.id)
    | .lifo => b.scheduledAt < a.scheduledAt ∨ (a.scheduledAt = b.scheduledAt ∧ b.id ≤ a.id))

instance (order : DispatchOrder) : DecidableRel (dispatchBefore order) := fun _ _ =>
  match order with
  | .fifo => inferInstanceAs (Decidable (_ ∨ (_ ∧ (_ ∨ _))))
  | .lifo => inferInstanceAs (Decidable (_ ∨ (_ ∧ (_ ∨ _))))

/-- Ready jobs of a queue, best first, without their blobs. -/
def scanDequeueCandidates (queue : String) (now : Int) (namespace_ : Option String)
    (limit : Nat) (order : DispatchOrder) (db : Db) : List Job :=
  (((db.jobs.select fun j =>
    j.queue = queue ∧ j.status = .pending ∧ j.scheduledAt ≤ now ∧
      j.namespace_ = namespace_).insertionSort (dispatchBefore order)).take limit).map Job.narrow

def isExpired (now : Int) (job : Job) : Bool :=
  match job.expiresAt with
  | some expiresAt => now > expiresAt
  | none => false

/-- The columns of a job whose execution starts. -/
def Job.started (job : Job) (now : Int) : Job :=
  { job with status := .running, startedAt := some now }

/-- Starting a pending job keeps its key and its unique slot. -/
theorem preserves_started (id : JobId) (now : Int) :
    Table.Preserves jobsSchema (fun j => j.id = id ∧ j.status = .pending) (·.started now) := by
  intro _ h
  obtain ⟨-, hs⟩ := of_decide_eq_true h
  exact ⟨rfl, .inl (by simp [jobsSchema, Job.started, JobStatus.isTerminal, hs])⟩

def claimPending (id : JobId) (now : Int) (db : Db) : Db :=
  { db with
    jobs := db.jobs.update (fun j => j.id = id ∧ j.status = .pending) (·.started now)
      (preserves_started id now) }

/-- What the dequeue loop does with one candidate: archive it when it has expired, skip it
while its dependencies block it, claim it otherwise. The answer is the claimed job. -/
def claimCandidate (now : Int) (row : Job) : Txn (Option Job) := fun db =>
  if isExpired now row then
    match db.jobs.find row.id with
    | none => .error (.storage .notFound)
    | some full => do
      let db ← archiveJobRow { full with
        status := .cancelled
        completedAt := some now
        error := some "expired before execution" } db
      return (none, db)
  else if row.hasDeps && !depsSatisfied db row.id then .ok (none, db)
  else if db.jobs.count (fun j => j.id = row.id ∧ j.status = .pending) = 0 then .ok (none, db)
  else
    let db := claimPending row.id now db
    match db.jobs.find row.id with
    | none => .error (.storage .notFound)
    | some updated => .ok (some updated, db)

/-- Try candidates until one is claimed. -/
def claimFirst (now : Int) : List Job → Txn (Option Job)
  | [], db => .ok (none, db)
  | row :: rest, db => do
    match ← claimCandidate now row db with
    | (some job, db) => return (some job, db)
    | (none, db) => claimFirst now rest db

/-- Claim the best ready job of a queue. -/
def dequeueOrdered (queue : String) (now : Int) (namespace_ : Option String)
    (order : DispatchOrder) : Txn (Option Job) := fun db =>
  claimFirst now (scanDequeueCandidates queue now namespace_ 100 order db) db

/-- Try candidates until `max` are claimed. -/
def claimUpTo (now : Int) : Nat → List Job → Txn (List Job)
  | _, [], db => .ok ([], db)
  | 0, _ :: _, db => .ok ([], db)
  | max + 1, row :: rest, db => do
    match ← claimCandidate now row db with
    | (some job, db) =>
      let (claimed, db) ← claimUpTo now max rest db
      return (job :: claimed, db)
    | (none, db) => claimUpTo now (max + 1) rest db

/-- Claim up to `max` ready jobs of a queue, from a bounded candidate scan. -/
def dequeueBatchOrdered (queue : String) (now : Int) (namespace_ : Option String) (max : Nat)
    (order : DispatchOrder) : Txn (List Job) := fun db =>
  claimUpTo now max
    (scanDequeueCandidates queue now namespace_ (min (max * 4) 400) order db) db

/-! ## Outcomes -/

def findRunning (id : JobId) (namespace_ : Option String) (db : Db) : Option Job :=
  (db.jobs.find id).filter fun j =>
    j.status = .running ∧ jobInNamespace j.namespace_ namespace_

def complete (id : JobId) (result : Option Bytes) (namespace_ : Option String) (now : Int) :
    Txn Unit := fun db =>
  match findRunning id namespace_ db with
  | none => .error (.jobNotFound id)
  | some row => do
    let db ← archiveJobRow { row with
      status := .complete, completedAt := some now, result := result } db
    return ((), db)

/-- Archive many running jobs as complete and record a metric for each: all of them or none. -/
def completeBatch (namespace_ : Option String) (now : Int) : List JobCompletion → Txn Unit
  | [], db => .ok ((), db)
  | c :: rest, db =>
    match findRunning c.jobId namespace_ db with
    | none => .error (.jobNotFound c.jobId)
    | some row => do
      let db ← archiveJobRow { row with
        status := .complete, completedAt := some now, result := c.result } db
      completeBatch namespace_ now rest { db with
        taskMetrics := db.taskMetrics ++
          [⟨c.taskName, c.jobId, c.wallTimeNs, 0, true, now, row.namespace_⟩] }

def fail (id : JobId) (error : String) (now : Int) : Txn Unit := fun db =>
  match findRunning id none db with
  | none => .error (.jobNotFound id)
  | some row => do
    let db ← archiveJobRow { row with
      status := .failed, completedAt := some now, error := some error } db
    return ((), db)

/-! ## Back to pending -/

/-- The columns of a job that waits to run at `scheduledAt`. -/
def Job.backToPending (job : Job) (scheduledAt : Int) : Job :=
  { job with
    status := .pending
    scheduledAt := scheduledAt
    startedAt := none
    completedAt := none
    error := none }

/-- Schedule a job to run again and consume one retry. The claim of the attempt that ended
goes with it. -/
def retry (id : JobId) (nextScheduledAt : Int) (namespace_ : Option String) : Txn Unit :=
  fun db =>
    let target : Job → Bool := fun j => j.id = id ∧ jobInNamespace j.namespace_ namespace_
    match db.jobs.tryUpdate target
      (fun j => { j.backToPending nextScheduledAt with retryCount := j.retryCount + 1 }) with
    | none => .error (.storage .uniqueViolation)
    | some jobs =>
      if db.jobs.count target = 0 then .error (.jobNotFound id)
      else .ok ((), deleteClaim id { db with jobs })

/-- Put a job that never executed back to pending; its retries are left alone. -/
def reschedule (id : JobId) (nextScheduledAt : Int) : Txn Unit := fun db =>
  match db.jobs.tryUpdate (fun j => j.id = id) (·.backToPending nextScheduledAt) with
  | none => .error (.storage .uniqueViolation)
  | some jobs =>
    if db.jobs.count (fun j => j.id = id) = 0 then .error (.jobNotFound id)
    else .ok ((), { db with jobs })

/-- Putting a running job back to pending keeps its key and its unique slot. -/
theorem preserves_backToPending (id : JobId) (f : Job → Job) (hid : ∀ j, (f j).id = j.id)
    (hkey : ∀ j, (f j).uniqueKey = j.uniqueKey) (hs : ∀ j, (f j).status = .pending) :
    Table.Preserves jobsSchema (fun j => j.id = id ∧ j.status = .running) f := by
  intro j h
  obtain ⟨-, hr⟩ := of_decide_eq_true h
  exact ⟨hid j, .inl (by simp [jobsSchema, JobStatus.isTerminal, hr, hkey, hs])⟩

/-- Force a running job back to pending and drop its claim. -/
def requeueStuck (id : JobId) (now : Int) : Txn Bool := fun db =>
  let jobs := db.jobs.update (fun j => j.id = id ∧ j.status = .running)
    (fun j => { j.backToPending now with cancelRequested := false })
    (preserves_backToPending id _ (fun _ => rfl) (fun _ => rfl) fun _ => rfl)
  if db.jobs.count (fun j => j.id = id ∧ j.status = .running) = 0 then .ok (false, db)
  else .ok (true, deleteClaim id { db with jobs })

/-! ## Cancellation -/

/-- Archive a pending job as cancelled; the answer says whether there was one. The caller
cascades to its dependents afterwards. -/
def cancelPending (id : JobId) (namespace_ : Option String) (now : Int) : Txn Bool := fun db =>
  match (db.jobs.find id).filter fun j => j.status = .pending with
  | none => .ok (false, db)
  | some row =>
    if !jobInNamespace row.namespace_ namespace_ then .ok (false, db)
    else do
      let db ← archiveJobRow { row with status := .cancelled, completedAt := some now } db
      return (true, db)

def requestCancel (id : JobId) (namespace_ : Option String) : Txn Bool := fun db =>
  let target : Job → Bool := fun j =>
    j.id = id ∧ j.status = .running ∧ jobInNamespace j.namespace_ namespace_
  let jobs := db.jobs.update target (fun j => { j with cancelRequested := true })
    fun _ _ => ⟨rfl, .inl rfl⟩
  .ok (decide (db.jobs.count target ≠ 0), { db with jobs })

/-- Archive a live job as cancelled on its worker's word. -/
def markCancelled (id : JobId) (namespace_ : Option String) (now : Int) : Txn Unit := fun db =>
  match db.jobs.find id with
  | none => .ok ((), db)
  | some row =>
    if !jobInNamespace row.namespace_ namespace_ then .ok ((), db)
    else do
      let db ← archiveJobRow { row with
        status := .cancelled
        completedAt := some now
        error := some "cancelled by request" } db
      return ((), db)

def dependentIds (db : Db) (jobId : JobId) : List JobId :=
  (db.jobDependencies.filter fun e => e.dependsOn = jobId).map JobDependency.jobId

/-- Archive already-loaded rows as cancelled with one error text. -/
def archivePendingRows (now : Int) (error : String) : List Job → Db → Except QueueError Db
  | [], db => .ok db
  | row :: rest, db => do
    let db ← archiveJobRow { row with
      status := .cancelled, completedAt := some now, error := some error } db
    archivePendingRows now error rest db

/-- Cancel the pending jobs among `ids`, the write of a cascade. -/
def cascadeArchive (ids : List JobId) (error : String) (namespace_ : Option String)
    (now : Int) : Txn Unit := fun db => do
  let rows := db.jobs.select fun j =>
    j.id ∈ ids ∧ j.status = .pending ∧ jobInNamespace j.namespace_ namespace_
  let db ← archivePendingRows now error rows db
  return ((), db)

def updateProgress (id : JobId) (progress : Int) (namespace_ : Option String) : Txn Unit :=
  fun db =>
    let target : Job → Bool := fun j => j.id = id ∧ jobInNamespace j.namespace_ namespace_
    let jobs := db.jobs.update target (fun j => { j with progress := some progress })
      fun _ _ => ⟨rfl, .inl rfl⟩
    if ¬(0 ≤ progress ∧ progress ≤ 100) then
      .error (.other "progress must be between 0 and 100")
    else if db.jobs.count target = 0 then .error (.jobNotFound id)
    else .ok ((), { db with jobs })

/-- A job by id: the live row, or the archived one. -/
def getJob (id : JobId) (namespace_ : Option String) (db : Db) : Option Job :=
  match db.jobs.find id with
  | some row => if jobInNamespace row.namespace_ namespace_ then some row else none
  | none => (db.archivedJobs.find id).filter fun row => jobInNamespace row.namespace_ namespace_

end Flexiq
