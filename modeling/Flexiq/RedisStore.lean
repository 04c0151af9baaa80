import Flexiq.Prog
import Flexiq.Transitions

/-!
# The Redis store

The part of the keyspace that holds jobs, their execution claims and their durable steps, and the
**commands** the backend issues on it. A command is what Redis executes without interruption: a
single command, a `MULTI`/`EXEC` block or a Lua script. Everything in between — reading a document,
patching it, sending it back — happens in the client, and other clients' commands may come between
(`RedisJobs`, `RedisSteps`).

A claim and a step hash have a time to live. Time passes before every command, by an amount the
world decides, and a key that is past its expiry reads as missing.

Documents are kept as the records they encode. A command that writes a document computed from one
the client has read also names the one it has read (`seen`); the store ignores it. Three records are
kept beside the store for the same reason, to speak about a run and not for any command to read:
the ids that were drawn, with what they were drawn for; the steps that were committed for a job
since it was last archived or had its steps deleted; and the time by which a step write last set the
expiry of its hash.
-/

namespace Flexiq.Redis

open Function

/-! ## Keys with a time to live -/

/-- A value, and the last millisecond at which its key is there. -/
structure Expiring (α : Type) where
  value : α
  expireAt : Int
  deriving DecidableEq

/-- What a key holds at a time. -/
def Expiring.read {α : Type} (now : Int) : Option (Expiring α) → Option α
  | none => none
  | some e => if now ≤ e.expireAt then some e.value else none

/-- Set a key's value and expiry; one that is already due deletes the key. -/
def Expiring.write {α : Type} (now expireAt : Int) (value : α) : Option (Expiring α) :=
  if expireAt ≤ now then none else some ⟨value, expireAt⟩

/-- How long an execution claim lives. -/
def claimTtlMs : Int := 86400000

/-- How long a step hash outlives its last write, or the latest deadline in it. -/
def ttlGraceMs : Int := 7 * 24 * 60 * 60 * 1000

/-- An execution claim, `"<owner>:<since>"`. -/
structure Claim where
  owner : String
  since : Int
  deriving DecidableEq

/-! ## Step hashes -/

/-- The stored half of a step row: all of it but the time it was written. -/
structure StepDoc where
  stepKey : String
  kind : StepKind
  result : Option Bytes
  wakeAt : Option Int
  deriving DecidableEq

/-- What a position holds, `"<created_at>\n<json>"`. -/
structure StepValue where
  createdAt : Int
  doc : StepDoc
  deriving DecidableEq

/-- A committed step, as it is read back. -/
structure JobStep where
  jobId : JobId
  seq : Int
  stepKey : String
  kind : StepKind
  result : Option Bytes
  wakeAt : Option Int
  createdAt : Int
  deriving DecidableEq

structure StepHash where
  /-- One field for each position. -/
  rows : List (Int × StepValue)
  /-- `k:<step_key>`: the position a key was spent at. -/
  keys : List (String × Int)
  /-- `__total`: the bytes of all results. -/
  total : Nat
  /-- `__wake`: the latest sleep deadline, `0` when there is none. -/
  wake : Int
  /-- `__ns`: the namespace of the job. -/
  ns : Option String
  deriving DecidableEq

/-- The hash of a key that is not there. -/
def StepHash.empty : StepHash := ⟨[], [], 0, 0, none⟩

/-- The comparable half of a step row. -/
def encodeDoc (step : NewJobStep) (wakeAt : Option Int) : StepDoc :=
  ⟨step.stepKey, step.kind, step.result, wakeAt⟩

/-- Read a position back. -/
def decodeStep (jobId : JobId) (seq : Int) (stored : StepValue) : JobStep :=
  ⟨jobId, seq, stored.doc.stepKey, stored.doc.kind, stored.doc.result, stored.doc.wakeAt,
    stored.createdAt⟩

/-- Write the row of a step: its position, its key and, if there is none yet, the namespace. The
position and the key are known to be free. -/
def StepHash.put (step : NewJobStep) (wakeAt : Option Int) (createdAt : Int) (jobNs : String)
    (h : StepHash) : StepHash :=
  { h with
    rows := (step.seq, ⟨createdAt, encodeDoc step wakeAt⟩) :: h.rows
    keys := (step.stepKey, step.seq) :: h.keys
    ns := some (h.ns.getD jobNs) }

/-! ## The store -/

/-- What a job is created with and keeps. -/
structure Origin where
  queue : String
  namespace_ : Option String
  uniqueKey : Option String
  deriving DecidableEq

def originOf (job : Job) : Origin := ⟨job.queue, job.namespace_, job.uniqueKey⟩

def newOrigin (newJob : NewJob) : Origin := ⟨newJob.queue, newJob.namespace_, newJob.uniqueKey⟩

/-- What the keyspace holds. -/
structure Store where
  /-- The time. -/
  clock : Int
  /-- `job:<id>`: the documents of live jobs. -/
  jobs : JobId → Option Job
  /-- `archived:<id>`. -/
  archived : JobId → Option Job
  /-- `dlq:<id>`. -/
  dead : List DeadLetterRow
  /-- `jobs:status:<n>`. -/
  byStatus : JobStatus → List JobId
  /-- `queue:<queue>:pending`. -/
  queued : String → List JobId
  /-- `job:<id>:depends_on`. -/
  dependsOn : JobId → List JobId
  /-- `job:<id>:dependents`. -/
  dependents : JobId → List JobId
  /-- `jobs:cancel_requested`. -/
  cancelRequested : List JobId
  /-- `jobs:unique:<key>`. -/
  unique : String → Option JobId
  /-- `exec_claim:<id>`. -/
  claims : JobId → Option (Expiring Claim)
  /-- `exec_claims:by_time`. -/
  claimTimes : JobId → Option Int
  /-- `job_steps:<id>`. -/
  steps : JobId → Option (Expiring StepHash)
  drawn : List (JobId × Origin)
  /-- The steps that were committed, but for those of a job that was archived or had its steps
  deleted since. -/
  committed : List JobStep
  /-- The time by which a step write last set the expiry of the hash. -/
  touched : JobId → Int

/-- A store that holds nothing. -/
def Store.empty (clock : Int) : Store where
  clock := clock
  jobs _ := none
  archived _ := none
  dead := []
  byStatus _ := []
  queued _ := []
  dependsOn _ := []
  dependents _ := []
  cancelRequested := []
  unique _ := none
  claims _ := none
  claimTimes _ := none
  steps _ := none
  drawn := []
  committed := []
  touched _ := 0

namespace Store

/-- `SET job:<id>`. -/
def setJob (job : Job) (st : Store) : Store :=
  { st with jobs := update st.jobs job.id (some job) }

/-- `SADD jobs:status:<n>`. -/
def addStatus (status : JobStatus) (id : JobId) (st : Store) : Store :=
  { st with byStatus := update st.byStatus status ((st.byStatus status).insert id) }

/-- `SREM jobs:status:<n>`. -/
def dropStatus (status : JobStatus) (id : JobId) (st : Store) : Store :=
  { st with
    byStatus := update st.byStatus status ((st.byStatus status).filter (· ≠ id)) }

/-- `ZADD queue:<queue>:pending`. -/
def addQueued (queue : String) (id : JobId) (st : Store) : Store :=
  { st with queued := update st.queued queue ((st.queued queue).insert id) }

/-- `ZREM queue:<queue>:pending`. -/
def dropQueued (queue : String) (id : JobId) (st : Store) : Store :=
  { st with queued := update st.queued queue ((st.queued queue).filter (· ≠ id)) }

/-- `SADD job:<id>:depends_on`. -/
def addDependsOn (id dep : JobId) (st : Store) : Store :=
  { st with dependsOn := update st.dependsOn id ((st.dependsOn id).insert dep) }

/-- `SADD job:<id>:dependents`. -/
def addDependent (dep id : JobId) (st : Store) : Store :=
  { st with dependents := update st.dependents dep ((st.dependents dep).insert id) }

/-- `SREM jobs:cancel_requested`. -/
def dropCancel (id : JobId) (st : Store) : Store :=
  { st with cancelRequested := st.cancelRequested.filter (· ≠ id) }

def claim (id : JobId) (st : Store) : Option Claim := Expiring.read st.clock (st.claims id)

/-- `SET exec_claim:<id> … PX`. -/
def setClaim (id : JobId) (claim : Claim) (st : Store) : Store :=
  { st with
    claims := update st.claims id
      (Expiring.write st.clock (st.clock + claimTtlMs) claim) }

/-- `ZADD exec_claims:by_time`. -/
def indexClaim (id : JobId) (time : Int) (st : Store) : Store :=
  { st with claimTimes := update st.claimTimes id (some time) }

/-- `DEL exec_claim:<id>`. -/
def dropClaim (id : JobId) (st : Store) : Store :=
  { st with claims := update st.claims id none }

/-- `ZREM exec_claims:by_time`. -/
def unindexClaim (id : JobId) (st : Store) : Store :=
  { st with claimTimes := update st.claimTimes id none }

/-- `DEL jobs:unique:<key>` if it points at the job. -/
def releaseUnique (uniqueKey : String) (id : JobId) (st : Store) : Store :=
  if st.unique uniqueKey = some id then
    { st with unique := update st.unique uniqueKey none }
  else st

/-- The step hash of a job; a key that is missing or has expired reads as an empty hash. -/
def stepHash (id : JobId) (st : Store) : StepHash :=
  (Expiring.read st.clock (st.steps id)).getD .empty

/-- `PEXPIREAT` on a hash that was just written. -/
def saveSteps (id : JobId) (now : Int) (h : StepHash) (st : Store) : Store :=
  { st with
    steps := update st.steps id
      (Expiring.write st.clock (max now h.wake + ttlGraceMs) h)
    touched := update st.touched id now }

/-- `DEL job_steps:<id>`; nothing is committed any more. -/
def dropSteps (id : JobId) (st : Store) : Store :=
  { st with
    steps := update st.steps id none
    committed := st.committed.filter (·.jobId ≠ id) }

def commit (step : JobStep) (st : Store) : Store := { st with committed := step :: st.committed }

/-! ## Transactions and scripts on jobs -/

/-- `requeue_pending`: back to pending, in one transaction. The old status set is left only when
it is another one. -/
def requeuePending (job : Job) (oldStatus : JobStatus) (revokeClaim : Bool) (st : Store) : Store :=
  let st := st.setJob job
  let st := if oldStatus ≠ .pending then
    (st.dropStatus oldStatus job.id).addStatus .pending job.id else st
  let st := st.addQueued job.queue job.id
  if revokeClaim then (st.dropClaim job.id).unindexClaim job.id else st

/-- `push_archive_ops`: from the live keys to the archive. The job's steps and its claim go with
it. -/
def archive (job : Job) (oldStatus : JobStatus) (st : Store) : Store :=
  let st := { st with jobs := update st.jobs job.id none }
  let st := st.dropStatus oldStatus job.id
  let st := if oldStatus = .pending then st.dropQueued job.queue job.id else st
  let st := ((st.dropSteps job.id).dropClaim job.id).unindexClaim job.id
  { st with archived := update st.archived job.id (some job) }

/-- The transaction of `dead_letter`: watch the job, and commit only if it is still there. -/
def deadLetter (job : Job) (oldStatus : JobStatus) (entry : DeadLetterRow) (st : Store) :
    Bool × Store :=
  if (st.jobs job.id).isSome then (true, { st.archive job oldStatus with dead := entry :: st.dead })
  else (false, st)

/-- `CLAIM_JOB_SCRIPT`: from pending to running, if the job is still in the pending set. -/
def claimPending (job : Job) (st : Store) : Bool × Store :=
  if job.id ∈ st.byStatus .pending then
    (true, ((((st.setJob job).dropStatus .pending job.id).addStatus .running job.id).dropQueued
      job.queue job.id))
  else (false, st)

/-- `REQUEUE_STUCK_IF_RUNNING`: from running to pending, if the job is still in the running
set. -/
def requeueStuck (job : Job) (st : Store) : Bool × Store :=
  if job.id ∈ st.byStatus .running then
    let st := ((st.setJob job).dropStatus .running job.id).addStatus .pending job.id
    let st := (st.addQueued job.queue job.id).dropCancel job.id
    (true, (st.dropClaim job.id).unindexClaim job.id)
  else (false, st)

/-- `REQUEST_CANCEL_IF_RUNNING`. -/
def requestCancel (job : Job) (st : Store) : Bool × Store :=
  if job.id ∈ st.byStatus .running then
    (true, { st.setJob job with cancelRequested := st.cancelRequested.insert job.id })
  else (false, st)

/-- `SET_IF_LIVE`. -/
def setIfLive (job : Job) (st : Store) : Bool × Store :=
  if (st.jobs job.id).isSome then (true, st.setJob job) else (false, st)

/-- The active job a unique key points at; a pointer to any other job is dropped. -/
def uniqueActive (uniqueKey : String) (st : Store) : Option Job × Store :=
  match st.unique uniqueKey with
  | none => (none, st)
  | some id =>
    match st.jobs id with
    | some job =>
      if job.status = .pending ∨ job.status = .running then (some job, st)
      else (none, { st with unique := update st.unique uniqueKey none })
    | none => (none, { st with unique := update st.unique uniqueKey none })

/-- The second script of `enqueue_unique`: look again, and store the job if no other is active. -/
def storeUnique (uniqueKey : String) (job : Job) (deps : List JobId) (st : Store) :
    Option Job × Store :=
  match st.uniqueActive uniqueKey with
  | (some active, st) => (some active, st)
  | (none, st) =>
    let st := ((st.setJob job).addStatus job.status job.id).addQueued job.queue job.id
    let st := { st with unique := update st.unique uniqueKey (some job.id) }
    (none, deps.foldl (fun st dep => (st.addDependsOn job.id dep).addDependent dep job.id) st)

/-- `RECLAIM_CLAIM_SCRIPT`: hand a claim from one owner to another. -/
def reclaim (id : JobId) (expected new : String) (now : Int) (st : Store) : Bool × Store :=
  match st.claim id with
  | some claim =>
    if claim.owner = expected then (true, (st.setClaim id ⟨new, now⟩).indexClaim id now)
    else (false, st)
  | none => (false, st)

end Store

/-! ## Scripts on steps -/

/-- Who writes: the arguments of the fence. An empty scope is no scope. -/
structure Attempt where
  jobId : JobId
  owner : String
  attempt : Int
  now : Int
  scope : String
  deriving DecidableEq

/-- What a step script answers. -/
inductive StepReply where
  | ok
  | already
  | retry
  | claimLost
  | diverged (kind : StepKind) (stepKey : String)
  | divergedResult (kind : StepKind) (stepKey : String)
  | keyTaken (seq : Int)
  | gap (seq : Int)
  | tooMany (count : Int)
  | tooBig (total : Nat)
  deriving DecidableEq

/-- Why a step cannot take a free position: its key is spent, the position before it is empty, or
there are too many. -/
def StepHash.refusal (step : NewJobStep) (maxSteps : Nat) (h : StepHash) : Option StepReply :=
  match h.keys.lookup step.stepKey with
  | some taken => some (.keyTaken taken)
  | none =>
    if step.seq > 0 ∧ h.rows.lookup (step.seq - 1) = none then some (.gap step.seq)
    else if step.seq + 1 > maxSteps then some (.tooMany (step.seq + 1))
    else none

theorem StepHash.refusal_ne_ok {step : NewJobStep} {maxSteps : Nat} {h : StepHash}
    {reply : StepReply} (hr : h.refusal step maxSteps = some reply) : reply ≠ .ok := by
  rintro rfl
  unfold StepHash.refusal at hr
  split at hr
  · cases hr
  · split at hr
    · cases hr
    · split at hr <;> cases hr

namespace Store

/-- The fence: the job runs at the caller's attempt, inside the caller's scope, and its claim is
the caller's or missing. Answers the job's namespace. -/
def fence (a : Attempt) (st : Store) : Option String :=
  match st.jobs a.jobId with
  | none => none
  | some job =>
    if job.status ≠ .running then none
    else if job.retryCount ≠ a.attempt then none
    else if a.scope ≠ "" ∧ job.namespace_.getD "" ≠ a.scope then none
    else
      match st.claim a.jobId with
      | some claim => if claim.owner ≠ a.owner then none else some (job.namespace_.getD "")
      | none => some (job.namespace_.getD "")

/-- Put a claim that was swept back. -/
def reassert (a : Attempt) (st : Store) : Store :=
  match st.claim a.jobId with
  | some _ => st
  | none => (st.setClaim a.jobId ⟨a.owner, a.now⟩).indexClaim a.jobId a.now

/-- `record_step_script`, behind the fence. -/
def recordStep (a : Attempt) (step : NewJobStep) (limits : StepLimits) (jobNs : String)
    (st : Store) : StepReply × Store :=
  let h := st.stepHash a.jobId
  match h.rows.lookup step.seq with
  | some stored =>
    if stored.doc = encodeDoc step none then (.already, st)
    else if stored.doc.stepKey ≠ step.stepKey ∨ stored.doc.kind ≠ step.kind then
      (.diverged stored.doc.kind stored.doc.stepKey, st)
    else (.divergedResult stored.doc.kind stored.doc.stepKey, st)
  | none =>
    match h.refusal step limits.maxSteps with
    | some reply => (reply, st)
    | none =>
      let grown := h.total + (step.result.getD []).length
      if grown > limits.maxTotalBytes then (.tooBig grown, st)
      else
        (.ok, (st.saveSteps a.jobId a.now
            { h.put step none a.now jobNs with total := grown }).commit
          (decodeStep a.jobId step.seq ⟨a.now, encodeDoc step none⟩))

/-- The end of `sleep_job_script`: the job waits for its deadline, without a claim. -/
def suspend (job : Job) (oldStatus : JobStatus) (st : Store) : Store :=
  let st := ((st.setJob job).dropStatus oldStatus job.id).addStatus .pending job.id
  ((st.addQueued job.queue job.id).dropClaim job.id).unindexClaim job.id

/-- `sleep_job_script`, behind the fence. The caller says whether it has read a row at this
position, and which deadline it reschedules to. -/
def sleepStep (a : Attempt) (step : NewJobStep) (maxSteps : Nat) (createdAt : Int)
    (stored : Bool) (job : Job) (oldStatus : JobStatus) (deadline : Int) (jobNs : String)
    (st : Store) : StepReply × Store :=
  let h := st.stepHash a.jobId
  match stored, h.rows.lookup step.seq with
  | true, none => (.retry, st)
  | true, some row =>
    if row.doc.stepKey ≠ step.stepKey ∨ row.doc.kind ≠ .sleep then
      (.diverged row.doc.kind row.doc.stepKey, st)
    else if row.doc.wakeAt ≠ some deadline then (.retry, st)
    else (.ok, (st.saveSteps a.jobId a.now h).suspend job oldStatus)
  | false, some _ => (.retry, st)
  | false, none =>
    match h.refusal step maxSteps with
    | some reply => (reply, st)
    | none =>
      (.ok, ((st.saveSteps a.jobId a.now
          { h.put step (some deadline) createdAt jobNs with wake := max h.wake deadline }).commit
        (decodeStep a.jobId step.seq ⟨createdAt, encodeDoc step (some deadline)⟩)).suspend
          job oldStatus)

/-- A script behind the fence: it runs once the claim is there again. -/
def fenced (a : Attempt) (body : String → Store → StepReply × Store) (st : Store) :
    StepReply × Store :=
  match st.fence a with
  | none => (.claimLost, st)
  | some jobNs => body jobNs (st.reassert a)

/-- `DELETE_STEPS`: namespace check, count and delete. -/
def deleteSteps (id : JobId) (scope : String) (st : Store) : Nat × Store :=
  if scope ≠ "" ∧ (st.stepHash id).ns ≠ some scope then (0, st)
  else (((st.stepHash id).rows.filter fun row => 0 ≤ row.1).length, st.dropSteps id)

theorem reassert_eq (a : Attempt) (st : Store) :
    ∃ claims claimTimes,
      st.reassert a = { st with claims := claims, claimTimes := claimTimes } := by
  unfold reassert
  split
  · exact ⟨st.claims, st.claimTimes, rfl⟩
  · exact ⟨_, _, rfl⟩

/-- A fenced script does nothing, or it runs with the claim in place. -/
theorem fenced_cases (a : Attempt) (body : String → Store → StepReply × Store) (st : Store) :
    (st.fence a = none ∧ st.fenced a body = (.claimLost, st)) ∨
    ∃ jobNs, st.fence a = some jobNs ∧ st.fenced a body = body jobNs (st.reassert a) := by
  unfold fenced
  rcases hf : st.fence a with _ | jobNs
  · exact .inl ⟨rfl, rfl⟩
  · exact .inr ⟨jobNs, rfl, rfl⟩

theorem fence_some {a : Attempt} {st : Store} {jobNs : String} (h : st.fence a = some jobNs) :
    ∃ job, st.jobs a.jobId = some job ∧ job.status = .running ∧ job.retryCount = a.attempt ∧
      (a.scope = "" ∨ job.namespace_.getD "" = a.scope) ∧ jobNs = job.namespace_.getD "" ∧
      ∀ claim, st.claim a.jobId = some claim → claim.owner = a.owner := by
  unfold fence at h
  split at h
  · cases h
  · next job hjob =>
    refine ⟨job, hjob, ?_⟩
    split at h
    · cases h
    · next hstatus =>
      split at h
      · cases h
      · next hattempt =>
        split at h
        · cases h
        · next hscope =>
          refine ⟨not_not.1 hstatus, not_not.1 hattempt, ?_, ?_⟩
          · by_cases hempty : a.scope = ""
            · exact .inl hempty
            · exact .inr (not_not.1 fun hne => hscope ⟨hempty, hne⟩)
          · split at h
            · next _ hclaim =>
              split at h
              · cases h
              · next howner =>
                refine ⟨(Option.some.inj h).symm, fun claim' h' => ?_⟩
                rw [hclaim] at h'
                cases h'
                exact not_not.1 howner
            · next hclaim =>
              refine ⟨(Option.some.inj h).symm, fun claim' h' => ?_⟩
              rw [hclaim] at h'
              cases h'

/-- A step commit refuses, or it writes a row at a free position. -/
theorem recordStep_cases (a : Attempt) (step : NewJobStep) (limits : StepLimits) (jobNs : String)
    (st : Store) :
    (∃ reply, reply ≠ .ok ∧ st.recordStep a step limits jobNs = (reply, st)) ∨
    ((st.stepHash a.jobId).rows.lookup step.seq = none ∧
      ∃ total, st.recordStep a step limits jobNs =
        (.ok, (st.saveSteps a.jobId a.now
            { (st.stepHash a.jobId).put step none a.now jobNs with total := total }).commit
          (decodeStep a.jobId step.seq ⟨a.now, encodeDoc step none⟩))) := by
  unfold recordStep
  dsimp only
  split
  · refine .inl ?_
    split
    · exact ⟨_, by simp, rfl⟩
    · split
      · exact ⟨_, by simp, rfl⟩
      · exact ⟨_, by simp, rfl⟩
  · next hrow =>
    split
    · next reply hreply => exact .inl ⟨reply, StepHash.refusal_ne_ok hreply, rfl⟩
    · split
      · exact .inl ⟨_, by simp, rfl⟩
      · exact .inr ⟨hrow, _, rfl⟩

/-- A sleep refuses, or it suspends the job on a row that was there or that it writes at a free
position. -/
theorem sleepStep_cases (a : Attempt) (step : NewJobStep) (maxSteps : Nat) (createdAt : Int)
    (stored : Bool) (job : Job) (oldStatus : JobStatus) (deadline : Int) (jobNs : String)
    (st : Store) :
    (∃ reply, reply ≠ .ok ∧
      st.sleepStep a step maxSteps createdAt stored job oldStatus deadline jobNs = (reply, st)) ∨
    ((st.stepHash a.jobId).rows ≠ [] ∧
      st.sleepStep a step maxSteps createdAt stored job oldStatus deadline jobNs =
        (.ok, (st.saveSteps a.jobId a.now (st.stepHash a.jobId)).suspend job oldStatus)) ∨
    ((st.stepHash a.jobId).rows.lookup step.seq = none ∧
      st.sleepStep a step maxSteps createdAt stored job oldStatus deadline jobNs =
        (.ok, ((st.saveSteps a.jobId a.now
            { (st.stepHash a.jobId).put step (some deadline) createdAt jobNs with
              wake := max (st.stepHash a.jobId).wake deadline }).commit
          (decodeStep a.jobId step.seq ⟨createdAt, encodeDoc step (some deadline)⟩)).suspend
            job oldStatus)) := by
  unfold sleepStep
  dsimp only
  split
  · exact .inl ⟨_, by simp, rfl⟩
  · next _ hrow =>
    split
    · exact .inl ⟨_, by simp, rfl⟩
    · split
      · exact .inl ⟨_, by simp, rfl⟩
      · refine .inr (.inl ⟨fun hnil => ?_, rfl⟩)
        rw [hnil] at hrow
        cases hrow
  · exact .inl ⟨_, by simp, rfl⟩
  · next hrow =>
    split
    · next reply hreply => exact .inl ⟨reply, StepHash.refusal_ne_ok hreply, rfl⟩
    · exact .inr (.inr ⟨hrow, rfl⟩)

end Store

/-! ## Commands -/

/-- What the backend asks for: a command, or the client's own clock and generator of ids. -/
inductive Command where
  | nowMillis
  | freshId (origin : Origin)
  | getJob (id : JobId)
  | getArchived (id : JobId)
  | mgetJobs (ids : List JobId)
  | members (status : JobStatus)
  | scanQueue (queue : String) (limit : Nat)
  | dependsOn (id : JobId)
  | dependents (id : JobId)
  | isCancelRequested (id : JobId)
  | setJob (job : Job)
  | addStatus (status : JobStatus) (id : JobId)
  | addQueued (queue : String) (id : JobId)
  | dropQueued (queue : String) (id : JobId)
  | addDependsOn (id dep : JobId)
  | addDependent (dep id : JobId)
  | dropCancel (id : JobId)
  | uniqueActive (uniqueKey : String)
  | storeUnique (uniqueKey : String) (job : Job) (deps : List JobId)
  | releaseUnique (uniqueKey : String) (id : JobId)
  | claimPending (seen job : Job)
  | requeuePending (seen job : Job) (oldStatus : JobStatus) (revokeClaim : Bool)
  | requeueStuck (seen job : Job)
  | archive (seen job : Job) (oldStatus : JobStatus)
  | deadLetter (seen job : Job) (oldStatus : JobStatus) (entry : DeadLetterRow)
  | requestCancel (seen job : Job)
  | setIfLive (seen job : Job)
  | claimExecution (id : JobId) (claim : Claim)
  | indexClaim (id : JobId) (time : Int)
  | dropClaim (id : JobId)
  | unindexClaim (id : JobId)
  | reclaim (id : JobId) (expected new : String) (now : Int)
  | claimsUntil (time : Int)
  | getStep (id : JobId) (seq : Int)
  | getSteps (id : JobId)
  | recordStep (a : Attempt) (step : NewJobStep) (limits : StepLimits)
  | sleepJob (a : Attempt) (step : NewJobStep) (maxSteps : Nat) (createdAt : Int) (stored : Bool)
      (seen job : Job) (oldStatus : JobStatus) (deadline : Int)
  | authorize (a : Attempt)
  | deleteSteps (id : JobId) (scope : String)

def Command.Res : Command → Type
  | nowMillis => Int
  | freshId _ => JobId
  | getJob _ | getArchived _ => Option Job
  | mgetJobs _ => List (Option Job)
  | members _ | scanQueue _ _ | dependsOn _ | dependents _ | claimsUntil _ => List JobId
  | isCancelRequested _ => Bool
  | setJob _ | addStatus _ _ | addQueued _ _ | dropQueued _ _ => Unit
  | addDependsOn _ _ | addDependent _ _ => Unit
  | dropCancel _ | releaseUnique _ _ => Unit
  | uniqueActive _ | storeUnique _ _ _ => Option Job
  | claimPending _ _ | requeueStuck _ _ | deadLetter _ _ _ _ | requestCancel _ _ => Bool
  | setIfLive _ _ | claimExecution _ _ | reclaim _ _ _ _ => Bool
  | requeuePending _ _ _ _ | archive _ _ _ => Unit
  | indexClaim _ _ | dropClaim _ | unindexClaim _ => Unit
  | getStep _ _ => Option StepValue
  | getSteps _ => Option StepHash
  | recordStep _ _ _ | sleepJob _ _ _ _ _ _ _ _ _ => StepReply
  | authorize _ => Bool
  | deleteSteps _ _ => Nat

@[reducible] def redisSig : Signature := ⟨Command, Command.Res⟩

/-- What the world decides at a command. -/
structure RedisEnv where
  /-- How much time passes before it. -/
  elapsed : Nat
  id : JobId
  /-- The order in which a queue is scanned. -/
  scan : List JobId
  /-- The claims in the order of their time. -/
  claimed : List JobId
  deriving DecidableEq

/-- The store at a command: time has passed. -/
def Store.wait (elapsed : Nat) (st : Store) : Store := { st with clock := st.clock + elapsed }

def Command.act : (c : Command) → RedisEnv → Store → c.Res × Store
  | .nowMillis, _, st => (st.clock, st)
  | .freshId origin, env, st => (env.id, { st with drawn := (env.id, origin) :: st.drawn })
  | .getJob id, _, st => (st.jobs id, st)
  | .getArchived id, _, st => ((st.archived id).map fun job => { job with debounceKey := none }, st)
  | .mgetJobs ids, _, st => (ids.map st.jobs, st)
  | .members status, _, st => (st.byStatus status, st)
  | .scanQueue queue limit, env, st =>
    ((env.scan.filter (· ∈ st.queued queue)).take limit, st)
  | .dependsOn id, _, st => (st.dependsOn id, st)
  | .dependents id, _, st => (st.dependents id, st)
  | .isCancelRequested id, _, st => (decide (id ∈ st.cancelRequested), st)
  | .setJob job, _, st => ((), st.setJob job)
  | .addStatus status id, _, st => ((), st.addStatus status id)
  | .addQueued queue id, _, st => ((), st.addQueued queue id)
  | .dropQueued queue id, _, st => ((), st.dropQueued queue id)
  | .addDependsOn id dep, _, st => ((), st.addDependsOn id dep)
  | .addDependent dep id, _, st => ((), st.addDependent dep id)
  | .dropCancel id, _, st => ((), st.dropCancel id)
  | .uniqueActive uniqueKey, _, st => st.uniqueActive uniqueKey
  | .storeUnique uniqueKey job deps, _, st => st.storeUnique uniqueKey job deps
  | .releaseUnique uniqueKey id, _, st => ((), st.releaseUnique uniqueKey id)
  | .claimPending _ job, _, st => st.claimPending job
  | .requeuePending _ job oldStatus revokeClaim, _, st =>
    ((), st.requeuePending job oldStatus revokeClaim)
  | .requeueStuck _ job, _, st => st.requeueStuck job
  | .archive _ job oldStatus, _, st => ((), st.archive job oldStatus)
  | .deadLetter _ job oldStatus entry, _, st => st.deadLetter job oldStatus entry
  | .requestCancel _ job, _, st => st.requestCancel job
  | .setIfLive _ job, _, st => st.setIfLive job
  | .claimExecution id claim, _, st =>
    if (st.claim id).isSome then (false, st) else (true, st.setClaim id claim)
  | .indexClaim id time, _, st => ((), st.indexClaim id time)
  | .dropClaim id, _, st => ((), st.dropClaim id)
  | .unindexClaim id, _, st => ((), st.unindexClaim id)
  | .reclaim id expected new now, _, st => st.reclaim id expected new now
  | .claimsUntil time, env, st =>
    (env.claimed.filter fun id => (st.claimTimes id).any (· ≤ time), st)
  | .getStep id seq, _, st => ((st.stepHash id).rows.lookup seq, st)
  | .getSteps id, _, st => (Expiring.read st.clock (st.steps id), st)
  | .recordStep a step limits, _, st => st.fenced a fun jobNs =>
      Store.recordStep a step limits jobNs
  | .sleepJob a step maxSteps createdAt stored _ job oldStatus deadline, _, st =>
    st.fenced a fun jobNs =>
      Store.sleepStep a step maxSteps createdAt stored job oldStatus deadline jobNs
  | .authorize a, _, st => ((st.fence a).isSome, st)
  | .deleteSteps id scope, _, st => st.deleteSteps id scope

/-- The Redis server, with its clients' clocks and ids. -/
@[reducible] def redisMachine : Machine redisSig where
  State := Store
  Env := RedisEnv
  exec c env st := c.act env (st.wait env.elapsed)

end Flexiq.Redis
