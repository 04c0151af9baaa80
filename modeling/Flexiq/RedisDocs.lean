import Flexiq.RedisSteps

/-!
# The documents the Redis backend writes

What every operation keeps to, whatever the others do in between: a document that is written under
`job:<id>` is a fresh one or a patch of one that was read there, so it has the id of its key and the
queue, namespace and unique key the id was drawn for; only a finished job is archived; a command
that leaves a status names the status of the document it was computed from.

`home` says what each id was drawn for. Ids are drawn once, so there is such a function for every
run (`exists_home`): look it up at the end of the run.
-/

namespace Flexiq.Redis

variable {home : JobId → Origin}

/-- The document belongs to its id. -/
def Known (home : JobId → Origin) (job : Job) : Prop := originOf job = home job.id

/-- A patch: id and origin stay. -/
def Patches (seen job : Job) : Prop := job.id = seen.id ∧ originOf job = originOf seen

/-- A patch of a job that is at home is at home. -/
theorem Known.patch {seen job : Job} (h : Known home seen) (hp : Patches seen job) :
    Known home job := by
  rw [Known, hp.1, hp.2]
  exact h

/-- What an operation may ask for. -/
def Command.Proper (home : JobId → Origin) : Command → Prop
  | .setJob job => Known home job ∧ job.status = .pending
  | .storeUnique uniqueKey job _ =>
    Known home job ∧ job.status = .pending ∧ job.uniqueKey = some uniqueKey
  | .claimPending seen job =>
    Known home seen ∧ Patches seen job ∧ seen.status = .pending ∧ job.status = .running
  | .requeuePending seen job oldStatus _ =>
    Known home seen ∧ Patches seen job ∧ oldStatus = seen.status ∧ job.status = .pending
  | .requeueStuck seen job =>
    Known home seen ∧ Patches seen job ∧ seen.status = .running ∧ job.status = .pending
  | .archive seen job oldStatus | .deadLetter seen job oldStatus _ =>
    Patches seen job ∧ oldStatus = seen.status ∧ job.status.isTerminal = true
  | .requestCancel seen job =>
    Known home seen ∧ Patches seen job ∧ seen.status = .running ∧ job.status = .running
  | .setIfLive seen job => Known home seen ∧ Patches seen job ∧ job.status = seen.status
  | .recordStep a step _ => a.jobId = step.jobId
  | .sleepJob a step _ _ _ seen job oldStatus _ =>
    Known home seen ∧ Patches seen job ∧ oldStatus = seen.status ∧ job.status = .pending ∧
      a.jobId = step.jobId ∧ seen.id = step.jobId
  | _ => True

/-- The attempt a step write speaks for. -/
def Command.attempt : Command → Option Attempt
  | .recordStep a _ _ | .sleepJob a _ _ _ _ _ _ _ _ => some a
  | _ => none

/-- What a command may answer. -/
def Command.Expects (home : JobId → Origin) : (c : Command) → c.Res → Prop
  | .freshId origin, id => home id = origin
  | .getJob id, r => ∀ job, r = some job → job.id = id ∧ Known home job
  | .getArchived id, r => ∀ job, r = some job → job.id = id ∧ job.status.isTerminal = true
  | .mgetJobs ids, r =>
    ∀ p ∈ ids.zip (r : List (Option Job)), ∀ job, p.2 = some job → job.id = p.1 ∧ Known home job
  | _, _ => True

def docDiscipline (home : JobId → Origin) : Discipline redisSig Unit where
  permits _ := Command.Proper home
  expects _ := Command.Expects home
  next _ _ _ := ()
  done _ := True

/-- The operation keeps to the discipline, and its result satisfies `Q`. -/
abbrev Keeps {α : Type} (home : JobId → Origin) (p : RedisProg α) (Q : α → Prop) : Prop :=
  Prog.Tries (docDiscipline home) p () fun _ a => Q a

/-- The program issues proper commands only, whatever it returns. -/
abbrev Runs {α : Type} (home : JobId → Origin) (p : RedisProg α) : Prop :=
  Keeps home p fun _ => True

namespace Keeps

variable {α β : Type}
variable {p : RedisProg α} {job : Job} {queue : String} {attempt : Int}

theorem bind {f : α → RedisProg β} {P : α → Prop} {Q : β → Prop} (hp : Keeps home p P)
    (hf : ∀ a, P a → Keeps home (f a) Q) : Keeps home (p >>= f) Q :=
  Prog.Tries.bind (Prog.Tries.mono hp fun _ a ha => hf a ha)

variable {Q : α → Prop} {c : Command}

theorem pure {a : α} (h : Q a) : Keeps home (Pure.pure a : RedisProg α) Q :=
  Prog.Tries.pure h

theorem throw {e : QueueError} : Keeps home (MonadExcept.throw e : RedisProg α) Q :=
  Prog.Tries.throw e

theorem ask {Q : c.Res → Prop} (hc : c.Proper home) (hQ : ∀ r, c.Expects home r → Q r) :
    Keeps home (Redis.ask c) Q := by
  refine ⟨hc, fun r hr a ha => ?_⟩
  cases ha
  exact hQ r hr

theorem ask_any (hc : c.Proper home) : Runs home (Redis.ask c) :=
  ask hc fun _ _ => trivial

theorem nowMillis : Runs home Redis.nowMillis := ask_any trivial

theorem ite {P : Prop} [Decidable P] {q : RedisProg α} (hp : P → Keeps home p Q)
    (hq : ¬P → Keeps home q Q) : Keeps home (if P then p else q) Q := by
  split
  · next h => exact hp h
  · next h => exact hq h

/-- A backend call that keeps documents at home follows the discipline. -/
theorem issue (h : Keeps home p Q) :
    (Redis.issue p).Follows (docDiscipline home) () fun _ _ => True :=
  Prog.Follows.bind (Prog.Follows.mono h fun _ _ _ => trivial)

/-! ### Reading a job -/

variable {id : JobId} {namespace_ : Option String} {error owner : String} {fuel : Nat}
  {newJob : NewJob} {newJobs : List NewJob} {step : NewJobStep} {limits : StepLimits}
  {deps ids : List JobId} {batch : List (JobId × Option String)} {now nextScheduledAt : Int}

theorem loadJob :
    Keeps home (Redis.loadJob id) fun r => ∀ job, r = some job → job.id = id ∧ Known home job :=
  ask trivial fun _ hr => hr

theorem loadArchivedJob :
    Keeps home (Redis.loadArchivedJob id) fun r =>
      ∀ job, r = some job → job.id = id ∧ job.status.isTerminal = true :=
  ask trivial fun _ hr => hr

theorem getJobRequired :
    Keeps home (Redis.getJobRequired id) fun job => job.id = id ∧ Known home job := by
  refine bind loadJob fun r hr => ?_
  cases r with
  | some job => exact pure (hr job rfl)
  | none => exact throw

theorem getJobRequiredIn :
    Keeps home (Redis.getJobRequiredIn id namespace_) fun job => job.id = id ∧ Known home job := by
  refine bind getJobRequired fun job hjob => ?_
  split
  · exact throw
  · exact pure hjob

/-- A job that was found is a live one, unless it is finished. -/
theorem getJob :
    Keeps home (Redis.getJob id namespace_) fun r => ∀ job, r = some job →
      job.id = id ∧ (job.status.isTerminal = false → Known home job) := by
  refine bind loadJob fun r hr => ?_
  cases r with
  | some job =>
    refine pure fun found hfound => ?_
    obtain rfl : job = found := by simpa using (Option.filter_eq_some_iff.1 hfound).1
    exact ⟨(hr job rfl).1, fun _ => (hr job rfl).2⟩
  | none =>
    refine bind loadArchivedJob fun r hr => pure fun found hfound => ?_
    obtain ⟨hid, hdone⟩ := hr found (Option.filter_eq_some_iff.1 hfound).1
    refine ⟨hid, fun h => ?_⟩
    rw [hdone] at h
    cases h

/-! ### Enqueue -/

theorem validateDepIds : Runs home (Redis.validateDepIds namespace_ batch deps) := by
  induction deps with
  | nil => exact pure trivial
  | cons dep deps ih =>
    unfold Redis.validateDepIds
    split
    · split
      · exact throw
      · exact ih
    · refine bind loadJob fun r _ => ?_
      cases r with
      | some =>
        dsimp only
        split
        · exact throw
        · exact ih
      | none =>
        refine bind loadArchivedJob fun archived _ => ?_
        split
        · exact ih
        · exact throw

/-- A job that is about to be inserted. -/
def Fresh (home : JobId → Origin) (newJob : NewJob) (job : Job) : Prop :=
  Known home job ∧ job.status = .pending ∧ job.uniqueKey = newJob.uniqueKey

/-- The id of a new job is drawn for that job, so the job is at home. -/
theorem intoJob : Keeps home (Redis.intoJob newJob) (Fresh home newJob) :=
  bind (ask trivial fun _ hr => hr) fun _ hid => bind nowMillis fun _ _ => pure ⟨hid.symm, rfl, rfl⟩

theorem addDependencies : Runs home (Redis.addDependencies id deps) := by
  induction deps with
  | nil => exact pure trivial
  | cons dep deps ih => exact bind (ask_any trivial) fun _ _ => bind (ask_any trivial) fun _ _ => ih

theorem insertJob (hjob : Known home job ∧ job.status = .pending) :
    Runs home (Redis.insertJob job deps) :=
  bind (ask_any hjob) fun _ _ => bind (ask_any trivial) fun _ _ =>
    bind (ask_any trivial) fun _ _ => addDependencies

theorem enqueue : Runs home (Redis.enqueue newJob) :=
  bind intoJob fun _ hjob => bind validateDepIds fun _ _ =>
    bind (insertJob ⟨hjob.1, hjob.2.1⟩) fun _ _ => pure trivial

theorem intoJobs :
    Keeps home (Redis.intoJobs newJobs) fun jobs =>
      ∀ entry ∈ jobs, Known home entry.1 ∧ entry.1.status = .pending := by
  induction newJobs with
  | nil => exact pure (by simp)
  | cons newJob newJobs ih =>
    refine bind intoJob fun job hjob => bind ih fun jobs hjobs => pure ?_
    intro entry hentry
    obtain rfl | hentry := List.mem_cons.1 hentry
    · exact ⟨hjob.1, hjob.2.1⟩
    · exact hjobs entry hentry

variable {jobs : List (Job × List JobId)}

theorem validateBatch : Runs home (Redis.validateBatch batch jobs) := by
  induction jobs with
  | nil => exact pure trivial
  | cons entry jobs ih => exact bind validateDepIds fun _ _ => ih

theorem insertJobs (h : ∀ entry ∈ jobs, Known home entry.1 ∧ entry.1.status = .pending) :
    Runs home (Redis.insertJobs jobs) := by
  induction jobs with
  | nil => exact pure trivial
  | cons entry jobs ih =>
    exact bind (insertJob (h entry List.mem_cons_self)) fun _ _ =>
      ih fun e he => h e (List.mem_cons_of_mem _ he)

theorem enqueueBatch : Runs home (Redis.enqueueBatch newJobs) :=
  bind intoJobs fun _ hjobs => bind validateBatch fun _ _ =>
    bind (insertJobs hjobs) fun _ _ => pure trivial

theorem enqueueUnique : Runs home (Redis.enqueueUnique newJob) := by
  unfold Redis.enqueueUnique
  split
  · exact enqueue
  · next _ hkey =>
    refine bind (ask_any trivial) fun active _ => ?_
    rcases active with _ | job
    · refine bind intoJob fun job hjob => bind validateDepIds fun _ _ => ?_
      refine bind (ask_any ⟨hjob.1, hjob.2.1, hjob.2.2.trans hkey⟩) fun raced _ => ?_
      rcases raced with _ | _
      · exact pure trivial
      · exact pure trivial
    · exact pure trivial

theorem enqueueUniqueBatch : Runs home (Redis.enqueueUniqueBatch newJobs) := by
  induction newJobs with
  | nil => exact pure trivial
  | cons newJob newJobs ih => exact bind enqueueUnique fun _ _ => bind ih fun _ _ => pure trivial

/-! ### Dequeue -/

theorem dependenciesComplete : Runs home (Redis.dependenciesComplete deps) := by
  induction deps with
  | nil => exact pure trivial
  | cons dep deps ih =>
    refine bind getJob fun r _ => ?_
    rcases r with _ | _
    · exact pure trivial
    · dsimp only
      split
      · exact ih
      · exact pure trivial

theorem dependenciesMet : Runs home (Redis.dependenciesMet job) := by
  unfold Redis.dependenciesMet
  split
  · exact bind (ask_any trivial) fun _ _ => dependenciesComplete
  · exact pure trivial

theorem archiveExpired (hstatus : job.status = .pending) :
    Runs home (Redis.archiveExpired queue job now error) :=
  bind (ask_any trivial) fun _ _ => ask_any ⟨⟨rfl, rfl⟩, hstatus.symm, rfl⟩

/-- A candidate is claimed or archived as the document that was read says. -/
theorem claimCandidates (queue : String) (now : Int) (namespace_ : Option String) (max : Nat)
    {rest : List (JobId × Option Job)}
    (h : ∀ p ∈ rest, ∀ job, p.2 = some job → job.id = p.1 ∧ Known home job) :
    Runs home (Redis.claimCandidates queue now namespace_ max rest) := by
  induction rest generalizing max with
  | nil => cases max <;> exact pure trivial
  | cons p rest ih =>
    have hrest : ∀ max, Runs home (Redis.claimCandidates queue now namespace_ max rest) :=
      fun max => ih max fun q hq => h q (List.mem_cons_of_mem _ hq)
    obtain ⟨id, _ | job⟩ := p
    · cases max with
      | zero => exact pure trivial
      | succ => exact bind (ask_any trivial) fun _ _ => hrest _
    · cases max with
      | zero => exact pure trivial
      | succ =>
        have hknown : Known home job := (h _ List.mem_cons_self job rfl).2
        unfold Redis.claimCandidates
        by_cases helig : eligible job now namespace_ = true
        · have hpending : job.status = .pending := (of_decide_eq_true helig).1
          rw [if_neg (by simpa using helig)]
          split
          · exact bind (archiveExpired hpending) fun _ _ => hrest _
          · refine bind dependenciesMet fun met _ => ?_
            split
            · refine bind (ask_any ⟨hknown, ⟨rfl, rfl⟩, hpending, rfl⟩) fun claimed _ => ?_
              split
              · exact bind (hrest _) fun _ _ => pure trivial
              · exact hrest _
            · exact hrest _
        · rw [if_pos (by simpa using helig)]
          exact hrest _

theorem scanAndClaim {limit max : Nat} :
    Runs home (Redis.scanAndClaim queue now namespace_ limit max) :=
  bind (ask_any trivial) fun _ _ => bind (ask trivial fun _ hr => hr) fun _ hblobs =>
    claimCandidates queue now namespace_ max hblobs

theorem dequeue : Runs home (Redis.dequeue queue now namespace_) :=
  bind scanAndClaim fun _ _ => pure trivial

theorem dequeueBatch {max : Nat} : Runs home (Redis.dequeueBatch queue now namespace_ max) := by
  unfold Redis.dequeueBatch
  split
  · exact pure trivial
  · exact scanAndClaim

/-! ### Execution claims -/

theorem claimExecution {worker : String} : Runs home (Redis.claimExecution id worker) := by
  refine bind nowMillis fun now _ => bind (ask_any trivial) fun acquired _ => ?_
  split
  · exact bind (ask_any trivial) fun _ _ => pure trivial
  · exact pure trivial

theorem releaseClaim : Runs home (Redis.releaseClaim id) :=
  bind (ask_any trivial) fun _ _ => ask_any trivial

theorem completeExecution : Runs home (Redis.completeExecution id namespace_) := by
  unfold Redis.completeExecution
  split
  · refine bind getJob fun r _ => ?_
    rcases r with _ | _
    · exact pure trivial
    · exact releaseClaim
  · exact releaseClaim

theorem reclaimExecution {expected new : String} :
    Runs home (Redis.reclaimExecution id expected new) :=
  bind nowMillis fun _ _ => ask_any trivial

theorem releaseClaims : Runs home (Redis.releaseClaims ids) := by
  induction ids with
  | nil => exact pure trivial
  | cons id ids ih => exact bind releaseClaim fun _ _ => ih

theorem purgeExecutionClaims {olderThanMs : Int} :
    Runs home (Redis.purgeExecutionClaims olderThanMs) :=
  bind (ask_any trivial) fun _ _ => bind releaseClaims fun _ _ => pure trivial

/-! ### Terminal transitions -/

/-- The final document is a patch of the one that was read. -/
theorem complete {result : Option Bytes} : Runs home (Redis.complete id result namespace_) := by
  refine bind getJobRequiredIn fun seen _ => ?_
  split
  · exact throw
  · refine bind nowMillis fun now _ => bind (ask_any ⟨⟨rfl, rfl⟩, rfl, rfl⟩) fun _ _ => ?_
    split
    · exact ask_any trivial
    · exact pure trivial

theorem fail : Runs home (Redis.fail id error) := by
  refine bind getJobRequired fun seen _ => ?_
  split
  · exact throw
  · exact bind nowMillis fun _ _ => ask_any ⟨⟨rfl, rfl⟩, rfl, rfl⟩

/-- The walk over the dependents only reads. -/
theorem walkDependents {idx : Nat} {queue : List JobId} :
    Runs home (Redis.walkDependents fuel idx queue) := by
  induction fuel generalizing idx queue with
  | zero => exact pure trivial
  | succ fuel ih =>
    unfold Redis.walkDependents
    split
    · exact pure trivial
    · exact bind (ask_any trivial) fun _ _ => ih

theorem cancelPending : Runs home (Redis.cancelPending now error namespace_ ids) := by
  induction ids with
  | nil => exact pure trivial
  | cons id ids ih =>
    refine bind getJob fun r _ => ?_
    rcases r with _ | _
    · exact ih
    · dsimp only
      split
      · exact bind (ask_any ⟨⟨rfl, rfl⟩, rfl, rfl⟩) fun _ _ => ih
      · exact ih

theorem cascadeCancel {reason : String} :
    Runs home (Redis.cascadeCancel fuel id reason namespace_) :=
  bind nowMillis fun _ _ => bind walkDependents fun _ _ => cancelPending

theorem cancelJob : Runs home (Redis.cancelJob fuel id namespace_) := by
  refine bind getJob fun r _ => ?_
  rcases r with _ | _
  · exact pure trivial
  · dsimp only
    split
    · exact pure trivial
    · exact bind nowMillis fun _ _ => bind (ask_any ⟨⟨rfl, rfl⟩, rfl, rfl⟩) fun _ _ =>
        bind cascadeCancel fun _ _ => pure trivial

theorem markCancelled : Runs home (Redis.markCancelled id namespace_) := by
  refine bind getJobRequired fun seen _ => ite (fun _ => pure trivial) fun _ => ?_
  exact bind nowMillis fun _ _ => bind (ask_any ⟨⟨rfl, rfl⟩, rfl, rfl⟩) fun _ _ => ask_any trivial

theorem deadLetter {codec : MetadataCodec} {dlqId : String} {seen : Job} {metadata : Option String}
    {shed : Bool} : Runs home (Redis.deadLetter codec fuel dlqId seen error metadata shed) := by
  refine bind nowMillis fun now _ => bind (ask_any ⟨⟨rfl, rfl⟩, rfl, rfl⟩) fun done _ => ?_
  split
  · exact cascadeCancel
  · exact pure trivial

theorem expireJobs : Runs home (Redis.expireJobs now ids) := by
  induction ids with
  | nil => exact pure trivial
  | cons id ids ih =>
    refine bind loadJob fun r _ => ?_
    rcases r with _ | _
    · exact ih
    · dsimp only
      split
      · exact bind (ask_any trivial) fun _ _ => bind (ask_any ⟨⟨rfl, rfl⟩, rfl, rfl⟩) fun _ _ =>
          bind ih fun _ _ => pure trivial
      · exact ih

theorem expirePendingJobs : Runs home (Redis.expirePendingJobs now) :=
  bind (ask_any trivial) fun _ _ => expireJobs

/-! ### Back to pending, and other edits -/

theorem retry : Runs home (Redis.retry id nextScheduledAt namespace_) :=
  bind getJobRequiredIn fun _ hseen => ask_any ⟨hseen.2, ⟨rfl, rfl⟩, rfl, rfl⟩

theorem reschedule : Runs home (Redis.reschedule id nextScheduledAt) :=
  bind getJobRequired fun _ hseen => ask_any ⟨hseen.2, ⟨rfl, rfl⟩, rfl, rfl⟩

/-- The status was checked on the document that is written back. -/
theorem requeueStuck : Runs home (Redis.requeueStuck id now) := by
  refine bind getJob fun r hr => ?_
  rcases r with _ | seen
  · exact pure trivial
  · refine ite (fun _ => pure trivial) fun hstatus => ?_
    have hrunning : seen.status = .running := not_not.1 hstatus
    have hknown := (hr seen rfl).2 (by rw [hrunning]; rfl)
    exact ask_any ⟨hknown, ⟨rfl, rfl⟩, hrunning, rfl⟩

theorem requestCancel : Runs home (Redis.requestCancel id namespace_) := by
  refine bind getJob fun r hr => ?_
  rcases r with _ | seen
  · exact pure trivial
  · refine ite (fun _ => pure trivial) fun hstatus => ?_
    have hrunning : seen.status = .running := not_not.1 hstatus
    have hknown := (hr seen rfl).2 (by rw [hrunning]; rfl)
    exact ask_any ⟨hknown, ⟨rfl, rfl⟩, hrunning, hrunning⟩

theorem isCancelRequested : Runs home (Redis.isCancelRequested id namespace_) := by
  refine ite (fun _ => bind getJob fun r _ => ?_) fun _ => ask_any trivial
  rcases r with _ | _
  · exact pure trivial
  · exact ask_any trivial

theorem updateProgress {progress : Int} :
    Runs home (Redis.updateProgress id progress namespace_) := by
  unfold Redis.updateProgress
  split
  · exact throw
  · refine bind getJobRequired fun seen hseen => ?_
    split
    · exact throw
    · refine bind (ask_any ⟨hseen.2, ⟨rfl, rfl⟩, rfl⟩) fun applied _ => ?_
      split
      · exact pure trivial
      · exact throw

/-! ### Steps -/

theorem getJobSteps : Runs home (Redis.getJobSteps id namespace_) := by
  refine bind (ask_any trivial) fun found _ => ?_
  rcases found with _ | _
  · exact pure trivial
  · exact pure trivial

theorem recordStepResult :
    Runs home (Redis.recordStepResult step owner attempt limits namespace_) := by
  unfold Redis.recordStepResult
  dsimp only
  split
  · exact throw
  · refine bind nowMillis fun now _ => bind (ask_any rfl) fun reply _ => ?_
    split
    · exact pure trivial
    · split
      · exact pure trivial
      · exact throw

theorem storedSleep : Runs home (Redis.storedSleep step) := by
  refine bind (ask_any trivial) fun stored _ => ?_
  rcases stored with _ | _
  · exact pure trivial
  · dsimp only
    split
    · exact throw
    · split
      · exact pure trivial
      · exact throw

/-- Each attempt reads the document again before it patches it. -/
theorem sleepAttempts {wakeAt : Int} {attempts : Nat} :
    Runs home (Redis.sleepAttempts step owner attempt wakeAt limits namespace_ attempts) := by
  induction attempts with
  | zero => exact throw
  | succ attempts ih =>
    refine bind storedSleep fun stored _ => ?_
    refine bind getJobRequiredIn fun seen hseen => ?_
    refine bind nowMillis fun now _ => bind nowMillis fun createdAt _ => ?_
    refine bind (ask_any ⟨hseen.2, ⟨rfl, rfl⟩, rfl, rfl, rfl, hseen.1⟩) fun reply _ => ?_
    split
    · exact pure trivial
    · split
      · exact ih
      · exact throw

theorem authorizeAttempt : Runs home (Redis.authorizeAttempt id owner attempt namespace_) :=
  bind nowMillis fun _ _ => bind (ask_any trivial) fun _ _ => pure trivial

theorem deleteJobSteps : Runs home (Redis.deleteJobSteps id namespace_) :=
  ask_any trivial

end Keeps

/-- Every call of the backend keeps documents at home. -/
theorem RedisCall.follows (call : RedisCall) :
    call.prog.Follows (docDiscipline home) () fun _ _ => True := by
  cases call with
  | enqueue => exact Keeps.enqueue.issue
  | enqueueBatch => exact Keeps.enqueueBatch.issue
  | enqueueUnique => exact Keeps.enqueueUnique.issue
  | enqueueUniqueBatch => exact Keeps.enqueueUniqueBatch.issue
  | dequeue => exact Keeps.dequeue.issue
  | dequeueBatch => exact Keeps.dequeueBatch.issue
  | claimExecution => exact Keeps.claimExecution.issue
  | completeExecution => exact Keeps.completeExecution.issue
  | reclaimExecution => exact Keeps.reclaimExecution.issue
  | purgeExecutionClaims => exact Keeps.purgeExecutionClaims.issue
  | complete => exact Keeps.complete.issue
  | fail => exact Keeps.fail.issue
  | cancelJob => exact Keeps.cancelJob.issue
  | cascadeCancel => exact Keeps.cascadeCancel.issue
  | markCancelled => exact Keeps.markCancelled.issue
  | deadLetter => exact Keeps.deadLetter.issue
  | expirePendingJobs => exact Keeps.expirePendingJobs.issue
  | retry => exact Keeps.retry.issue
  | reschedule => exact Keeps.reschedule.issue
  | requeueStuck => exact Keeps.requeueStuck.issue
  | requestCancel => exact Keeps.requestCancel.issue
  | isCancelRequested => exact Keeps.isCancelRequested.issue
  | updateProgress => exact Keeps.updateProgress.issue
  | getJobSteps => exact Keeps.getJobSteps.issue
  | recordStepResult => exact Keeps.recordStepResult.issue
  | sleepJob => exact Keeps.sleepAttempts.issue
  | authorizeAttempt => exact Keeps.authorizeAttempt.issue
  | deleteJobSteps => exact Keeps.deleteJobSteps.issue

end Flexiq.Redis
