import Flexiq.DependencyGate
import Flexiq.StepLog

/-!
# A sleep lasts until its deadline

A job that sleeps is a pending row with a future `scheduled_at`, and a sleep step in its log. The
first commit fixes the deadline: a later sleep at the same position finds the step and answers
with the stored deadline. Whether the job also *stays* asleep that long depends on every
transaction that writes the `scheduled_at` of a pending row. A dequeue takes due rows only
(`dequeue_find_of_future`), and all but three of the others leave a pending row's schedule alone.
The three are a retry and a reschedule of the job, and a debounced enqueue that takes the sleeping
job for an open window.

So a sleep is honoured in every run in which those three find no later deadline in the log of the
pending job they are about to write (`sleep_honoured`), and a debounced enqueue can end it early
(`sleep_honoured_broken`).
-/

namespace Flexiq

open List Option Table StoreOp

variable {queue : String} {j jobId : JobId} {e : Effect}

/-! ## Dequeues take due jobs -/

section Dequeue

variable {now : Int} {cs : List Job} {k : JobId} {db db' : Db}
variable {ns : Option String}

theorem scan_ne_of_future {limit : Nat} {order : DispatchOrder} {row : Job}
    (hrow : db.jobs.find k = some row) (hfuture : now < row.scheduledAt) :
    ∀ c ∈ scanDequeueCandidates queue now ns limit order db, k ≠ c.id := by
  rintro _ hc rfl
  obtain ⟨full, hfull, rfl⟩ := mem_map.1 hc
  have hmem := mem_of_mem_take hfull
  rw [mem_insertionSort] at hmem
  obtain ⟨hmem, hp⟩ := mem_select.1 hmem
  obtain ⟨-, -, hdue, -⟩ := of_decide_eq_true hp
  have hfind : db.jobs.find full.id = some full := find_of_mem hmem
  obtain rfl : full = row := some.inj (hfind.symm.trans hrow)
  exact absurd hdue (not_le.2 hfuture)

theorem Walk.find_ne {claimed : List Job} (h : Walk queue ns now cs db claimed db')
    (hk : ∀ c ∈ cs, k ≠ c.id) : db'.jobs.find k = db.jobs.find k := by
  induction h with
  | stop => rfl
  | pass hc h _ ih =>
    refine (ih fun c' hc' => hk c' (by simp [hc'])).trans ?_
    exact claimCandidate_find_ne hc.scanned hc.pending h (hk _ (by simp))

end Dequeue

/-- The moment a dequeue works at. -/
def StoreOp.dequeuesAt : StoreOp → Option Int
  | dequeue _ now _ _ | dequeueBatch _ now _ _ _ => some now
  | _ => none

variable {op : StoreOp} {db db' : Db} {s : JobStepRow} {w : Int}

/-- **A dequeue leaves a job that is not due alone.** -/
theorem dequeue_find_of_future {now : Int} {k : JobId} {row : Job} (hop : op.dequeuesAt = some now)
    (hrow : db.jobs.find k = some row) (hfuture : now < row.scheduledAt) :
    (op.exec db).2.jobs.find k = some row := by
  cases op with
  | dequeue queue now' ns order =>
    obtain rfl := some.inj hop
    obtain ⟨e, -, hw⟩ | ⟨r, db', h, hw⟩ :=
      writeTransaction_cases (dequeueOrdered queue now' ns order) db
    · rw [show (dequeue queue now' ns order).exec db = _ from hw]
      exact hrow
    · rw [show (dequeue queue now' ns order).exec db = _ from hw]
      exact ((dequeueOrdered_walk h).find_ne (scan_ne_of_future hrow hfuture)).trans hrow
  | dequeueBatch queue now' ns max order =>
    obtain rfl := some.inj hop
    obtain ⟨_, -, hw⟩ | ⟨_, _, h, hw⟩ :=
      writeTransaction_cases (dequeueBatchOrdered queue now' ns max order) db
    · rw [show (dequeueBatch queue now' ns max order).exec db = _ from hw]
      exact hrow
    · rw [show (dequeueBatch queue now' ns max order).exec db = _ from hw]
      exact ((dequeueBatchOrdered_walk h).find_ne (scan_ne_of_future hrow hfuture)).trans hrow
  | _ => cases hop

/-! ## What a sleep leaves, and what keeps it -/

/-- The step is in the log of its job for as long as the job is live. -/
def Kept (s : JobStepRow) (db : Db) : Prop :=
  db.Live s.jobId → db.jobSteps.find (s.jobId, s.seq) = some s

/-- While it is live, the job is pending and not due before `w`. -/
def Rests (j : JobId) (w : Int) (db : Db) : Prop :=
  ∀ row, db.jobs.find j = some row → row.status = .pending ∧ w ≤ row.scheduledAt

/-- A job that is live after an effect was live before, unless it was inserted. -/
theorem live_of_effect (hnew : ∀ jobs, e = .insert jobs → ∀ entry ∈ jobs, entry.1.id ≠ j)
    (h : e.Holds db db') (hlive : db'.Live j) : db.Live j := by
  obtain ⟨_, hrow'⟩ := isSome_iff_exists.1 hlive
  obtain hsame | ⟨jobs, rfl, entry, hmem, -, hid⟩ | ⟨_, -, hrow, -⟩ := row_of_effect h hrow'
  · rw [Db.Live, hsame]
    rfl
  · exact absurd hid (hnew jobs rfl entry hmem)
  · rw [Db.Live, hrow]
    rfl

/-- A step goes only with its job. -/
theorem Kept.of_effect (hs : Kept s db)
    (hnew : ∀ jobs, e = .insert jobs → ∀ entry ∈ jobs, entry.1.id ≠ s.jobId) (h : e.Holds db db') :
    Kept s db' := by
  intro hlive
  have hold := hs (live_of_effect hnew h hlive)
  cases e with
  | archive =>
    obtain ⟨-, -, ha⟩ := h
    rw [Db.Live, find_jobs_archive ha] at hlive
    split at hlive
    · cases hlive
    · next hne =>
      rw [(archiveJobRow_ok ha).2]
      refine (find_delete db.jobSteps _ (s.jobId, s.seq)).trans ?_
      simp [hold, hne]
  | step =>
    obtain ⟨-, -, -, -, hins, -⟩ := h
    rw [find_insert hins]
    split
    · next hk =>
      have hfresh := find_of_insert hins
      rw [← hk, hold] at hfresh
      cases hfresh
    · exact hold
  | _ => grind [Effect.Holds, claimPending, purgeArchivedIdBatch]

/-- The effect leaves a job that rests until `w` at rest. -/
def Effect.LetsRest (j : JobId) (w : Int) : Effect → Prop
  | insert jobs => ∀ e ∈ jobs, e.1.id ≠ j
  | claimRun row _ => row.id ≠ j
  | edit row row' => row.id = j → row.status = .pending → w ≤ row.scheduledAt →
    row'.status = .pending ∧ w ≤ row'.scheduledAt
  | _ => True

theorem Rests.of_effect (hr : Rests j w db) (he : e.LetsRest j w) (h : e.Holds db db') :
    Rests j w db' := by
  intro row' hrow'
  obtain hsame | ⟨_, rfl, entry, hmem, -, hid⟩ | ⟨row, hid, hrow, ⟨_, rfl, -⟩ | rfl⟩ :=
    row_of_effect h hrow'
  · exact hr row' hsame
  · exact absurd hid (he entry hmem)
  · exact absurd hid he
  · obtain ⟨hpend, hw⟩ := hr row hrow
    exact he hid hpend hw

/-! ## Transactions -/

/-- The job whose `scheduled_at` a transaction is about to write whatever its status, and the
value. -/
def StoreOp.reschedules (db : Db) : StoreOp → Option (JobId × Int)
  | enqueueDebounced d key options =>
    (findDebounceTarget (d.debouncedJob options).namespace_ key db).map fun pending =>
      (pending.id, min (d.debouncedJob options).scheduledAt
        (saturatingAdd pending.createdAt options.maxWaitMs))
  | retry id next _ | reschedule id next => some (id, next)
  | _ => none

/-- A pending job that the transaction is about to reschedule has committed no sleep that ends
later. -/
def StoreOp.LetsSleep (op : StoreOp) (db : Db) : Prop :=
  ∀ p ∈ op.reschedules db, ∀ row ∈ db.jobs.find p.1, row.status = .pending →
    ∀ s ∈ stepRows p.1 db, ∀ w ∈ s.wakeAt, w ≤ p.2

/-- No effect of a transaction inserts a job that is not among its new ones. -/
theorem StoreOp.Effects.insert_ne (he : op.Effects e) (hnew : j ∉ op.newIds) :
    ∀ jobs, e = .insert jobs → ∀ entry ∈ jobs, entry.1.id ≠ j := by
  rintro _ rfl entry hentry rfl
  exact hnew (he.insert_newIds entry hentry)

/-- Every other transaction leaves a pending job that it does not insert where it is. -/
theorem StoreOp.Effects.letsRest (he : op.Effects e) (hnew : j ∉ op.newIds)
    (hwrites : op.reschedules db = none) (hdequeue : op.dequeuesAt = none)
    (hdebounce : ∀ d key options, op ≠ .enqueueDebounced d key options) : e.LetsRest j w := by
  cases e with
  | insert jobs => exact he.insert_ne hnew jobs rfl
  | claimRun => cases op <;> simp [StoreOp.Effects] at he <;> simp [dequeuesAt] at hdequeue
  | edit =>
    intro _ hpend hw
    cases op <;> simp [StoreOp.Effects] at he
    case enqueueDebounced d key options => exact absurd rfl (hdebounce d key options)
    case retry | reschedule => cases hwrites
    case requeueStuck | requestCancel | sleepJob =>
      -- these three write running jobs only
      rw [he.2.1] at hpend
      cases hpend
    case updateProgress =>
      obtain ⟨-, rfl⟩ := he
      exact ⟨hpend, hw⟩
  | _ => trivial

theorem live_of_exec (hnew : j ∉ op.newIds) (hlive : (op.exec db).2.Live j) : db.Live j := by
  by_contra hdead
  refine (exec_effects op db).invariant (P := fun mid => ¬ mid.Live j) ?_ hdead hlive
  exact fun e mid mid' he h hmid hl => hmid (live_of_effect (he.insert_ne hnew) h hl)

theorem Kept.exec (hs : Kept s db) (hnew : s.jobId ∉ op.newIds) : Kept s (op.exec db).2 :=
  (exec_effects op db).invariant
    (fun _ _ _ he h hmid => hmid.of_effect (he.insert_ne hnew) h) hs

/-- **A transaction that lets sleepers sleep leaves a resting job at rest**, unless it dequeues
at or after the job's deadline. -/
theorem Rests.exec (hr : Rests s.jobId w db)
    (hkept : Kept s db) (hwake : s.wakeAt = some w) (hnew : s.jobId ∉ op.newIds)
    (hlets : op.LetsSleep db) (htime : ∀ now ∈ op.dequeuesAt, now < w) :
    Rests s.jobId w (op.exec db).2 := by
  by_cases hlive : db.Live s.jobId
  case neg => exact fun row hrow => absurd (live_of_exec hnew (by rw [Db.Live, hrow]; rfl)) hlive
  obtain ⟨row, hrow⟩ := isSome_iff_exists.1 hlive
  obtain ⟨hpend, hw⟩ := hr row hrow
  -- what a transaction that writes the schedule of the job may write
  have hwrites : ∀ next, op.reschedules db = some (s.jobId, next) → w ≤ next := by
    intro next hp
    have hmem : s ∈ stepRows s.jobId db := mem_select.2 ⟨mem_of_find (hkept hlive), by simp⟩
    exact hlets _ hp row hrow hpend s hmem w hwake
  cases hdeq : op.dequeuesAt with
  | some now =>
    intro _ hrow'
    have hfuture : now < row.scheduledAt := lt_of_lt_of_le (htime now hdeq) hw
    rw [dequeue_find_of_future hdeq hrow hfuture] at hrow'
    cases hrow'
    exact ⟨hpend, hw⟩
  | none =>
    have hother : op.reschedules db = none →
        (∀ d key options, op ≠ .enqueueDebounced d key options) →
        Rests s.jobId w (op.exec db).2 := fun hnone hdeb =>
      (exec_effects op db).invariant
        (fun _ _ _ he h hmid => hmid.of_effect (he.letsRest hnew hnone hdeq hdeb) h) hr
    cases op with
    | enqueueDebounced d key options =>
      obtain ⟨e, -, hw⟩ | ⟨_, _, h, hw⟩ := writeTransaction_cases
        (enqueueDebounced (d.debouncedJob options) d.newJob.dependsOn key options) db
      · rw [show (StoreOp.enqueueDebounced d key options).exec db = _ from hw]
        exact hr
      · rw [show (StoreOp.enqueueDebounced d key options).exec db = _ from hw]
        obtain hins | ⟨_, r, _, htarget, hid, -, hedit⟩ := enqueueDebounced_cases h
        · refine hr.of_effect ?_ hins
          intro _ hentry hid
          cases mem_singleton.1 hentry
          exact hnew (hid ▸ mem_singleton.2 rfl)
        · refine hr.of_effect ?_ hedit
          intro hj hpend' _
          refine ⟨hpend', hwrites _ ?_⟩
          rw [reschedules, htarget, map_some, ← hid, hj]
    | retry id next =>
      refine (exec_effects _ db).invariant (fun e _ _ he h hmid => hmid.of_effect ?_ h) hr
      obtain rfl | ⟨r, rfl, -, rfl⟩ := he
      · trivial
      · exact fun hj _ _ => ⟨rfl, hwrites next (by rw [reschedules, hj])⟩
    | reschedule id next =>
      refine (exec_effects _ db).invariant (fun e _ _ he h hmid => hmid.of_effect ?_ h) hr
      obtain ⟨_, rfl, rfl⟩ := he
      exact fun hj _ _ => ⟨rfl, hwrites next (by rw [reschedules, hj])⟩
    | _ => exact hother rfl fun _ _ _ h => by cases h

/-! ## Sleeping -/

section Sleep

variable {step : NewJobStep} {owner : String} {attempt wakeAt : Int} {limits : StepLimits}
  {ns : Option String} {now : Int} {db db' : Db}

theorem resolveStepFence_error {reassert : Bool} {e : QueueError}
    (h : resolveStepFence jobId owner attempt ns reassert now db = .error e) :
    e = .claimLost jobId := by
  unfold resolveStepFence at h
  split at h
  · cases h
    rfl
  · split at h
    · cases h
      rfl
    · split at h
      · split at h
        · cases h
        · cases h
          rfl
      · next hclaim =>
        split at h
        · obtain ⟨_, hins⟩ := insert_of_fresh (t := db.executionClaims)
            (r := ⟨jobId, owner, now⟩) hclaim rfl
          rw [hins] at h
          cases h
        · cases h

/-- The fence passes a running job, and writes no more than its claim. -/
theorem resolveStepFence_keeps {reassert : Bool} {jobNs : Option String}
    (h : resolveStepFence jobId owner attempt ns reassert now db = .ok (jobNs, db')) :
    (∃ job, db.jobs.find jobId = some job ∧ job.status = .running) ∧ db'.jobs = db.jobs ∧
      db'.jobSteps = db.jobSteps := by
  obtain ⟨job, hjob, -, hrun, -, -, ⟨-, rfl⟩ | ⟨-, rfl | ⟨-, hdb⟩⟩⟩ := resolveStepFence_ok h
  · exact ⟨⟨job, hjob, hrun⟩, rfl, rfl⟩
  · exact ⟨⟨job, hjob, hrun⟩, rfl, rfl⟩
  · exact ⟨⟨job, hjob, hrun⟩, by rw [hdb], by rw [hdb]⟩

theorem suspendJob_running (wakeAt : Int) {job : Job} (hjob : db.jobs.find jobId = some job)
    (hrun : job.status = .running) :
    ∃ db', suspendJob jobId wakeAt db = .ok db' ∧ db'.jobSteps = db.jobSteps ∧
      db'.jobs.find jobId = some (job.backToPending wakeAt) := by
  have hid : job.id = jobId := find_key hjob
  have hcount : db.jobs.count (fun j => j.id = jobId ∧ j.status = .running) ≠ 0 := by
    intro hzero
    have := count_eq_zero.1 hzero job (mem_of_find hjob)
    simp [hid, hrun] at this
  refine ⟨_, if_neg hcount, rfl, ?_⟩
  refine (find_update db.jobs _ _
    (preserves_backToPending jobId (·.backToPending wakeAt) (fun _ => rfl) (fun _ => rfl)
      fun _ => rfl) jobId).trans ?_
  exact (find_map_updated (mem_of_find hjob) (by simp [hid, hrun])
    (fun j hj => (of_decide_eq_true hj).1.trans hid.symm) jobId).trans (if_pos hid.symm)

/-- The first commit of a sleep leaves the step in the log and the job resting. -/
theorem sleepJob_slept {w : Int}
    (h : sleepJob step owner attempt wakeAt limits ns now db = .ok (.slept w, db')) :
    ∃ s, (s.jobId, s.seq) = (step.jobId, step.seq) ∧ s.stepKey = step.stepKey ∧
      s.kind = step.kind ∧ s.wakeAt = some w ∧ db'.Live s.jobId ∧ Kept s db' ∧
      Rests s.jobId w db' := by
  obtain ⟨⟨jobNs, _⟩, hfence, h⟩ := bind_eq_ok.1 h
  obtain ⟨⟨outcome, db₂⟩, hcommit, h⟩ := bind_eq_ok.1 h
  obtain ⟨db₃, hsuspend, h⟩ := bind_eq_ok.1 h
  obtain ⟨rfl, rfl⟩ : outcome = .slept w ∧ db₃ = db' := by
    cases h
    exact ⟨rfl, rfl⟩
  obtain ⟨⟨job, hjob, hrun⟩, hjobs, -⟩ := resolveStepFence_keeps hfence
  unfold commitSleep at hcommit
  split at hcommit
  · -- a step is there already, so the answer is another one
    obtain ⟨_, hreplay, hcommit⟩ := bind_eq_ok.1 hcommit
    cases hcommit
    unfold replaySleep at hreplay
    split at hreplay
    · cases hreplay
    · split at hreplay <;> cases hreplay
  · dsimp only at hcommit
    obtain ⟨_, -, hcommit⟩ := bind_eq_ok.1 hcommit
    obtain ⟨_, -, hcommit⟩ := bind_eq_ok.1 hcommit
    obtain ⟨_, hinsert, hcommit⟩ := bind_eq_ok.1 hcommit
    cases hcommit
    obtain ⟨hins, hdb₂⟩ := insertStepRow_ok hinsert
    have hjob₂ : db₂.jobs.find step.jobId = some job := by rw [hdb₂, hjobs, hjob]
    obtain ⟨db'', hok, hsteps, hfind⟩ := suspendJob_running wakeAt hjob₂ hrun
    obtain rfl : db'' = db₃ := Except.ok.inj (hok.symm.trans hsuspend)
    refine ⟨step.toRow jobNs (some wakeAt) now, rfl, rfl, rfl, rfl, ?_, fun _ => ?_, ?_⟩
    · exact isSome_iff_exists.2 ⟨_, hfind⟩
    · rw [hsteps, find_insert hins]
      exact if_pos rfl
    · intro _ hrow
      cases hfind.symm.trans hrow
      exact ⟨rfl, le_refl wakeAt⟩

/-- A later sleep at the same position finds the deadline, if it gets past the fence. -/
theorem sleepJob_again (owner : String) (attempt wakeAt : Int) (limits : StepLimits)
    (ns : Option String) (now : Int) (hkept : Kept s db)
    (hpos : (s.jobId, s.seq) = (step.jobId, step.seq)) (hkey : s.stepKey = step.stepKey)
    (hkind : s.kind = .sleep) (hwake : s.wakeAt = some w) :
    sleepJob step owner attempt wakeAt limits ns now db = .error (.claimLost step.jobId) ∨
    ∃ db', sleepJob step owner attempt wakeAt limits ns now db = .ok (.alreadySleeping w, db') := by
  unfold sleepJob
  rcases hfence : resolveStepFence step.jobId owner attempt ns true now db with _ | ⟨jobNs, db₁⟩
  · exact .inl (congrArg Except.error (resolveStepFence_error hfence))
  · obtain ⟨⟨_, hjob, hrun⟩, hjobs, hsteps⟩ := resolveStepFence_keeps hfence
    have hid : s.jobId = step.jobId := congrArg Prod.fst hpos
    have hstored : db₁.jobSteps.find (step.jobId, step.seq) = some s := by
      rw [hsteps, ← hpos]
      exact hkept (by rw [Db.Live, hid, hjob]; rfl)
    have hcommit : commitSleep step wakeAt limits.clamped jobNs now db₁ =
        .ok (.alreadySleeping w, db₁) := by
      simp [commitSleep, hstored, replaySleep, hkey, hkind, hwake, Bind.bind, Except.bind,
        Pure.pure, Except.pure]
    obtain ⟨db₂, hsuspend, -, -⟩ := suspendJob_running w (hjobs ▸ hjob) hrun
    refine .inr ⟨db₂, ?_⟩
    refine bind_eq_ok.2 ⟨_, rfl, bind_eq_ok.2 ⟨_, hcommit, bind_eq_ok.2 ⟨_, hsuspend, rfl⟩⟩⟩

end Sleep

/-! ## Histories -/

/-- The step that the transaction committed by sleeping, and its deadline. -/
def StoreEvent.slept (e : StoreEvent) : Option (NewJobStep × Int) :=
  match e.op with
  | .sleepJob step owner attempt wakeAt limits ns now =>
    match sleepJob step owner attempt wakeAt limits ns now e.before with
    | .ok (.slept w, _) => some (step, w)
    | _ => none
  | _ => none

/-- The transaction was the first commit of the sleep step, until `w`. -/
abbrev StoreEvent.Sleeps (e : StoreEvent) (step : NewJobStep) (w : Int) : Prop :=
  step.kind = .sleep ∧ e.slept = some (step, w)

/-- The transaction was a sleep at the position and key of `step`, and either was refused by the
fence or answered with the deadline `w`. -/
def StoreEvent.Sleeping (e : StoreEvent) (step : NewJobStep) (w : Int) : Prop :=
  ∀ step' owner attempt wakeAt limits ns now,
    e.op = .sleepJob step' owner attempt wakeAt limits ns now →
    (step'.jobId, step'.seq) = (step.jobId, step.seq) → step'.stepKey = step.stepKey →
    sleepJob step' owner attempt wakeAt limits ns now e.before = .error (.claimLost step.jobId) ∨
    sleepJob step' owner attempt wakeAt limits ns now e.before = .ok (.alreadySleeping w, e.after)

/-- Some dequeue has worked at `w` or later. -/
def Reached (w : Int) (log : List StoreEvent) : Prop :=
  ∃ e ∈ log, ∃ now ∈ StoreOp.dequeuesAt e.op, w ≤ now

theorem Reached.cons {log : List StoreEvent} (h : Reached w log) (e : StoreEvent) :
    Reached w (e :: log) := by
  obtain ⟨e', he', htime⟩ := h
  exact ⟨e', mem_cons_of_mem e he', htime⟩

/-- **Sleeps are honoured**: after the first commit of a sleep until `w`, a sleep at the same
position and key answers `w`, and a transaction that moves the job to running is a dequeue at `w`
or later — or at a moment that is no longer before `w`, because a dequeue since then has worked at
`w` or later already. -/
def SleepHonoured (log : List StoreEvent) : Prop :=
  ∀ later e earlier, log = later ++ e :: earlier → ∀ step w, StoreEvent.Sleeps e step w →
    (∀ e' ∈ later, StoreEvent.Sleeping e' step w) ∧
    ∀ newer e' mid, later = newer ++ e' :: mid → StoreEvent.Starts e' step.jobId →
      ∃ now ∈ StoreOp.dequeuesAt e'.op, w ≤ now ∨ Reached w mid

/-- What the tables keep of a sleep until `w` that was committed before the events `later`. -/
structure Remembers (step : NewJobStep) (w : Int) (later log : List StoreEvent) (s : JobStepRow)
    (db : Db) : Prop where
  position : (s.jobId, s.seq) = (step.jobId, step.seq)
  key : s.stepKey = step.stepKey
  kind : s.kind = .sleep
  wake : s.wakeAt = some w
  used : ∃ e ∈ log, Db.Live e.after s.jobId
  kept : Kept s db
  rests : Rests s.jobId w db ∨ Reached w later

/-- The history so far honours its sleeps, and the tables remember them. -/
structure SleepHistory (db : Db) (log : List StoreEvent) : Prop where
  remembers : ∀ later e earlier, log = later ++ e :: earlier → ∀ step w,
    StoreEvent.Sleeps e step w → ∃ s, Remembers step w later log s db
  honoured : SleepHonoured log

section Transaction

variable {db : Db} {log later : List StoreEvent} {op : StoreOp} {step : NewJobStep} {w : Int}
  {s : JobStepRow}

theorem dequeuesAt_of_starts (h : StoreEvent.Starts ⟨op, db, (op.exec db).2⟩ j) :
    ∃ now, op.dequeuesAt = some now := by
  by_contra hnone
  refine h.1 ?_
  refine (exec_effects op db).invariant (P := fun mid => mid.Running j → db.Running j) ?_ id h.2
  intro _ _ _ he hs hmid hrun
  obtain hold | ⟨_, _, rfl, -⟩ := running_of_holds he.sane hs hrun
  · exact hmid hold
  · refine absurd ?_ hnone
    cases op <;> simp [StoreOp.Effects] at he
    case dequeue | dequeueBatch => exact ⟨_, rfl⟩

section

variable (h : Remembers step w later log s db)
include h

theorem Remembers.fresh (hids : op.NeverUsed db log) : s.jobId ∉ op.newIds := by
  obtain ⟨e, he, hlive⟩ := h.used
  exact fun hid => hids.2.2 e he s.jobId hid hlive

theorem Remembers.exec (hids : op.NeverUsed db log) (hlets : op.LetsSleep db) :
    Remembers step w (⟨op, db, (op.exec db).2⟩ :: later) (⟨op, db, (op.exec db).2⟩ :: log) s
      (op.exec db).2 where
  position := h.position
  key := h.key
  kind := h.kind
  wake := h.wake
  used := by
    obtain ⟨e, he, hlive⟩ := h.used
    exact ⟨e, mem_cons_of_mem _ he, hlive⟩
  kept := h.kept.exec (h.fresh hids)
  rests := by
    obtain hrests | hreached := h.rests
    · by_cases htime : ∀ now ∈ op.dequeuesAt, now < w
      · exact .inl (hrests.exec h.kept h.wake (h.fresh hids) hlets htime)
      · push Not at htime
        obtain ⟨now, hnow, hle⟩ := htime
        exact .inr ⟨_, mem_cons_self, now, hnow, hle⟩
    · exact .inr (hreached.cons _)

/-- A sleep that is remembered is still in force at the next sleep call. -/
theorem Remembers.sleeping : StoreEvent.Sleeping ⟨op, db, (op.exec db).2⟩ step w := by
  rintro step' owner attempt wakeAt limits ns now rfl hpos hkey
  have hid : step'.jobId = step.jobId := congrArg Prod.fst hpos
  obtain hlost | ⟨db', hok⟩ := sleepJob_again owner attempt wakeAt limits ns now h.kept
    (h.position.trans hpos.symm) (h.key.trans hkey.symm) h.kind h.wake
  · exact .inl (hid ▸ hlost)
  · have hexec : (StoreOp.sleepJob step' owner attempt wakeAt limits ns now).exec db =
        (.ok (.alreadySleeping w), db') := writeTransaction_ok _ hok
    rw [hexec]
    exact .inr hok

/-- While a sleep is remembered, nothing starts its job before the deadline. -/
theorem Remembers.starts (hids : op.NeverUsed db log) (hlets : op.LetsSleep db)
    (hstarts : StoreEvent.Starts ⟨op, db, (op.exec db).2⟩ step.jobId) :
    ∃ now ∈ op.dequeuesAt, w ≤ now ∨ Reached w later := by
  obtain ⟨now, hnow⟩ := dequeuesAt_of_starts hstarts
  refine ⟨now, hnow, ?_⟩
  obtain hrests | hreached := h.rests
  · refine .inl (not_lt.1 fun hlt => ?_)
    have hafter := hrests.exec h.kept h.wake (h.fresh hids) hlets (by
      intro _ hnow'
      cases hnow.symm.trans hnow'
      exact hlt)
    obtain ⟨row, hrow, hrun⟩ := hstarts.2
    have hid : s.jobId = step.jobId := congrArg Prod.fst h.position
    obtain ⟨hpend, -⟩ := hafter row (hid ▸ hrow)
    rw [hrun] at hpend
    cases hpend
  · exact .inr hreached

end

/-- What the tables remember of a sleep right after it. -/
theorem remembers_of_sleeps (h : StoreEvent.Sleeps ⟨op, db, (op.exec db).2⟩ step w) :
    ∃ s, Remembers step w [] (⟨op, db, (op.exec db).2⟩ :: log) s (op.exec db).2 := by
  obtain ⟨hkind, hslept⟩ := h
  unfold StoreEvent.slept at hslept
  split at hslept
  case h_2 => cases hslept
  next _ owner attempt wakeAt limits ns now hop =>
  obtain rfl : op = _ := hop
  split at hslept
  case h_2 => cases hslept
  next _ db' hok =>
  cases hslept
  have hexec : (StoreOp.sleepJob step owner attempt wakeAt limits ns now).exec db =
      (.ok (.slept w), db') := writeTransaction_ok _ hok
  rw [hexec]
  obtain ⟨s, hpos, hkey, hkind', hwake, hlive, hkept, hrests⟩ := sleepJob_slept hok
  exact ⟨s, hpos, hkey, hkind'.trans hkind, hwake, ⟨_, mem_cons_self, hlive⟩, hkept,
    .inl hrests⟩

/-- **Every transaction that lets sleepers sleep extends the history safely.** -/
theorem SleepHistory.exec (hh : SleepHistory db log) (hids : op.NeverUsed db log)
    (hlets : op.LetsSleep db) : SleepHistory (op.exec db).2 (⟨op, db, (op.exec db).2⟩ :: log) := by
  constructor
  · intro later e earlier heq step w hsleeps
    rcases later with _ | ⟨e', later⟩
    · obtain ⟨rfl, rfl⟩ := List.cons.inj heq
      exact remembers_of_sleeps hsleeps
    · obtain ⟨rfl, rfl⟩ := List.cons.inj heq
      obtain ⟨s, hs⟩ := hh.remembers later e earlier rfl step w hsleeps
      exact ⟨s, hs.exec hids hlets⟩
  · intro later e earlier heq step w hsleeps
    rcases later with _ | ⟨e', later⟩
    · exact ⟨fun e' he' => (nomatch he'), fun newer e' mid h => absurd h (by simp)⟩
    · obtain ⟨rfl, rfl⟩ := List.cons.inj heq
      obtain ⟨_, hs⟩ := hh.remembers later e earlier rfl step w hsleeps
      obtain ⟨hanswers, hwaits⟩ := hh.honoured later e earlier rfl step w hsleeps
      refine ⟨fun e' he' => ?_, fun newer e' mid h hstarts => ?_⟩
      · obtain rfl | he' := mem_cons.1 he'
        · exact hs.sleeping
        · exact hanswers e' he'
      · rcases newer with _ | ⟨_, newer⟩
        · obtain ⟨rfl, rfl⟩ := List.cons.inj h
          exact hs.starts hids hlets hstarts
        · exact hwaits newer e' mid (List.cons.inj h).2 hstarts

end Transaction

/-! ## Runs -/

/-- Clients of the store that let sleepers sleep. -/
abbrev restfulRules (codec : MetadataCodec) (τ : Type) :
    Rules storeMachine.logged (storeClients codec) τ where
  mayStart _ _ _ := True
  mayStep s _ op _ := StoreOp.NeverUsed op s.1 s.2 ∧ StoreOp.LetsSleep op s.1

/-- **In every run whose transactions let sleepers sleep, every sleep is honoured.** -/
theorem sleep_honoured (codec : MetadataCodec) {τ : Type} [DecidableEq τ] {db₀ : Db}
    {c : Pool storeMachine.logged τ}
    (h : Pool.Reaches (restfulRules codec τ) (Pool.idle (db₀, [])) c) :
    SleepHonoured c.state.2 := by
  have hinit : SleepHistory db₀ [] :=
    ⟨fun later e earlier heq => absurd heq (by simp),
      fun later e earlier heq => absurd heq (by simp)⟩
  have hinv := Pool.invariant (R := restfulRules codec τ)
    (P := fun s => SleepHistory s.1 s.2)
    (fun s t op env hh hstep => hh.exec hstep.1 hstep.2) hinit h
  exact hinv.honoured

instance (op : StoreOp) (db : Db) : Decidable (op.LetsSleep db) :=
  inferInstanceAs (Decidable (∀ p ∈ op.reschedules db, ∀ row ∈ db.jobs.find p.1, _ → _))

/-! ## A debounced job that sleeps -/

/-- A window of 1 ms that is never held open for more than 5. -/
def briefWindow : DebounceOptions := ⟨1, 5, false⟩

/-- A job is enqueued under a debounce key, dequeued, and sleeps until 100. -/
def debouncedSleep : List (Move storeMachine.logged (storeClients plainCodec) Unit) :=
  [.start () (.enqueueDebounced
     ⟨{ NewJob.plain "q" "t" with debounceKey := some "k" }, "a", 0⟩ briefWindow), .step () (),
   .start () (.dequeueFrom ["q"] 1 none fun _ => .fifo), .step () (),
   .start () (.sleepJob ⟨"a", 0, "pause#0", .sleep, none⟩ "w" 0 100 sampleLimits none 2),
   .step () ()]

/-- The job wakes at 100, and a replay finds the deadline of its sleep. -/
theorem sleep_honoured_sample :
    ∃ c, Pool.Reaches (restfulRules plainCodec Unit) (Pool.idle (Db.empty, [])) c ∧
      (∃ e ∈ c.state.2, StoreEvent.Sleeps e ⟨"a", 0, "pause#0", .sleep, none⟩ 100) ∧
      (∃ e ∈ c.state.2, StoreEvent.Starts e "a" ∧ StoreOp.dequeuesAt e.op = some 100) ∧
      SleepHonoured c.state.2 := by
  obtain ⟨c, hc, hsleeps, hstarts⟩ := Pool.exists_reaches (restfulRules plainCodec Unit)
    (.idle (.empty, []))
    (debouncedSleep ++
      [.start () (.dequeueFrom ["q"] 99 none fun _ => .fifo), .step () (),
       .start () (.dequeueFrom ["q"] 100 none fun _ => .fifo), .step () (),
       .start () (.sleepJob ⟨"a", 0, "pause#0", .sleep, none⟩ "w" 0 300 sampleLimits none 101),
       .step () ()])
    (fun c => (∃ e ∈ c.state.2, StoreEvent.Sleeps e ⟨"a", 0, "pause#0", .sleep, none⟩ 100) ∧
      ∃ e ∈ c.state.2, StoreEvent.Starts e "a" ∧ dequeuesAt e.op = some 100)
    (by decide +kernel)
  exact ⟨c, hc, hsleeps, hstarts, sleep_honoured plainCodec hc⟩

/-- The latest transaction started the job at `now`, and with one other transaction in between,
no dequeue, the job had gone to sleep until `w`. -/
def LastWakes (step : NewJobStep) (w now : Int) : List StoreEvent → Prop
  | e :: e' :: s :: _ => StoreEvent.Starts e step.jobId ∧ StoreOp.dequeuesAt e.op = some now ∧
    StoreOp.dequeuesAt e'.op = none ∧ StoreEvent.Sleeps s step w
  | _ => False

instance (step : NewJobStep) (w now : Int) : DecidablePred (LastWakes step w now) := fun log => by
  rcases log with _ | ⟨_, _ | ⟨_, _ | _⟩⟩ <;> unfold LastWakes <;> infer_instance

/-- The next enqueue under the job's debounce key takes the sleeping job for an open window and
slides it to 4, where a dequeue starts it. -/
theorem sleep_honoured_broken :
    ¬ ∀ c : Pool storeMachine.logged Unit,
      Pool.Reaches (historyRules plainCodec Unit) (Pool.idle (Db.empty, [])) c →
        SleepHonoured c.state.2 := by
  intro hall
  obtain ⟨c, hc, hwakes⟩ := Pool.exists_reaches (historyRules plainCodec Unit)
    (.idle (.empty, []))
    (debouncedSleep ++
      [.start () (.enqueueDebounced
         ⟨{ NewJob.plain "q" "t" with debounceKey := some "k" }, "b", 3⟩ briefWindow), .step () (),
       .start () (.dequeueFrom ["q"] 4 none fun _ => .fifo), .step () ()])
    (fun c => LastWakes ⟨"a", 0, "pause#0", .sleep, none⟩ 100 4 c.state.2) (by decide +kernel)
  have hhonoured := hall c hc
  rcases hlog : c.state.2 with _ | ⟨e, _ | ⟨e', _ | ⟨s, log⟩⟩⟩ <;> rw [hlog] at hwakes hhonoured
  · exact hwakes
  · exact hwakes
  · exact hwakes
  · obtain ⟨hstarts, hnow, hnone, hsleeps⟩ := hwakes
    obtain ⟨_, hnow', hle | ⟨_, he'', _, ht, -⟩⟩ :=
      (hhonoured [e, e'] s log rfl _ _ hsleeps).2 [] e [e'] rfl hstarts
    · cases hnow.symm.trans hnow'
      exact absurd hle (by decide)
    · cases mem_singleton.1 he''
      rw [hnone] at ht
      cases ht

end Flexiq
