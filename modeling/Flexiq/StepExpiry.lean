import Flexiq.RedisRuns
import Flexiq.Sequential

/-!
# How long Redis keeps a job's steps

A step hash expires seven days after its last write, or after the latest sleep deadline in it if
that is later. The expiry is meant as a backstop for the crash between a terminal write and the
`DEL` of the steps. But only step writes set it: nothing that keeps the job alive — a retry, a
reschedule, a requeue, the next attempt — pushes it out, and a retransmitted step does not either.
A job that stays live for longer loses its steps, and its next attempt runs them again
(`live_steps_expire`).

As long as every live job with committed steps sees a step write, or its end, before that time is
over, each committed step is read back (`redis_steps_kept`). The invariant is that the hash of a job
is exactly the record of its committed steps, and that it expires exactly seven days after the
later of the last write and the latest deadline.
-/

namespace Flexiq.Redis

open Function List Option

variable {id : JobId} {now : Int} {h : StepHash} {step : JobStep} {st : Store}

variable {home : JobId → Origin}

/-- The latest sleep deadline among the steps, `0` when there is none. -/
def latestWake (steps : List JobStep) : Int := (steps.filterMap (·.wakeAt)).foldr max 0

def Core.stepsOf (id : JobId) (s : Core) : List JobStep := s.committed.filter (·.jobId = id)

/-- How long the committed steps of a job are kept: seven days after their last write or, if that
is later, after their latest deadline. -/
def Core.keptUntil (id : JobId) (s : Core) : Int :=
  max (s.touched id) (latestWake (s.stepsOf id)) + ttlGraceMs

/-! ## The hash mirrors the record -/

/-- The hash holds the committed steps of a job, each at its position. -/
structure Mirrors (home : JobId → Origin) (s : Core) (id : JobId) (h : StepHash) : Prop where
  rows : h.rows.map (fun row => decodeStep id row.1 row.2) = s.stepsOf id
  wake : h.wake = latestWake (s.stepsOf id)
  ns : ∀ ns, h.ns = some ns → ns = (home id).namespace_.getD ""

/-- The stored hash of a job mirrors its committed steps, and it has not expired. -/
structure Stored (home : JobId → Origin) (s : Core) (id : JobId) (e : Expiring StepHash) :
    Prop where
  mirrors : Mirrors home s id e.value
  rows_ne : e.value.rows ≠ []
  ns : e.value.ns = some ((home id).namespace_.getD "")
  expireAt : e.expireAt = s.keptUntil id
  alive : s.clock ≤ e.expireAt

/-- Every job's committed steps are stored. -/
def Kept (home : JobId → Origin) (s : Core) : Prop :=
  ∀ id, (s.steps id = none ∧ s.stepsOf id = []) ∨ ∃ e, s.steps id = some e ∧ Stored home s id e

section Changes

variable {s s' : Core}

theorem latestWake_cons (step : JobStep) (steps : List JobStep) :
    latestWake (step :: steps) = max (latestWake steps) (step.wakeAt.getD (latestWake steps)) := by
  rcases hwake : step.wakeAt with _ | _
  · simp [latestWake, hwake]
  · simp [latestWake, hwake, max_comm]

theorem Stored.stepHash {e : Expiring StepHash} (h : Stored home s id e)
    (he : s.steps id = some e) : s.stepHash id = e.value := by
  simp [Core.stepHash, he, Expiring.read, h.alive]

/-- What is read mirrors the record, whether there is a hash or not. -/
theorem Kept.mirrors (h : Kept home s) (id : JobId) : Mirrors home s id (s.stepHash id) := by
  obtain ⟨hnone, hsteps⟩ | ⟨e, he, hstored⟩ := h id
  · have hempty : s.stepHash id = .empty := by simp [Core.stepHash, hnone, Expiring.read]
    rw [hempty]
    refine ⟨?_, ?_, fun ns hns => ?_⟩
    · rw [hsteps]
      rfl
    · rw [hsteps]
      rfl
    · cases hns
  · rw [hstored.stepHash he]
    exact hstored.mirrors

/-- The jobs whose record, hash and last write stay as they are. -/
theorem Kept.of_unchanged (h : Kept home s) (hclock : s'.clock = s.clock)
    (hsteps : s'.steps id = s.steps id) (hof : s'.stepsOf id = s.stepsOf id)
    (htouched : s'.touched id = s.touched id) :
    (s'.steps id = none ∧ s'.stepsOf id = []) ∨
      ∃ e, s'.steps id = some e ∧ Stored home s' id e := by
  have huntil : s'.keptUntil id = s.keptUntil id := by
    rw [Core.keptUntil, Core.keptUntil, hof, htouched]
  rw [hsteps, hof]
  refine (h id).imp_right fun ⟨e, he, hs⟩ => ⟨e, he, ?_⟩
  refine ⟨⟨?_, ?_, hs.mirrors.ns⟩, hs.rows_ne, hs.ns, ?_, ?_⟩
  · rw [hof]
    exact hs.mirrors.rows
  · rw [hof]
    exact hs.mirrors.wake
  · rw [huntil]
    exact hs.expireAt
  · rw [hclock]
    exact hs.alive

theorem stepsOf_dropSteps_self (id : JobId) (s : Core) : (s.dropSteps id).stepsOf id = [] := by
  simp only [Core.stepsOf, Core.dropSteps, List.filter_filter, List.filter_eq_nil_iff]
  intro _ _
  simp

theorem stepsOf_dropSteps_ne {other : JobId} (hne : id ≠ other) (s : Core) :
    (s.dropSteps other).stepsOf id = s.stepsOf id := by
  simp only [Core.stepsOf, Core.dropSteps, List.filter_filter]
  refine List.filter_congr fun step _ => ?_
  by_cases hid : step.jobId = id
  · simp [hid, hne]
  · simp [hid]

theorem Kept.dropSteps (h : Kept home s) (id : JobId) : Kept home (s.dropSteps id) := by
  intro other
  by_cases hid : other = id
  · subst hid
    exact .inl ⟨update_self .., stepsOf_dropSteps_self _ s⟩
  · exact h.of_unchanged rfl (update_of_ne hid ..) (stepsOf_dropSteps_ne hid s) rfl

/-- A hash that was saved lives for seven days more. -/
theorem Core.steps_saveSteps (hnow : s.clock < now + ttlGraceMs) :
    (s.saveSteps id now h).steps id = some ⟨h, max now h.wake + ttlGraceMs⟩ := by
  simp only [Core.saveSteps, update_self, Expiring.write]
  rw [if_neg (by omega)]

/-- Saving a hash that mirrors the record stores it. -/
theorem stored_of_saved (hclock : s'.clock = s.clock) (hmirrors : Mirrors home s' id h)
    (hrows : h.rows ≠ []) (hns : h.ns = some ((home id).namespace_.getD ""))
    (htouched : s'.touched id = now) (hnow : s.clock < now + ttlGraceMs) :
    Stored home s' id ⟨h, max now h.wake + ttlGraceMs⟩ := by
  refine ⟨hmirrors, hrows, hns, ?_, ?_⟩
  · rw [Core.keptUntil, htouched, hmirrors.wake]
  · rw [hclock]
    show s.clock ≤ max now h.wake + ttlGraceMs
    omega

/-- A sleep on a row that is there pushes the expiry out. -/
theorem Kept.touch (h : Kept home s) (hnow : s.clock < now + ttlGraceMs)
    (hrows : (s.stepHash id).rows ≠ []) : Kept home (s.saveSteps id now (s.stepHash id)) := by
  intro other
  by_cases hid : other = id
  · subst hid
    refine .inr ⟨_, Core.steps_saveSteps hnow, ?_⟩
    have hold := h.mirrors other
    refine stored_of_saved (s := s) rfl ⟨hold.rows, hold.wake, hold.ns⟩ hrows ?_
      (update_self ..) hnow
    obtain ⟨hnone, -⟩ | ⟨e, he, hstored⟩ := h other
    · exact absurd (by simp [Core.stepHash, hnone, Expiring.read, StepHash.empty]) hrows
    · rw [hstored.stepHash he]
      exact hstored.ns
  · exact h.of_unchanged rfl (update_of_ne hid ..) rfl (update_of_ne hid ..)

/-- A commit adds the step to the hash and to the record. -/
theorem Kept.commit (h : Kept home s) (hdocs : Docs home s) {job : Job} {h' : StepHash}
    (hnow : s.clock < now + ttlGraceMs) (hjob : s.jobs step.jobId = some job)
    (hext : Core.Extends (job.namespace_.getD "") step (s.stepHash step.jobId) h') :
    Kept home { s.saveSteps step.jobId now h' with committed := step :: s.committed } := by
  intro other
  by_cases hid : other = step.jobId
  · subst hid
    have hold := h.mirrors step.jobId
    obtain ⟨row, hrow, hstep⟩ := hext.rows
    obtain ⟨hid, hknown⟩ := hdocs.live _ _ hjob
    have hhome : (home step.jobId).namespace_ = job.namespace_ := by
      rw [← hid, ← hknown]
      rfl
    have hof : Core.stepsOf step.jobId
        { s.saveSteps step.jobId now h' with committed := step :: s.committed } =
        step :: s.stepsOf step.jobId := by
      simp [Core.stepsOf]
    have hns : h'.ns = some ((home step.jobId).namespace_.getD "") := by
      rw [hext.ns, hhome]
      rcases hread : (s.stepHash step.jobId).ns with _ | ns
      · rfl
      · rw [hold.ns ns hread, hhome]
        rfl
    refine .inr ⟨_, Core.steps_saveSteps hnow, ?_⟩
    refine stored_of_saved (s := s) rfl ⟨?_, ?_, fun ns h => ?_⟩ ?_ hns (update_self ..) hnow
    · rw [hof, hrow, map_cons, ← hstep, hold.rows]
    · rw [hof, latestWake_cons, hext.wake, hold.wake]
    · rw [hns] at h
      exact (some.inj h).symm
    · rw [hrow]
      exact cons_ne_nil _ _
  · refine h.of_unchanged rfl (update_of_ne hid ..) ?_ (update_of_ne hid ..)
    simp [Core.stepsOf, Ne.symm hid]

/-- **A change keeps every step.** -/
theorem Kept.change {clock : Int} (h : Kept home s) (hdocs : Docs home s) (hclock : s.clock = clock)
    (hc : Core.Change home (fun now => clock < now + ttlGraceMs) s s') :
    Kept home s' ∧ s'.clock = clock := by
  subst hclock
  cases hc with
  | drew | wrote => exact ⟨fun id => h.of_unchanged rfl rfl rfl rfl, rfl⟩
  | archived job => exact ⟨fun id => (h.dropSteps job.id).of_unchanged rfl rfl rfl rfl, rfl⟩
  | deleted id => exact ⟨h.dropSteps id, rfl⟩
  | touched id now hnow hrows => exact ⟨h.touch hnow hrows, rfl⟩
  | committed job now step h' hnow hjob hext => exact ⟨h.commit hdocs hnow hjob hext, rfl⟩

theorem Kept.changes {clock : Int} (h : Kept home s) (hdocs : Docs home s)
    (hclock : s.clock = clock)
    (hc : Relation.ReflTransGen (Core.Change home fun now => clock < now + ttlGraceMs) s s') :
    Kept home s' := by
  suffices h : Docs home s' ∧ Kept home s' ∧ s'.clock = clock from h.2.1
  induction hc with
  | refl => exact ⟨hdocs, h, hclock⟩
  | tail _ hstep ih => exact ⟨ih.1.change hstep, ih.2.1.change ih.1 ih.2.2 hstep⟩

end Changes

/-! ## Runs -/

/-- The command comes in time: no job's committed steps are older than they are kept, and a step
write arrives within seven days of the moment its client read the clock. -/
abbrev InTime (st : Store) (c : Command) (env : RedisEnv) : Prop :=
  (∀ step ∈ st.committed, st.clock + env.elapsed ≤ st.core.keptUntil step.jobId) ∧
  ∀ a ∈ c.attempt, st.clock + env.elapsed < a.now + ttlGraceMs

/-- Every run: ids are drawn once. -/
abbrev anyRedisRun (τ : Type) : Rules redisMachine redisClients τ where
  mayStart _ _ _ := True
  mayStep st _ c env := c.DrawsFresh st env

/-- The runs in which every command comes in time. -/
abbrev timelyRun (τ : Type) : Rules redisMachine redisClients τ where
  mayStart _ _ _ := True
  mayStep st _ c env := c.DrawsFresh st env ∧ InTime st c env

theorem Kept.wait (h : Kept home st.core) {elapsed : Nat}
    (htime : ∀ step ∈ st.committed, st.clock + elapsed ≤ st.core.keptUntil step.jobId) :
    Kept home (st.wait elapsed).core := by
  intro id
  refine (h id).imp_right fun ⟨e, he, hs⟩ => ⟨e, he, ?_⟩
  refine ⟨⟨hs.mirrors.rows, hs.mirrors.wake, hs.mirrors.ns⟩, hs.rows_ne, hs.ns, hs.expireAt, ?_⟩
  -- the hash has a row, so the record has a step of this job
  have hne : st.core.stepsOf id ≠ [] := by
    rw [← hs.mirrors.rows]
    simpa using hs.rows_ne
  obtain ⟨step, hstep⟩ := exists_mem_of_ne_nil _ hne
  obtain ⟨hmem, hid⟩ := mem_filter.1 hstep
  have hid : step.jobId = id := of_decide_eq_true hid
  have hle := htime step hmem
  rw [hid] at hle
  rw [hs.expireAt]
  exact hle

theorem Kept.exec {c : Command} {env : RedisEnv} (h : Kept home st.core)
    (hdocs : Docs home st.core) (hc : c.Proper home) (hdraw : c.FromHome home env)
    (htime : InTime st c env) : Kept home (redisMachine.exec c env st).2.core :=
  (h.wait htime.1).changes (hdocs.wait env.elapsed) rfl
    (Command.changes hc hdraw fun a ha => htime.2 a ha)

/-! ## Reading -/

/-- A read at once: no time passes. -/
abbrev AtOnce (_ : Store) (_ : Command) (env : RedisEnv) : Prop := env.elapsed = 0

theorem mem_steps : step ∈ h.steps id ↔ step ∈ h.rows.map fun row => decodeStep id row.1 row.2 :=
  mem_insertionSort _

/-- `get_job_steps` returns every committed step to a caller who may see the job. -/
theorem Kept.getJobSteps (h : Kept home st.core) (hdocs : Docs home st.core)
    (hstep : step ∈ st.committed) {namespace_ : Option String}
    (hns : namespace_ = none ∨ ∃ job, st.jobs step.jobId = some job ∧ job.namespace_ = namespace_) :
    Prog.Ensures (M := redisMachine) AtOnce (getJobSteps step.jobId namespace_).run st
      fun _ r => ∃ steps, r = .ok steps ∧ step ∈ steps := by
  have hof : step ∈ st.core.stepsOf step.jobId := mem_filter.2 ⟨hstep, by simp⟩
  obtain ⟨-, hnil⟩ | ⟨e, he, hs⟩ := h step.jobId
  · rw [hnil] at hof
    cases hof
  · intro env henv
    have hread : Expiring.read (Store.wait env.elapsed st).clock
        ((Store.wait env.elapsed st).steps step.jobId) = some e.value := by
      have hclock : (Store.wait env.elapsed st).clock = st.clock := by
        rw [Store.wait, henv]
        exact Int.add_zero _
      have he : (Store.wait env.elapsed st).steps step.jobId = some e := he
      rw [hclock, he]
      exact if_pos hs.alive
    have hmem : step ∈ e.value.stepsIn step.jobId namespace_ := by
      have hsteps : step ∈ e.value.steps step.jobId := mem_steps.2 (hs.mirrors.rows ▸ hof)
      obtain rfl | ⟨job, hjob, rfl⟩ := hns
      · exact hsteps
      · obtain ⟨hid, hknown⟩ := hdocs.live _ _ hjob
        unfold StepHash.stepsIn
        split
        · exact hsteps
        · next scope hscope =>
          have hhome : (home step.jobId).namespace_ = some scope := by
            rw [← hscope, ← hid, ← hknown]
            rfl
          rw [if_neg (by simp [hs.ns, hhome])]
          exact hsteps
    simp only [Command.act, hread]
    exact ⟨_, rfl, hmem⟩

/-- **Redis keeps a live job's steps** in every run whose commands all come in time: a step that was
committed, by a job that was not archived and whose steps were not deleted since, is among the
steps that `get_job_steps` returns, to an unscoped caller and to one in the job's namespace. -/
theorem redis_steps_kept {τ : Type} [DecidableEq τ] (clock : Int) (c : Pool redisMachine τ)
    (h : Pool.Reaches (timelyRun τ) (Pool.idle (Store.empty clock)) c) (step : JobStep)
    (hstep : step ∈ c.state.committed) (namespace_ : Option String) (hns : namespace_ = none ∨
      ∃ job, c.state.jobs step.jobId = some job ∧ job.namespace_ = namespace_) :
    Prog.Ensures (M := redisMachine) AtOnce (getJobSteps step.jobId namespace_).run c.state
      fun _ r => ∃ steps, r = .ok steps ∧ step ∈ steps := by
  obtain ⟨home, hrun⟩ := exists_home (R := timelyRun τ) (fun _ _ _ _ hr => hr.1) rfl h
  obtain ⟨hdocs, hkept⟩ := redis_invariant (R := timelyRun τ) (P := fun st => Kept home st.core)
    (fun st t c env hdocs hkept hc hr hdraw => hkept.exec hdocs hc hdraw hr.2) (.empty clock)
    (fun id => .inl ⟨rfl, rfl⟩) hrun
  exact hkept.getJobSteps hdocs hstep hns

section Examples

open Pool

/-- Nothing but the given time passes; the only job is the first in every scan. -/
def afterMs (elapsed : Nat) : RedisEnv := ⟨elapsed, "job", ["job"], []⟩

/-- Make a call, and let `n` commands of it run at once. -/
def callAtOnce (call : RedisCall) (n : Nat) : List (Move redisMachine redisClients Unit) :=
  .start () call :: List.replicate n (.step () (afterMs 0))

def greetJob : NewJob := NewJob.plain "default" "greet"

def chargeStep : NewJobStep := ⟨"job", 0, "charge", .run, some [1]⟩

/-- The limits of the source's own tests. -/
def plainLimits : StepLimits := ⟨1024, 4096, 10⟩

def commitFirstStep : List (Move redisMachine redisClients Unit) :=
  callAtOnce (.enqueue greetJob) 5 ++ callAtOnce (.dequeue "default" 0 none) 3 ++
    callAtOnce (.claimExecution "job" "worker") 3 ++
    callAtOnce (.recordStepResult chargeStep "worker" 0 plainLimits none) 2

/-- The attempt fails and is retried; the retry waits eight days for a worker. -/
def retryAfterEightDays : List (Move redisMachine redisClients Unit) :=
  callAtOnce (.retry "job" 1000 none) 2 ++
    [.start () (.dequeue "default" 691200000 none), .step () (afterMs 691200000)] ++
    List.replicate 2 (.step () (afterMs 0)) ++ callAtOnce (.claimExecution "job" "worker") 3

/-- **Steps of a live job expire.** A job commits a step; its attempt fails and is retried, and the
retry waits eight days for a worker. The job is live and its second attempt is running, but
`get_job_steps` returns nothing, so the committed step runs again. -/
theorem live_steps_expire :
    ∃ c : Pool redisMachine Unit, Reaches (anyRedisRun Unit) (idle (Store.empty 0)) c ∧
      (∃ step ∈ c.state.committed, step.jobId = "job" ∧ step.stepKey = "charge") ∧
      (∃ job, c.state.jobs "job" = some job ∧ job.status = .running ∧ job.retryCount = 1) ∧
      ∃ st', (getJobSteps "job" none).run.Returns redisMachine AtOnce c.state (.ok []) st' := by
  obtain ⟨c, hc, hstep, hjob, hread⟩ := exists_reaches (anyRedisRun Unit) (idle (.empty 0))
    (commitFirstStep ++ retryAfterEightDays)
    (fun c => (∃ step ∈ c.state.committed, step.jobId = "job" ∧ step.stepKey = "charge") ∧
      (c.state.jobs "job").any (fun job => job.status = .running ∧ job.retryCount = 1) = true ∧
      ((getJobSteps "job" none).run.runAlone (M := redisMachine) AtOnce c.state [afterMs 0]).any
        (fun r => (r.1.toOption : Option (List JobStep)) = some []) = true)
    (by decide +kernel)
  obtain ⟨job, hfound, hjob⟩ := (any_eq_true _ _).1 hjob
  obtain ⟨⟨r, st'⟩, hrun, hr⟩ := (any_eq_true _ _).1 hread
  refine ⟨c, hc, hstep, ⟨job, hfound, of_decide_eq_true hjob⟩, st', ?_⟩
  have hok : r = .ok [] := by
    rcases r with _ | _
    · cases of_decide_eq_true hr
    · cases of_decide_eq_true hr
      rfl
  subst hok
  exact Prog.returns_of_runAlone hrun

/-- A step that was just committed is read back, by an unscoped caller. -/
theorem redis_steps_kept_first :
    ∃ (c : Pool redisMachine Unit) (step : JobStep),
      Reaches (timelyRun Unit) (idle (Store.empty 0)) c ∧ step ∈ c.state.committed ∧
      Prog.Ensures (M := redisMachine) AtOnce (getJobSteps step.jobId none).run c.state
        fun _ r => ∃ steps, r = .ok steps ∧ step ∈ steps := by
  obtain ⟨c, hc, step, hstep, -⟩ := exists_reaches (timelyRun Unit) (idle (.empty 0))
    commitFirstStep (fun c => ∃ step ∈ c.state.committed, step.stepKey = "charge")
    (by decide +kernel)
  exact ⟨c, step, hc, hstep, redis_steps_kept 0 c hc step hstep none (.inl rfl)⟩

end Examples

end Flexiq.Redis
