import Flexiq.CompletedJobs
import Flexiq.Rows

/-!
# Tenure of a run

A running job belongs to someone at every moment: to the dispatcher that dequeued it, to the
worker it was sent to — while the scheduler's in-flight record stands — or to the handler that
took the record, or to the scheduler that rescued it. This file gives each thread a ghost value
that says which runs it **holds** and proves the invariant that ties those values to the store:
a held run is the current run of its job, and it is held once.

The invariant needs two things of the world, which the source does not check. A handler that
takes a record must take the one of the run it speaks for, and a sweep for orphans must be told
of every scheduler that is still running. Both are side conditions of the steps that need them;
`AttemptFence` turns them into the rules of a run.
-/

namespace Flexiq

open Function List

def Job.run (job : Job) : Execution := ⟨job.id, job.retryCount⟩

namespace SchedState

variable {σ : Type}

/-- The runs that were handed to workers, each with the scheduler that did. -/
def runs (st : SchedState σ) : List (σ × Execution) := st.sent.map fun p => (p.1, p.2.run)

/-- The scheduler has a record of the run. -/
abbrev Tracks (st : SchedState σ) (s : σ) (e : Execution) : Prop :=
  ((st.inFlight s).lookup e.job).map DispatchRecord.attempt = some e.attempt

/-- The run is out with a worker of the scheduler: it was sent, and its record stands. -/
abbrev Out (st : SchedState σ) (s : σ) (e : Execution) : Prop := st.Tracks s e ∧ (s, e) ∈ st.runs

end SchedState

def Db.AtRun (db : Db) (e : Execution) : Prop :=
  ∃ row, db.jobs.find e.job = some row ∧ row.status = .running ∧ row.retryCount = e.attempt

/-! ## Ghost values -/

/-- How a thread came to hold a run. -/
inductive Stage where
  /-- It dequeued the job, and has not sent it yet. -/
  | fresh
  /-- It took the record of the run. -/
  | taken
  /-- It rescued the run of a dead worker. -/
  | rescued
  deriving DecidableEq

/-- A run held by a thread of a scheduler. -/
structure Holding (σ : Type) where
  sched : σ
  run : Execution
  stage : Stage

/-- What a thread holds and knows. -/
structure Grip (σ : Type) where
  held : List (Holding σ)
  /-- Held jobs without a claim. -/
  unclaimed : List JobId
  /-- Runs whose claim names a dead worker, each with that worker. -/
  orphans : List (Execution × String)
  /-- The job the thread dead-lettered last. -/
  dead : Option JobId

namespace Grip

variable {σ : Type}

/-- A thread that holds nothing. -/
def empty : Grip σ := ⟨[], [], [], none⟩

/-- The thread dequeues jobs, which have no claim. -/
def acquire (g : Grip σ) (s : σ) (runs : List Execution) : Grip σ :=
  { g with
    held := runs.map (⟨s, ·, .fresh⟩) ++ g.held
    unclaimed := runs.map Execution.job ++ g.unclaimed }

/-- The thread takes over a run, with its claim. -/
def take (g : Grip σ) (s : σ) (e : Execution) (stage : Stage) : Grip σ :=
  { g with
    held := ⟨s, e, stage⟩ :: g.held
    unclaimed := g.unclaimed.filter (· ≠ e.job) }

/-- The thread lets go of jobs. -/
def drop (g : Grip σ) (ids : List JobId) : Grip σ :=
  { g with held := g.held.filter fun h => h.run.job ∉ ids }

def claim (g : Grip σ) (ids : List JobId) : Grip σ :=
  { g with unclaimed := g.unclaimed.filter (· ∉ ids) }

/-- The thread drops the claim of a job. -/
def unclaim (g : Grip σ) (id : JobId) : Grip σ := { g with unclaimed := id :: g.unclaimed }

def Holds (g : Grip σ) (s : σ) (id : JobId) : Prop := ∃ h ∈ g.held, h.sched = s ∧ h.run.job = id

def HoldsRun (g : Grip σ) (s : σ) (e : Execution) : Prop := ∃ h ∈ g.held, h.sched = s ∧ h.run = e

/-- The thread holds the job, dequeued and not yet sent. -/
def HoldsFresh (g : Grip σ) (s : σ) (id : JobId) : Prop :=
  ∃ h ∈ g.held, h.sched = s ∧ h.run.job = id ∧ h.stage = .fresh

/-- The first grip holds and knows no more than the second. -/
structure Le (g' g : Grip σ) : Prop where
  held : g'.held ⊆ g.held
  unclaimed : g'.unclaimed ⊆ g.unclaimed
  orphans : g'.orphans ⊆ g.orphans
  dead : ∀ j ∈ g'.dead, g.dead = some j

theorem empty_le (g : Grip σ) : Le empty g := ⟨by simp [empty], by simp [empty], by simp [empty],
  by simp [empty]⟩

theorem drop_le (g : Grip σ) (ids : List JobId) : Le (g.drop ids) g :=
  ⟨filter_subset_self _, fun _ h => h, fun _ h => h, fun _ h => h⟩

end Grip

/-! ## The invariant -/

section

variable {σ τ : Type} (cfg : σ → Scheduler)
variable {t : τ} {db' : Db} {s : σ}

/-- What holding a run means: it is current, and its claim is absent or the scheduler's. Until the
run is sent, nobody sent it, and the scheduler can see the job. -/
structure Held (st : SchedState σ) (h : Holding σ) : Prop where
  atRun : st.db.AtRun h.run
  owner : st.db.owner h.run.job = none ∨ st.db.owner h.run.job = some (cfg h.sched).claimOwner
  fresh : h.stage = .fresh → ∀ s, (s, h.run) ∉ st.runs
  visible : h.stage = .fresh → ∀ {row}, st.db.jobs.find h.run.job = some row →
    jobInNamespace row.namespace_ (cfg h.sched).namespace_ = true
  rescued : h.stage = .rescued → (h.sched, h.run) ∉ st.runs

/-- Runs are held once, and by those who may act on them. What stopped schedulers held no longer
counts. -/
structure Tenured (st : SchedState σ) (G : τ → Grip σ) : Prop where
  partition : Partition st.db
  held : ∀ t, ∀ h ∈ (G t).held, h.sched ∉ st.stopped → Held cfg st h
  unclaimed : ∀ t, ∀ h ∈ (G t).held, h.sched ∉ st.stopped → h.run.job ∈ (G t).unclaimed →
    st.db.owner h.run.job = none
  heldOnce : ∀ t t', ∀ h ∈ (G t).held, ∀ h' ∈ (G t').held, h.sched ∉ st.stopped →
    h'.sched ∉ st.stopped → h.run.job = h'.run.job → t = t' ∧ h.sched = h'.sched
  heldOut : ∀ t, ∀ h ∈ (G t).held, h.sched ∉ st.stopped → ∀ s e, s ∉ st.stopped → st.Out s e →
    e.job ≠ h.run.job
  outOnce : ∀ {s s' e e'}, s ∉ st.stopped → s' ∉ st.stopped → st.Out s e → st.Out s' e' →
    e.job = e'.job → s = s'
  out : ∀ {s e}, s ∉ st.stopped → st.Out s e → st.db.AtRun e
  /-- The claim of a sent run that is still current. -/
  sentOwner : ∀ {s e}, (s, e) ∈ st.runs → s ∉ st.stopped → st.db.AtRun e →
    st.db.owner e.job = none ∨ st.db.owner e.job = some (cfg s).claimOwner
  /-- A job is never at an attempt before one that was sent, and waits for a later one. -/
  sentPast : ∀ {s e row}, (s, e) ∈ st.runs → st.db.jobs.find e.job = some row →
    e.attempt ≤ row.retryCount ∧ (row.status = .pending → e.attempt < row.retryCount)
  /-- Only running jobs have a claim. -/
  claimed : ∀ {k w}, st.db.owner k = some w →
    ∃ row, st.db.jobs.find k = some row ∧ row.status = .running
  orphans : ∀ t, ∀ o ∈ (G t).orphans, (∀ s, s ∉ st.stopped → (cfg s).claimOwner ≠ o.2) ∧
    (st.db.owner o.1.job = some o.2 → st.db.AtRun o.1)
  dead : ∀ t, ∀ j ∈ (G t).dead, (st.db.archivedJobs.find j).isSome = true

variable {cfg} [DecidableEq τ] {st : SchedState σ} {G : τ → Grip σ}

omit [DecidableEq τ] in
/-- Before anything is dispatched nothing is held. -/
theorem Tenured.init {db : Db} (hp : Partition db) (hclaims : ∀ {k w}, db.owner k = some w →
      ∃ row, db.jobs.find k = some row ∧ row.status = .running) :
    Tenured cfg (SchedState.init db) fun _ : τ => Grip.empty where
  partition := hp
  held _ h hh := by cases hh
  unclaimed _ h hh := by cases hh
  heldOnce _ _ h hh := by cases hh
  heldOut _ h hh := by cases hh
  outOnce _ _ h := by cases h.2
  out _ h := by cases h.2
  sentOwner h := by cases h
  sentPast h := by cases h
  claimed := hclaims
  orphans _ o ho := by cases ho
  dead _ j hj := by cases hj

/-- **A thread changes its mind**: it holds no more than before, and knows what is true. -/
theorem Tenured.regrip (h : Tenured cfg st G) {g : Grip σ} (hheld : g.held ⊆ (G t).held)
    (hun : ∀ x ∈ g.held, x.sched ∉ st.stopped → x.run.job ∈ g.unclaimed →
      st.db.owner x.run.job = none)
    (horphans : ∀ o ∈ g.orphans, (∀ s, s ∉ st.stopped → (cfg s).claimOwner ≠ o.2) ∧
      (st.db.owner o.1.job = some o.2 → st.db.AtRun o.1))
    (hdead : ∀ j ∈ g.dead, (st.db.archivedJobs.find j).isSome = true) :
    Tenured cfg st (update G t g) := by
  -- what a thread holds afterwards it held before
  have hsub : ∀ u, (update G t g u).held ⊆ (G u).held := by
    intro u
    by_cases hu : u = t
    · subst hu
      rwa [update_self]
    · rw [update_of_ne hu]
      exact fun _ hx => hx
  refine { h with held := fun u x hx => h.held u x (hsub u hx), unclaimed := ?_,
                  heldOnce := fun u u' x hx x' hx' =>
                    h.heldOnce u u' x (hsub u hx) x' (hsub u' hx'),
                  heldOut := fun u x hx => h.heldOut u x (hsub u hx), orphans := ?_, dead := ?_ }
  all_goals grind [Tenured, update_apply]

/-- Letting go is always fine. -/
theorem Tenured.weaken (h : Tenured cfg st G) {g : Grip σ} (hle : g.Le (G t)) :
    Tenured cfg st (update G t g) :=
  h.regrip hle.held
    (fun x hx hxs hj => h.unclaimed t x (hle.held hx) hxs (hle.unclaimed hj))
    (fun o ho => h.orphans t o (hle.orphans ho)) (fun j hj => h.dead t j (hle.dead j hj))

/-! ## Transactions on rows -/

omit [DecidableEq τ] in
theorem Db.AtRun.shift {touched new : List JobId} {db : Db} {e : Execution} (h : db.AtRun e)
    (hs : Shift touched new db db') (hk : e.job ∉ touched) : db'.AtRun e := by
  obtain ⟨row, hrow, hrun, hcount⟩ := h
  exact ⟨row, hs.running hk hrow hrun, hrun, hcount⟩

/-- Nobody who is still running holds one of these jobs, or has it out. -/
structure Free (st : SchedState σ) (G : τ → Grip σ) (ids : List JobId) : Prop where
  held : ∀ t, ∀ h ∈ (G t).held, h.sched ∉ st.stopped → h.run.job ∉ ids
  out : ∀ {s e}, s ∉ st.stopped → st.Out s e → e.job ∉ ids

/-- What the thread that holds some jobs lets go of is free. -/
theorem Tenured.free_drop (h : Tenured cfg st G) {ids : List JobId}
    (hheld : ∀ k ∈ ids, ∃ x ∈ (G t).held, x.sched ∉ st.stopped ∧ x.run.job = k) :
    Free st (update G t ((G t).drop ids)) ids := by
  constructor <;> grind [Tenured, update_apply, Grip.drop]

omit [DecidableEq τ] in
/-- **A transaction on free jobs.** Outside them every run is kept; the jobs it touches lose their
claim and wait for an attempt that was not sent yet. -/
theorem Tenured.shift (h : Tenured cfg st G) {touched new : List JobId}
    (hs : Shift touched new st.db db') (hp : Partition db')
    (harch : ∀ j, (st.db.archivedJobs.find j).isSome = true →
      (db'.archivedJobs.find j).isSome = true)
    (hnew : ∀ k ∈ new, ∀ p ∈ st.runs, p.2.job ≠ k) (hfree : Free st G touched)
    (howner : ∀ k ∈ touched, db'.owner k = none)
    (hpast : ∀ k ∈ touched, ∀ row', db'.jobs.find k = some row' → ∀ p ∈ st.runs, p.2.job = k →
      p.2.attempt < row'.retryCount) :
    Tenured cfg { st with db := db' } G := by
  -- a claim afterwards is one from before
  have hkeep : ∀ {k w}, db'.owner k = some w → k ∉ touched ∧ st.db.owner k = some w := by
    intro k w _
    have := hs.owner k
    grind
  have hown : ∀ {k : JobId} {w : String}, (st.db.owner k = none ∨ st.db.owner k = some w) →
      db'.owner k = none ∨ db'.owner k = some w := by
    intro k _ hk
    have := hs.owner k
    grind
  refine { partition := hp, held := ?_, unclaimed := ?_, heldOnce := h.heldOnce,
           heldOut := h.heldOut, outOnce := h.outOnce,
           out := fun hse hout => (h.out hse hout).shift hs (hfree.out hse hout), sentOwner := ?_,
           sentPast := ?_, claimed := ?_, orphans := ?_, dead := fun t j hj =>
             harch j (h.dead t j hj) }
  · intro t x hx hxs
    have hx' := h.held t x hx hxs
    have hk := hfree.held t x hx hxs
    refine ⟨hx'.atRun.shift hs hk, hown hx'.owner, hx'.fresh, fun hf {row} hrow => ?_, hx'.rescued⟩
    obtain ⟨row', hrow', hrun, -⟩ := hx'.atRun
    cases (hs.running hk hrow' hrun).symm.trans hrow
    exact hx'.visible hf hrow'
  all_goals have howner' := hs.owner
  all_goals have hrunning := @hs.running
  all_goals have horigin := @hs.origin
  all_goals grind [Tenured, Free, Db.AtRun, SchedState.runs, Job.SameRun]

/-! ## Gaining a run -/

/-- **A thread gains runs** that are current and that nobody else holds. -/
theorem Tenured.gain (h : Tenured cfg st G) {X : List (Holding σ)} {unclaimed : List JobId}
    (hsched : ∀ x ∈ X, x.sched = s) (hheld : ∀ x ∈ X, Held cfg st x)
    (hfree : Free st G (X.map fun x => x.run.job))
    (hun : ∀ x ∈ X ++ (G t).held, x.sched ∉ st.stopped → x.run.job ∈ unclaimed →
      st.db.owner x.run.job = none) :
    Tenured cfg st (update G t { G t with held := X ++ (G t).held, unclaimed }) := by
  -- what a thread holds afterwards is new to `t`, or was held before
  have hcase : ∀ u, ∀ x ∈ (update G t
      { G t with held := X ++ (G t).held, unclaimed } u).held, u = t ∧ x ∈ X ∨ x ∈ (G u).held := by
    grind [update_apply]
  have hfresh : ∀ u, ∀ y ∈ (G u).held, y.sched ∉ st.stopped → ∀ x ∈ X, x.run.job ≠ y.run.job := by
    intro u y hy hys _ hx heq
    exact hfree.held u y hy hys (heq ▸ mem_map_of_mem hx)
  refine { h with held := ?_, unclaimed := ?_, heldOnce := ?_, heldOut := ?_, orphans := ?_,
                  dead := ?_ }
  all_goals grind [Tenured, Free, update_apply]

/-! ## Claims -/

omit [DecidableEq τ] in
/-- **A scheduler writes claims** of running jobs that are its own, or nobody's. -/
theorem Tenured.claims (h : Tenured cfg st G) (hstop : s ∉ st.stopped) {ids : List JobId}
    {previous : Option String} (hc : Claims ids previous (cfg s).claimOwner st.db db')
    (hrun : ∀ k ∈ ids, st.db.owner k = previous → ∃ row, st.db.jobs.find k = some row ∧
      row.status = .running)
    (hheld : ∀ t, ∀ x ∈ (G t).held, x.sched ∉ st.stopped → x.run.job ∈ ids →
      st.db.owner x.run.job = previous → x.sched = s ∧ x.run.job ∉ (G t).unclaimed)
    (hsent : ∀ p ∈ st.runs, p.1 ∉ st.stopped → p.2.job ∈ ids → st.db.owner p.2.job = previous →
      ¬ st.db.AtRun p.2) :
    Tenured cfg { st with db := db' } G := by
  have hjobs : db'.jobs = st.db.jobs := by rw [hc.rest]
  have hat : ∀ {e}, db'.AtRun e ↔ st.db.AtRun e := by
    intro _
    rw [Db.AtRun, hjobs, Db.AtRun]
  have harch : db'.archivedJobs = st.db.archivedJobs := by rw [hc.rest]
  refine { partition := h.partition.of_eq hjobs harch (by rw [hc.rest]), held := ?_,
           unclaimed := ?_, heldOnce := h.heldOnce, heldOut := h.heldOut, outOnce := h.outOnce,
           out := fun hs hout => hat.2 (h.out hs hout), sentOwner := ?_,
           sentPast := fun hse hrow => h.sentPast hse (hjobs ▸ hrow), claimed := ?_,
           orphans := ?_, dead := fun t j hj => harch ▸ h.dead t j hj }
  · intro t x hx hxs
    have hx' := h.held t x hx hxs
    refine ⟨hat.2 hx'.atRun, ?_, hx'.fresh, fun hf {row} hrow => ?_, hx'.rescued⟩
    rotate_left
    · exact hx'.visible hf (hjobs ▸ hrow)
    obtain hsame | ⟨hk, hprev, hnew⟩ := hc.owner x.run.job
    · rw [hsame]
      exact hx'.owner
    · rw [(hheld t x hx hxs hk hprev).1]
      exact .inr hnew
  all_goals have howner := hc.owner
  all_goals grind [Tenured, SchedState.runs]

/-! ## In-flight records and sending -/

omit [DecidableEq τ] in
/-- A change to the records after which no further run is out. -/
theorem Tenured.records (h : Tenured cfg st G)
    {inFlight : σ → InFlight} (hsub : ∀ s e, { st with inFlight }.Out s e → st.Out s e) :
    Tenured cfg { st with inFlight } G where
  partition := h.partition
  held t x hx hxs :=
    have hx' := h.held t x hx hxs
    ⟨hx'.atRun, hx'.owner, hx'.fresh, hx'.visible, hx'.rescued⟩
  unclaimed := h.unclaimed
  heldOnce := h.heldOnce
  heldOut t x hx hxs s e hs hout := h.heldOut t x hx hxs s e hs (hsub s e hout)
  outOnce hs hs' hout hout' := h.outOnce hs hs' (hsub _ _ hout) (hsub _ _ hout')
  out hs hout := h.out hs (hsub _ _ hout)
  sentOwner := h.sentOwner
  sentPast := h.sentPast
  claimed := h.claimed
  orphans := h.orphans
  dead := h.dead

omit [DecidableEq τ] in
/-- **A run is sent** by the scheduler that holds it, which lets go of it. -/
theorem Tenured.send (h : Tenured cfg st G) {job : Job} (hfree : Free st G [job.id])
    (hat : st.db.AtRun job.run)
    (howner : st.db.owner job.id = none ∨ st.db.owner job.id = some (cfg s).claimOwner) :
    Tenured cfg { st with sent := (s, job) :: st.sent } G := by
  -- a run is out afterwards if it was before, or if it is the one just sent
  have hcase : ∀ {s' e}, ({ st with sent := (s, job) :: st.sent } : SchedState σ).Out s' e →
      st.Out s' e ∨ s' = s ∧ e = job.run := by
    rintro s' e ⟨htrack, hmem⟩
    obtain heq | hmem := mem_cons.1 hmem
    · exact .inr ⟨congrArg Prod.fst heq, congrArg Prod.snd heq⟩
    · exact .inl ⟨htrack, hmem⟩
  have hnot : ∀ {s' : σ} {e}, e.job ≠ job.id → (s', e) ∉ st.runs →
      (s', e) ∉ ({ st with sent := (s, job) :: st.sent } : SchedState σ).runs := by
    intro s' _ hne hmem hmem'
    obtain heq | hmem' := mem_cons.1 hmem'
    · exact hne (congrArg (fun p => p.2.job) heq)
    · exact hmem hmem'
  refine { h with held := ?_, heldOut := ?_, outOnce := ?_, out := ?_, sentOwner := ?_,
                  sentPast := ?_ }
  · intro t x hx hxs
    have hx' := h.held t x hx hxs
    have hne : x.run.job ≠ job.id := fun heq => hfree.held t x hx hxs (by simp [heq])
    exact ⟨hx'.atRun, hx'.owner, fun hf s' => hnot hne (hx'.fresh hf s'), hx'.visible,
      fun hr => hnot hne (hx'.rescued hr)⟩
  all_goals grind [Tenured, Free, SchedState.runs, Db.AtRun, Job.run]

omit [DecidableEq τ] in
/-- A scheduler stops: what it held no longer counts. -/
theorem Tenured.stop (h : Tenured cfg st G) (s : σ) :
    Tenured cfg { st with stopped := s :: st.stopped } G := by
  have hrun : ∀ {s' : σ}, s' ∉ s :: st.stopped → s' ∉ st.stopped :=
    fun hs' hmem => hs' (mem_cons_of_mem _ hmem)
  exact {
    partition := h.partition
    held t x hx hxs :=
      have hx' := h.held t x hx (hrun hxs)
      ⟨hx'.atRun, hx'.owner, hx'.fresh, hx'.visible, hx'.rescued⟩
    unclaimed t x hx hxs := h.unclaimed t x hx (hrun hxs)
    heldOnce t t' x hx x' hx' hxs hxs' := h.heldOnce t t' x hx x' hx' (hrun hxs) (hrun hxs')
    heldOut t x hx hxs s e hs := h.heldOut t x hx (hrun hxs) s e (hrun hs)
    outOnce hs hs' := h.outOnce (hrun hs) (hrun hs')
    out hs := h.out (hrun hs)
    sentOwner hse hs := h.sentOwner hse (hrun hs)
    sentPast := h.sentPast
    claimed := h.claimed
    orphans t o ho := ⟨fun s hs => (h.orphans t o ho).1 s (hrun hs), (h.orphans t o ho).2⟩
    dead := h.dead }

end

end Flexiq
