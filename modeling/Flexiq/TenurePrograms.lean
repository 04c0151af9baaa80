import Flexiq.TenureDiscipline

/-!
# The schedulers keep to the discipline

Every program of a scheduler only acts on runs it holds. A handler holds the run whose record it
took, for as long as it has not settled it; a dispatcher holds what it dequeued until it sends it
or gives it back; a rescue holds what it reclaimed.

A program that deals with one job leaves what else the thread holds alone, which is what lets a
batch be handled job by job (`Grip.Frame`).
-/

namespace Flexiq

open Prog List Sched

variable {why : Cause} {op : StoreOp} {r : JobResult} {e : Execution}

section

variable {σ α β : Type} {cfg : σ → Scheduler} {codec : MetadataCodec}

/-- What a thread holds of other jobs than `ids` it still holds, and what it knows of orphans it
still knows. -/
structure Grip.Frame (ids : List JobId) (g g' : Grip σ) : Prop where
  held : ∀ h ∈ g.held, h.run.job ∉ ids → h ∈ g'.held
  unclaimed : ∀ j ∈ g.unclaimed, j ∉ ids → j ∈ g'.unclaimed
  orphans : g'.orphans = g.orphans

namespace Grip.Frame

variable {ids ids' : List JobId} {g g' g'' : Grip σ}

theorem refl (ids : List JobId) (g : Grip σ) : Frame ids g g :=
  ⟨fun _ h _ => h, fun _ h _ => h, rfl⟩

theorem trans (h : Frame ids g g') (h' : Frame ids g' g'') : Frame ids g g'' :=
  ⟨fun x hx hk => h'.held x (h.held x hx hk) hk,
    fun j hj hk => h'.unclaimed j (h.unclaimed j hj hk) hk, h'.orphans.trans h.orphans⟩

theorem drop (g : Grip σ) (ids : List JobId) : Frame ids g (g.drop ids) :=
  ⟨fun _ hx hk => mem_filter.2 ⟨hx, decide_eq_true hk⟩, fun _ h _ => h, rfl⟩

theorem claim (g : Grip σ) (ids : List JobId) : Frame ids g (g.claim ids) :=
  ⟨fun _ h _ => h, fun _ hj hk => mem_filter.2 ⟨hj, decide_eq_true hk⟩, rfl⟩

theorem unclaim (ids : List JobId) (g : Grip σ) (id : JobId) : Frame ids g (g.unclaim id) :=
  ⟨fun _ h _ => h, fun _ hj _ => mem_cons_of_mem _ hj, rfl⟩

theorem take (g : Grip σ) (s : σ) (e : Execution) (stage : Stage) :
    Frame [e.job] g (g.take s e stage) :=
  ⟨fun _ h _ => mem_cons_of_mem _ h,
    fun _ hj hk => mem_filter.2 ⟨hj, decide_eq_true fun heq => hk (mem_singleton.2 heq)⟩,
    rfl⟩

end Grip.Frame

/-! ## Rules -/

/-- Side operations leave what the thread holds as it is. -/
theorem side_idle (g : Grip σ) (op : SchedOp σ) (hop : op.isSide = true) :
    (tenureDiscipline cfg).Leads g op (· = g) := by
  cases op with
  | store s why op =>
    have hgentle : op.gentle = true ∧ g.permitsStore cfg s why op := by
      cases op <;> first | exact ⟨rfl, rfl, .inr rfl⟩ | cases hop
    refine ⟨hgentle.2, fun r => ?_⟩
    rcases r with _ | _
    · rfl
    · cases op <;> first | rfl | cases hop
  | client => cases hop
  | _ => first | exact ⟨trivial, fun _ => rfl⟩ | cases hop

instance : (tenureDiscipline cfg).Steady where
  quiet g op hop := side_idle g op (SchedOp.isSide_of_isQuiet hop)

variable {g : Grip σ} {s : σ} {id : JobId} {job : Job}

theorem Follows.side {p : SchedProg σ α} (h : SideOnly p) {f : α → SchedProg σ β}
    {Q : Grip σ → β → Prop} (hf : ∀ a, (f a).Follows (tenureDiscipline cfg) g Q) :
    (p >>= f).Follows (tenureDiscipline cfg) g Q :=
  .bind ((h.follows (side_idle g)).mono fun _ a hg => hg ▸ hf a)

/-! ## Dead letters -/

/-- The thread holds the job, and every run it acts for is a run of that job it holds. -/
structure Grip.Handles (g : Grip σ) (s : σ) (why : Cause) (id : JobId) : Prop where
  holds : g.Holds s id
  runs : ∀ e ∈ why.executions, e.job = id ∧ g.HoldsRun s e

/-- Dropping the claim of a job the scheduler can see, if it holds the job unsent. -/
theorem follows_unclaim (s : σ) (why : Cause) (id : JobId) (g : Grip σ) :
    (storage s why (Ops.completeExecution id (cfg s).namespace_)).Follows (tenureDiscipline cfg) g
      fun g' r => (g' = g ∨ g' = g.unclaim id) ∧
        (r.isSome = true → g.HoldsFresh s id → id ∈ g'.unclaimed) := by
  have hdelete : (storage s why (txn (.deleteClaim id))).Follows (tenureDiscipline cfg) g
      fun g' r => (g' = g ∨ g' = g.unclaim id) ∧
        (r.isSome = true → g.HoldsFresh s id → id ∈ g'.unclaimed) := by
    refine Follows.txn trivial ⟨.inl rfl, nofun⟩ fun r _ => ⟨.inr rfl, ?_⟩
    exact fun _ _ => mem_cons_self
  rcases hns : (cfg s).namespace_ with _ | ns
  · exact hdelete
  · have hget : g.permitsStore cfg s why (.getJob id (some ns)) := ⟨rfl, .inr rfl⟩
    refine Follows.guarded_bind (Follows.txn hget ?_ fun job hjob => ?_)
    · exact ⟨.inl rfl, nofun⟩
    · rcases job with _ | _
      · refine ⟨.inl rfl, fun _ hfresh => ?_⟩
        have hsome := hjob.2 hns.symm hfresh
        cases hsome
      · exact hdelete

theorem Grip.Handles.maySettle (h : g.Handles s why id) (hop : op.settles = [id]) :
    g.MaySettle s why op :=
  ⟨fun _ hk => mem_singleton.1 (hop ▸ hk) ▸ h.holds, fun e he => (h.runs e he).2⟩

theorem Grip.Handles.deadLetter (h : g.Handles s why job.id) (error : String)
    (metadata : Option String) (shed : Bool) :
    (Sched.deadLetter cfg s why job error metadata shed).Follows (tenureDiscipline cfg) g
      fun g' _ => Grip.Frame [job.id] g g' := by
  have hdrop : Grip.Frame [job.id] g { g.drop [job.id] with dead := some job.id } :=
    have hdrop := Grip.Frame.drop g [job.id]
    ⟨hdrop.held, hdrop.unclaimed, hdrop.orphans⟩
  refine follows_deadLetter fun dlqId count now => ⟨⟨h.maySettle rfl, fun r => ?_⟩, ?_⟩
  · rcases r with _ | _ | _
    · exact .refl _ _
    · exact .refl _ _
    · exact hdrop
  · intro _ _ _
    refine ⟨⟨rfl, fun e he => (h.runs e he).1⟩, fun r => ?_⟩
    rcases r with _ | _ <;> exact hdrop

/-- **A thread may settle the run it handles**, and touches no other. -/
theorem Grip.Handles.rules (h : g.Handles s why id) :
    ResultRules cfg (tenureDiscipline cfg) s why id g (Grip.Frame [id] g) where
  stay := .refl _ _
  retry next ns := by
    refine ⟨h.maySettle rfl, fun r => ?_⟩
    rcases r with _ | _ | _
    · exact .refl _ _
    · exact .refl _ _
    · exact .drop g [id]
  release := by
    refine ⟨trivial, fun r => ?_⟩
    rcases r with _ | _
    · exact .refl _ _
    · exact .unclaim _ _ _
  deadLetter ns job hjob error metadata := by
    cases hjob.1 job rfl
    exact h.deadLetter error metadata false
  complete result ns now := by
    refine ⟨h.maySettle rfl, fun r => ?_⟩
    rcases r with _ | _ | _
    · exact .refl _ _
    · exact .refl _ _
    · exact .drop g [id]
  markCancelled ns now := by
    refine ⟨h.maySettle rfl, fun r => ?_⟩
    rcases r with _ | _ | _
    · exact .refl _ _
    · exact .refl _ _
    · exact .drop g [id]
  after g' hg := by
    refine ⟨trivial, fun r => ?_⟩
    rcases r with _ | _
    · exact hg
    · exact hg.trans (.unclaim _ _ _)

/-! ## Handling a result -/

theorem Cause.executions_of_needsRecord (h : why.needsRecord = true) (he : why.executions = [e]) :
    why = .results [e] ∨ why = .reap e := by
  cases why with
  | loop => cases h
  | results => exact .inl (congrArg Cause.results he)
  | reap => exact .inr (congrArg Cause.reap (List.cons.inj he).1)
  | rescue => cases h

/-- A handler of a result or a timeout takes the record of its run, which nobody in this thread
held yet. -/
theorem follows_takeRecord (hwhy : why.needsRecord = true)
    (he : why.executions = [e]) (g : Grip σ) :
    (Sched.authorizeFinished cfg s why e.job).Follows (tenureDiscipline cfg) g
      fun g' _ => g' = g.take s e .taken ∧ ¬ g.Holds s e.job := by
  refine follows_authorizeFinished (R := fun g' => g' = g.take s e .taken ∧ ¬ g.Holds s e.job)
    ⟨e, he, rfl⟩ fun record hrecord => ?_
  obtain ⟨hsome, hnot⟩ := hrecord hwhy
  rcases record with _ | _
  · cases hsome
  · obtain rfl | rfl := Cause.executions_of_needsRecord hwhy he <;> exact ⟨rfl, hnot⟩

/-- Having taken its record, the thread handles the run. -/
theorem Grip.handles_take (g : Grip σ) (s : σ) (he : why.executions = [e]) (stage : Stage) :
    (g.take s e stage).Handles s why e.job := by
  refine ⟨⟨_, mem_cons_self, rfl, rfl⟩, fun e' he' => ?_⟩
  rw [he] at he'
  cases mem_singleton.1 he'
  exact ⟨rfl, _, mem_cons_self, rfl, rfl⟩

/-- **Handling a result or a timeout.** -/
theorem follows_handle (hwhy : why.needsRecord = true) {k : Int}
    (he : why.executions = [⟨r.jobId, k⟩]) (g : Grip σ) :
    (Sched.handleResult cfg s why r).Follows (tenureDiscipline cfg) g
      fun g' _ => Grip.Frame [r.jobId] g g' ∧ ¬ g.Holds s r.jobId := by
  have htake := Grip.Frame.take g s ⟨r.jobId, k⟩ .taken
  refine follows_handleResult (R := fun g' => Grip.Frame [r.jobId] g g' ∧ ¬ g.Holds s r.jobId)
    (follows_takeRecord hwhy he g) ?_ ?_
  · rintro _ ⟨rfl, hnot⟩
    exact ⟨htake, hnot⟩
  · rintro _ ⟨rfl, hnot⟩
    refine (follows_settleResult (g.handles_take s he .taken).rules).mono fun g₂ _ hg₂ => ?_
    exact ⟨htake.trans hg₂, hnot⟩

/-- **Handling a rescued run.** -/
theorem follows_handleRescue (hr : r.jobId = e.job) (h : g.Handles s (.rescue e) r.jobId) :
    (Sched.handleResult cfg s (.rescue e) r).Follows (tenureDiscipline cfg) g
      fun g' _ => Grip.Frame [r.jobId] g g' := by
  refine follows_handleResult (P := (· = g)) ?_ ?_ ?_
  · refine follows_authorizeFinished ⟨e, rfl, hr.symm⟩ fun record _ => ?_
    rcases record with _ | _ <;> rfl
  · rintro _ rfl
    exact .refl _ _
  · rintro _ rfl
    exact follows_settleResult h.rules

/-! ## Handling a batch of results -/

/-- Between the two passes over a batch: what the scheduler held it still holds, and every success
that was set aside is held, each for another job. -/
structure Grip.SetAside (s : σ) (g g' : Grip σ) (successes : List Sched.Finished) : Prop where
  held : ∀ h ∈ g.held, h.sched = s → h ∈ g'.held
  runs : ∀ f ∈ successes, g'.HoldsRun s f.execution
  job : ∀ f ∈ successes, f.execution.job = f.completion.jobId ∧ ¬ g.Holds s f.execution.job
  nodup : (successes.map fun f => f.execution.job).Nodup

/-- The rest of a batch, after one result that kept what was held. -/
theorem Grip.SetAside.keep {g₁ g' : Grip σ} {successes : List Sched.Finished}
    (hkeep : ∀ h ∈ g.held, h.sched = s → h ∈ g₁.held) (h : SetAside s g₁ g' successes) :
    SetAside s g g' successes where
  held x hx hs := h.held x (hkeep x hx hs) hs
  runs := h.runs
  job f hf := by
    refine ⟨(h.job f hf).1, ?_⟩
    rintro ⟨x, hx, rfl, heq⟩
    exact (h.job f hf).2 ⟨x, hkeep x hx rfl, rfl, heq⟩
  nodup := h.nodup

theorem follows_drainResults (s : σ) (rs : List (Int × JobResult)) (g : Grip σ) :
    (Sched.drainResults cfg s rs).Follows (tenureDiscipline cfg) g
      fun g' drained => Grip.SetAside s g g' (Sched.finished drained) := by
  -- a result handled at once keeps what was held: its own job was not
  have hother : ∀ (k : Int) (r : JobResult) (rest : List (Int × JobResult)) (g : Grip σ),
      (∀ g, (drainResults cfg s rest).Follows (tenureDiscipline cfg) g
        fun g' drained => Grip.SetAside s g g' (finished drained)) →
      (handleResult cfg s (.results [⟨r.jobId, k⟩]) r >>= fun outcome => do
        return Sum.inl outcome :: (← drainResults cfg s rest)).Follows (tenureDiscipline cfg) g
          fun g' drained => Grip.SetAside s g g' (finished drained) := by
    intro k r rest g ih
    refine .bind ((follows_handle (k := k) rfl rfl g).mono fun g₁ outcome hg₁ => ?_)
    refine .bind ((ih g₁).mono fun g₂ drained hg₂ => ?_)
    refine hg₂.keep fun x hx hs => hg₁.1.held x hx fun hk => hg₁.2 ?_
    exact ⟨x, hx, hs, mem_singleton.1 hk⟩
  induction rs generalizing g with
  | nil => exact ⟨fun _ hx _ => hx, by simp [finished], by simp [finished],
      by simp [finished]⟩
  | cons p rest ih =>
    obtain ⟨k, r⟩ := p
    cases r with
    | success c =>
      refine .bind ((follows_takeRecord (e := ⟨c.jobId, k⟩) rfl rfl g).mono
        fun g₁ authorized hg₁ => ?_)
      obtain ⟨rfl, hnot⟩ := hg₁
      refine .bind ((ih _).mono fun g₂ drained hg₂ => ?_)
      have hkeep := hg₂.keep (g := g) fun x hx _ => mem_cons_of_mem _ hx
      have hmine : g₂.HoldsRun s ⟨c.jobId, k⟩ := ⟨_, hg₂.held _ mem_cons_self rfl, rfl, rfl⟩
      have hfirst : ∀ f ∈ finished drained, f.execution.job ≠ c.jobId := by
        intro f hf heq
        exact (hg₂.job f hf).2 ⟨_, mem_cons_self, rfl, heq.symm⟩
      cases authorized with
      | false => exact hkeep
      | true =>
        change Grip.SetAside s g g₂ (⟨⟨c.jobId, k⟩, c⟩ :: finished drained)
        refine ⟨hkeep.held, ?_, ?_, ?_⟩
        · intro f hf
          obtain rfl | hf := mem_cons.1 hf
          · exact hmine
          · exact hkeep.runs f hf
        · intro f hf
          obtain rfl | hf := mem_cons.1 hf
          · exact ⟨rfl, hnot⟩
          · exact hkeep.job f hf
        · rw [map_cons, nodup_cons]
          refine ⟨fun hmem => ?_, hkeep.nodup⟩
          obtain ⟨f, hf, heq⟩ := mem_map.1 hmem
          exact hfirst f hf heq
    | failure f => exact hother k (.failure f) rest g ih
    | cancelled id taskName wallTimeNs =>
      exact hother k (.cancelled id taskName wallTimeNs) rest g ih

/-- The second pass, when the batch write failed: each success on its own. -/
theorem follows_finalizeEach (s : σ) (drained : List (Option ResultOutcome ⊕ Sched.Finished))
    (g : Grip σ) (hruns : ∀ f ∈ Sched.finished drained, g.HoldsRun s f.execution)
    (hjob : ∀ f ∈ Sched.finished drained, f.execution.job = f.completion.jobId)
    (hnd : ((Sched.finished drained).map fun f => f.execution.job).Nodup) :
    (Sched.finalizeEach cfg s drained).Follows (tenureDiscipline cfg) g fun _ _ => True := by
  induction drained generalizing g with
  | nil => trivial
  | cons d rest ih =>
    cases d with
    | inl => exact .bind ((ih g hruns hjob hnd).mono fun _ _ _ => trivial)
    | inr f =>
      have hmem : ∀ f' ∈ finished rest, f' ∈ finished (Sum.inr f :: rest) :=
        fun f' hf' => mem_cons_of_mem f hf'
      have hmine : f ∈ finished (Sum.inr f :: rest) := mem_cons_self
      obtain ⟨x, hx, hs, hrun⟩ := hruns f hmine
      have hid := hjob f hmine
      have hhandles : g.Handles s (.results [f.execution]) f.completion.jobId := by
        refine ⟨⟨x, hx, hs, hrun ▸ hid⟩, fun e he => ?_⟩
        cases mem_singleton.1 he
        exact ⟨hid, x, hx, hs, hrun⟩
      obtain ⟨hfirst, hnd⟩ := nodup_cons.1 hnd
      refine .bind ((follows_finalizeSuccess hhandles.rules).mono fun g₁ _ hg₁ => ?_)
      refine .bind ((ih g₁ (fun f' hf' => ?_) (fun f' hf' => hjob f' (hmem f' hf')) hnd).mono
        fun _ _ _ => trivial)
      obtain ⟨y, hy, hys, hyrun⟩ := hruns f' (hmem f' hf')
      refine ⟨y, hg₁.held y hy fun hk => hfirst ?_, hys, hyrun⟩
      rw [mem_singleton, hyrun, ← hid] at hk
      exact mem_map.2 ⟨f', hf', hk⟩

theorem follows_handleResults (s : σ) (rs : List (Int × JobResult)) (g : Grip σ) :
    (Sched.handleResults cfg s rs).Follows (tenureDiscipline cfg) g fun _ _ => True := by
  refine .bind ((follows_drainResults s rs g).mono fun g₁ drained hg₁ => ?_)
  have heach : (finalizeEach cfg s drained).Follows (tenureDiscipline cfg) g₁
      fun _ _ => True :=
    follows_finalizeEach s drained g₁ hg₁.runs (fun f hf => (hg₁.job f hf).1) hg₁.nodup
  simp only
  split
  · trivial
  · refine Follows.side (SideOnly.ask rfl) fun now => ?_
    refine Follows.bind (Follows.bind (Follows.txn ⟨?_, ?_⟩ heach fun r _ => ?_))
    · intro _ hid
      obtain ⟨c, hc, rfl⟩ := mem_map.1 hid
      obtain ⟨f, hf, rfl⟩ := mem_map.1 hc
      obtain ⟨x, hx, hs, hrun⟩ := hg₁.runs f hf
      exact ⟨x, hx, hs, hrun ▸ (hg₁.job f hf).1⟩
    · intro _ he
      obtain ⟨f, hf, rfl⟩ := mem_map.1 he
      exact hg₁.runs f hf
    · rcases r with _ | _
      · exact heach
      · trivial

/-! ## Sweeps -/

theorem follows_rescueOrphan (s : σ) {owner : String} (horphan : (job.run, owner) ∈ g.orphans) :
    (Sched.rescue cfg s job owner).Follows (tenureDiscipline cfg) g
      fun g' _ => g'.orphans = g.orphans := by
  refine follows_rescue (R := fun g' : Grip σ => g'.orphans = g.orphans) fun now =>
    ⟨⟨?_, fun r => ?_⟩, ?_⟩
  · exact ⟨rfl, job.run, rfl, rfl, horphan⟩
  · rcases r with _ | _ | _ | _ <;> rfl
  · have hheld : (⟨s, job.run, .rescued⟩ : Holding σ) ∈ (g.take s job.run .rescued).held :=
      mem_cons_self
    refine ⟨⟨_, hheld, rfl, rfl, by simp⟩, fun _ => ?_⟩
    exact (follows_handleRescue rfl (g.handles_take s rfl .rescued)).mono fun _ _ hg => hg.orphans

theorem follows_recoverOrphanedJobs (s : σ) (now : Int) (g : Grip σ) :
    (Sched.recoverOrphanedJobs cfg s now).Follows (tenureDiscipline cfg) g fun _ _ => True := by
  refine Follows.side (SideOnly.ask rfl) fun alive => ?_
  rcases alive with _ | alive
  · trivial
  · have hlive : (cfg s).claimOwner ∈ alive ++ [(cfg s).claimOwner] := by simp
    refine Follows.bind (Follows.txn hlive trivial fun orphans _ => ?_)
    -- the list of orphans stays what the sweep reported
    refine (Follows.forEach
      (fun g' : Grip σ => g'.orphans = orphans.map fun o => (o.1.run, o.2)) rfl
      fun o ho g' hg' => ?_).mono fun _ _ _ => trivial
    refine (follows_rescueOrphan s (hg' ▸ mem_map_of_mem ho)).mono fun g₁ _ hg₁ => ?_
    exact hg₁.trans hg'

theorem follows_sweep (s : σ) (g : Grip σ) :
    (Sched.reapStale cfg s).Follows (tenureDiscipline cfg) g fun _ _ => True := by
  refine follows_reapStale (R := fun _ => True) ?_ ?_ ?_ (fun job g _ => ?_)
    (fun now g _ => follows_recoverOrphanedJobs s now g) trivial
  iterate 3
    refine fun g _ => ⟨⟨rfl, .inl rfl⟩, fun r => ?_⟩
    rcases r with _ | _ <;> rfl
  exact (follows_handle (k := job.retryCount) rfl rfl g).mono fun _ _ _ => trivial

/-! ## Dispatching one job -/

/-- The thread dequeued the job and has not sent it. -/
def Grip.Owns (g : Grip σ) (s : σ) (job : Job) : Prop := ⟨s, job.run, .fresh⟩ ∈ g.held

/-- The thread dequeued the job and has not claimed it. -/
def Grip.Ready (g : Grip σ) (s : σ) (job : Job) : Prop := g.Owns s job ∧ job.id ∈ g.unclaimed

namespace Grip

variable {g g' : Grip σ} {s : σ} {job : Job} {ids : List JobId}

theorem Owns.frame (h : g.Owns s job) (hf : Frame ids g g') (hid : job.id ∉ ids) : g'.Owns s job :=
  hf.held _ h hid

theorem Ready.frame (h : g.Ready s job) (hf : Frame ids g g') (hid : job.id ∉ ids) :
    g'.Ready s job := ⟨h.1.frame hf hid, hf.unclaimed _ h.2 hid⟩

theorem Owns.holdsFresh (h : g.Owns s job) : g.HoldsFresh s job.id := ⟨_, h, rfl, rfl, rfl⟩

theorem Owns.handles (h : g.Owns s job) : g.Handles s .loop job.id :=
  ⟨⟨_, h, rfl, rfl⟩, nofun⟩

/-- A job that was dequeued and has no claim may be given back. -/
theorem Ready.mayReschedule (h : g.Ready s job) (next : Int) :
    g.permitsStore cfg s .loop (.reschedule job.id next) := ⟨rfl, h.1.holdsFresh, h.2⟩

end Grip

variable {s : σ} {job : Job} {g : Grip σ}

theorem follows_reschedule (h : g.Ready s job) (next : Int) :
    (attempt s .loop (txn (.reschedule job.id next))).Follows (tenureDiscipline cfg) g
      fun g' _ => Grip.Frame [job.id] g g' := by
  have hmay : g.permitsStore cfg s .loop (.reschedule job.id next) := h.mayReschedule next
  refine Follows.bind (Follows.txn hmay (Grip.Frame.refl _ _) fun r _ => ?_)
  rcases r with _ | _
  · exact Grip.Frame.refl _ _
  · exact Grip.Frame.drop g [job.id]

theorem follows_rollback (h : g.Owns s job) (now delayMs : Int) :
    (Sched.rollback cfg s job now delayMs).Follows (tenureDiscipline cfg) g
      fun g' _ => Grip.Frame [job.id] g g' := by
  refine Follows.side (SideOnly.ask rfl) fun delay => ?_
  have hback : (rollbackClaimAndReschedule cfg s job.id (now + delay)).Follows
      (tenureDiscipline cfg) g fun g' _ => Grip.Frame [job.id] g g' := by
    refine Follows.bind ((follows_unclaim s .loop job.id g).mono fun g₁ r hg₁ => ?_)
    obtain ⟨hcase, hun⟩ := hg₁
    have hframe : Grip.Frame [job.id] g g₁ ∧ g₁.Owns s job := by
      obtain rfl | rfl := hcase
      · exact ⟨.refl _ _, h⟩
      · exact ⟨.unclaim _ _ _, h⟩
    rcases r with _ | _
    · exact hframe.1
    · refine (follows_reschedule ⟨hframe.2, hun rfl h.holdsFresh⟩ _).mono fun g₂ _ hg₂ => ?_
      exact hframe.1.trans hg₂
  refine .bind (hback.mono fun g₁ r hg₁ => ?_)
  rcases r with _ | _ <;> exact hg₁

theorem follows_shedRateLimited (h : g.Owns s job) (reason : String) (claimed : Bool) :
    (Sched.shedRateLimited cfg s job reason claimed).Follows (tenureDiscipline cfg) g
      fun g' _ => Grip.Frame [job.id] g g' := by
  have hdead : ∀ g₁, Grip.Frame [job.id] g g₁ → g₁.Owns s job →
      (Sched.deadLetter cfg s .loop job reason (some Sched.rateLimitShedMetadata) true).Follows
        (tenureDiscipline cfg) g₁ fun g' _ => Grip.Frame [job.id] g g' := by
    intro g₁ hg₁ hown
    exact (hown.handles.deadLetter _ _ _).mono fun g₂ _ hg₂ => hg₁.trans hg₂
  cases claimed with
  | false => exact hdead g (.refl _ _) h
  | true =>
    refine .bind ((follows_unclaim s .loop job.id g).mono fun g₁ _ hg₁ => ?_)
    obtain rfl | rfl := hg₁.1
    · exact hdead _ (.refl _ _) h
    · exact hdead _ (.unclaim _ _ _) h

theorem follows_finishDispatch (h : g.Owns s job) (now : Int) (counts : Sched.GateCounts) :
    (Sched.finishDispatch cfg s job now counts).Follows (tenureDiscipline cfg) g
      fun g' _ => Grip.Frame [job.id] g g' := by
  have hback : ∀ delayMs (counts : Sched.GateCounts),
      (rollback cfg s job now delayMs >>= fun r => return (r, counts)).Follows
        (tenureDiscipline cfg) g fun g' _ => Grip.Frame [job.id] g g' :=
    fun delayMs _ => Follows.bind ((follows_rollback h now delayMs).mono fun _ _ hg => hg)
  refine Follows.side (sideOnly_checkPostClaimConcurrency cfg s job counts) fun r => ?_
  obtain ⟨r, counts⟩ := r
  rcases r with _ | _ | _
  · exact Grip.Frame.refl _ _
  · exact hback _ _
  · refine .bind (.perform ⟨_, h, rfl, rfl, by simp⟩ fun _ _ => ?_)
    refine .bind (.perform h fun accepted _ => ?_)
    cases accepted with
    | true => exact .drop g [job.id]
    | false => exact .bind (.perform trivial fun _ _ => hback _ _)

/-! ## Dispatching a batch -/

theorem sublist_wonJobs (jobs : List Job) (won : List Bool) :
    (Sched.wonJobs jobs won).Sublist jobs := by
  induction jobs generalizing won with
  | nil => simp [wonJobs]
  | cons job rest ih =>
    rcases won with _ | ⟨_ | _, won⟩
    · simp [wonJobs]
    · exact (ih won).cons job
    · exact (ih won).cons_cons job

/-- The jobs a cycle has left: different ones, each dequeued and not sent, with a claim or
without. -/
structure Grip.Left (s : σ) (claimed : Bool) (g : Grip σ) (jobs : List Job) : Prop where
  owns : ∀ job ∈ jobs, g.Owns s job
  unclaimed : claimed = false → ∀ job ∈ jobs, job.id ∈ g.unclaimed
  nodup : (jobs.map Job.id).Nodup

namespace Grip.Left

variable {s : σ} {claimed : Bool} {g g' : Grip σ} {job : Job} {jobs jobs' : List Job}

theorem sublist (h : g.Left s claimed jobs) (hsub : jobs'.Sublist jobs) : g.Left s claimed jobs' :=
  ⟨fun j hj => h.owns j (hsub.subset hj), fun hc j hj => h.unclaimed hc j (hsub.subset hj),
    (hsub.map Job.id).nodup h.nodup⟩

/-- The other jobs, after something was done with one. -/
theorem frame (h : g.Left s claimed jobs) (hf : Frame [job.id] g g')
    (hid : ∀ j ∈ jobs, j.id ≠ job.id) : g'.Left s claimed jobs :=
  ⟨fun j hj => (h.owns j hj).frame hf (by simpa using hid j hj),
    fun hc j hj => hf.unclaimed _ (h.unclaimed hc j hj) (by simpa using hid j hj), h.nodup⟩

theorem head (h : g.Left s claimed (job :: jobs)) :
    g.Owns s job ∧ g.Left s claimed jobs ∧ ∀ j ∈ jobs, j.id ≠ job.id := by
  refine ⟨h.owns job (by simp), h.sublist (sublist_cons_self _ _), fun j hj heq => ?_⟩
  exact (nodup_cons.1 h.nodup).1 (heq ▸ mem_map_of_mem hj)

end Grip.Left

/-- **Dispatchers act on jobs they hold**, and leave the others of a batch alone. -/
theorem tenureCycle (s : σ) :
    CycleRules cfg (tenureDiscipline cfg) s (fun c g jobs _ => g.Left s c jobs)
      fun c g job rest _ => g.Owns s job ∧ g.Left s c rest ∧ ∀ j ∈ rest, j.id ≠ job.id where
  skip h := h.head.2.1
  own h := h.head
  pass h := h.2.1
  rollback h now delayMs :=
    (follows_rollback h.1 now delayMs).mono fun _ _ hg => h.2.1.frame hg h.2.2
  finish h now := (follows_finishDispatch h.1 now _).mono fun _ _ hg => h.2.1.frame hg h.2.2
  shed h reason := by
    obtain ⟨hown, hrest, hid⟩ := h.head
    refine (follows_shedRateLimited hown reason _).mono fun _ _ hg => ?_
    exact ⟨hrest.frame hg hid, hrest.frame hg hid⟩
  reschedule h next := by
    obtain ⟨hown, hrest, hid⟩ := h.head
    refine (follows_reschedule ⟨hown, h.unclaimed rfl _ (by simp)⟩ next).mono fun _ _ hg => ?_
    exact ⟨hrest.frame hg hid, fun _ => hrest.frame hg hid⟩
  claim h now := by
    obtain ⟨hown, hrest, hid⟩ := h.head
    refine ⟨⟨rfl, hown.holdsFresh⟩, fun r => ?_⟩
    rcases r with _ | _ | _
    · exact ⟨hown, hrest, hid⟩
    · exact ⟨hown, hrest, hid⟩
    · exact ⟨hown, hrest.frame (.claim _ _) hid, hid⟩
  claimBatch h now := by
    refine ⟨⟨rfl, fun id hid => ?_⟩, h, fun _ => h, fun won => ?_⟩
    · obtain ⟨job, hjob, rfl⟩ := mem_map.1 hid
      exact (h.owns job hjob).holdsFresh
    · have hwon := h.sublist (sublist_wonJobs _ won)
      exact ⟨hwon.owns, nofun, hwon.nodup⟩
  drop {g front job rest} h error metadata := by
    have hown := h.owns job (by simp)
    refine (hown.handles.deadLetter _ _ _).mono fun g' _ hg _ => ?_
    have hsub : (front ++ rest).Sublist (front ++ job :: rest) :=
      (List.Sublist.refl front).append (sublist_cons_self job rest)
    refine (h.sublist hsub).frame hg fun j hj heq => ?_
    have hnd := h.nodup
    rw [map_append, map_cons, nodup_middle, nodup_cons, ← map_append] at hnd
    exact hnd.1 (heq ▸ mem_map_of_mem hj)

/-- The thread holds what one dequeue handed out. -/
theorem Grip.ready_acquire (g : Grip σ) (s : σ) {jobs : List Job} (hjob : job ∈ jobs) :
    (g.acquire s (jobs.map Job.run)).Ready s job :=
  ⟨mem_append_left _ (mem_map.2 ⟨job.run, mem_map_of_mem hjob, rfl⟩),
    mem_append_left _ (mem_map.2 ⟨job.run, mem_map_of_mem hjob, rfl⟩)⟩

theorem Grip.acquire_le (g : Grip σ) (s : σ) (runs : List Execution) :
    Frame [] g (g.acquire s runs) :=
  ⟨fun _ hx _ => mem_append_right _ hx, fun _ hj _ => mem_append_right _ hj, rfl⟩

theorem follows_dequeueFrom (s : σ) (now : Int) (orders : String → DispatchOrder)
    (queues : List String) (g : Grip σ) :
    (storage s .loop (Ops.dequeueFrom now (cfg s).namespace_ orders queues)).Follows
      (tenureDiscipline cfg) g fun g' r => ∀ job, r = some (.ok (some job)) →
        g'.Left s false [job] := by
  induction queues generalizing g with
  | nil => exact fun job hjob => by cases hjob
  | cons queue rest ih =>
    refine Follows.guarded_bind (Follows.txn ⟨rfl, rfl⟩
      (fun job hjob => by cases hjob) fun r _ => ?_)
    rcases r with _ | _ | job
    · exact fun job hjob => by cases hjob
    · exact ih g
    · intro _ hjob'
      cases hjob'
      have hleft : (g.acquire s [job.run]).Left s false [job] :=
        ⟨fun j hj => (g.ready_acquire s hj).1, fun _ j hj => (g.ready_acquire s hj).2,
          nodup_singleton _⟩
      exact hleft

/-- What a batch dequeue over several queues hands out: different jobs, none of which was held
before. -/
structure Grip.Batch (s : σ) (g g' : Grip σ) (jobs : List Job) : Prop where
  frame : Frame [] g g'
  ready : ∀ job ∈ jobs, g'.Ready s job
  new : ∀ job ∈ jobs, ¬ g.Holds s job.id
  nodup : (jobs.map Job.id).Nodup

theorem Grip.Batch.nil (s : σ) (g : Grip σ) : Batch s g g [] :=
  ⟨.refl _ _, by simp, by simp, by simp⟩

/-- One queue after the other. -/
theorem Grip.Batch.append {g' : Grip σ} {batch more : List Job} (hnd : (batch.map Job.id).Nodup)
    (hnew : ∀ job ∈ batch, ¬ g.Holds s job.id)
    (h : Batch s (g.acquire s (batch.map Job.run)) g' more) : Batch s g g' (batch ++ more) := by
  have hheld : ∀ job ∈ batch, (g.acquire s (batch.map Job.run)).Holds s job.id :=
    fun job hjob => ⟨_, (g.ready_acquire s hjob).1, rfl, rfl⟩
  refine ⟨(g.acquire_le s _).trans h.frame, fun job hjob => ?_, fun job hjob => ?_, ?_⟩
  · obtain hjob | hjob := mem_append.1 hjob
    · exact (g.ready_acquire s hjob).frame h.frame (by simp)
    · exact h.ready job hjob
  · obtain hjob | hjob := mem_append.1 hjob
    · exact hnew job hjob
    · rintro ⟨x, hx, hs, hid⟩
      exact h.new job hjob ⟨x, mem_append_right _ hx, hs, hid⟩
  · rw [map_append, nodup_append]
    refine ⟨hnd, h.nodup, fun id hid id' hid' heq => ?_⟩
    obtain ⟨job, hjob, rfl⟩ := mem_map.1 hid
    obtain ⟨job', hjob', rfl⟩ := mem_map.1 hid'
    exact h.new job' hjob' (heq ▸ hheld job hjob)

theorem follows_dequeueBatchFrom (s : σ) (now : Int) (orders : String → DispatchOrder) (max : Nat)
    (queues : List String) (g : Grip σ) :
    (storage s .loop (Ops.dequeueBatchFrom now (cfg s).namespace_ orders max queues)).Follows
      (tenureDiscipline cfg) g
      fun g' r => ∀ jobs, r = some (.ok jobs) → Grip.Batch s g g' jobs := by
  induction queues generalizing g max with
  | nil =>
    have hnil : ∀ jobs, (some (.ok []) : Option (Except QueueError (List Job))) = some (.ok jobs) →
        Grip.Batch s g g jobs := by
      intro jobs hjobs
      cases hjobs
      exact .nil s g
    cases max <;> exact hnil
  | cons queue rest ih =>
    cases max with
    | zero =>
      intro jobs hjobs
      cases hjobs
      exact .nil s g
    | succ =>
      refine Follows.guarded_bind (Follows.txn ⟨rfl, rfl⟩ (nofun)
        fun r hr => ?_)
      rcases r with e | _
      · exact nofun
      · obtain ⟨hnd, hnew⟩ := hr
        refine .guarded_bind ((ih _ _).mono fun g₁ r hg₁ => ?_)
        rcases r with _ | _ | more
        · exact nofun
        · exact nofun
        · intro _ hjobs
          cases hjobs
          exact (hg₁ more rfl).append hnd hnew

/-! ## Every call -/

theorem gentle_of_enqueues (h : op.enqueues = true) : op.gentle = true := by
  cases op <;> first | rfl | cases h

/-- **Every call of a scheduler, and every enqueue, keeps to the discipline.** -/
theorem follows_call (call : Sched.Call σ) (h : ∀ c, call = .client c → c.isEnqueue = true)
    (g : Grip σ) : (call.prog cfg codec).Follows (tenureDiscipline cfg) g fun _ _ => True := by
  cases call with
  | client c =>
    have hcalls := (calls_of_isEnqueue (h c rfl) codec).guarded (T := schedSig σ)
      (f := .client) (g := fun _ r => some r)
      (Q := fun op => ∃ o, o.gentle = true ∧ op = .client o)
      fun o ho => ⟨o, gentle_of_enqueues ho, rfl⟩
    refine .bind ((hcalls.follows ?_).mono fun _ _ _ => trivial)
    rintro _ ⟨_, ho, rfl⟩
    exact ⟨ho, fun _ => rfl⟩
  | handleResult s k =>
    exact .bind ((follows_handle (k := k) rfl rfl g).mono fun _ _ _ => trivial)
  | handleResults s rs => exact .bind (follows_handleResults s rs g)
  | reapStale s => exact follows_sweep s g
  | recoverOrphanedJobs s now => exact follows_recoverOrphanedJobs s now g
  | tryDispatch s =>
    exact (tenureCycle s).tryDispatch fun now queues => follows_dequeueFrom s now _ queues g
  | tryDispatchBatch s =>
    refine (tenureCycle s).tryDispatchBatch fun now max queues => ?_
    refine (follows_dequeueBatchFrom s now _ max queues g).mono fun g' _ hg jobs hjobs => ?_
    have hbatch := hg jobs hjobs
    exact ⟨fun j hj => (hbatch.ready j hj).1, fun _ j hj => (hbatch.ready j hj).2, hbatch.nodup⟩
  | stop => exact .perform trivial fun _ _ => trivial

end

end Flexiq
