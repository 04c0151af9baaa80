import Flexiq.Tenure

/-!
# Who may act on a run

The discipline behind `Tenured`: which operations a thread may perform with what it holds, and
what it holds after the answer. A transaction that ends a run, gives it back or retries it needs
the run to be held; a claim needs a job that was dequeued and not sent yet; a rescue needs an
orphan the sweep reported.

`Tenured.step` is the soundness of it: every permitted operation keeps the invariant, given the
two side conditions on the world — `SchedOp.Attested`, that a handler only takes the record of
the run it speaks for, and `SchedOp.Informed`, that a sweep for orphans knows every scheduler that
is still running.
-/

namespace Flexiq

open Function List Option StoreOp

variable {db : Db} {id : JobId} {ns : Option String} {op : StoreOp}

/-- The executions on whose behalf a scheduler acts. -/
def Cause.executions : Cause → List Execution
  | loop => []
  | results es => es
  | reap e | rescue e => [e]

/-- The scheduler acts for a run that should be in its records: a result or a timeout. -/
def Cause.needsRecord : Cause → Bool
  | results _ | reap _ => true
  | loop | rescue _ => false

/-- The jobs whose run a transaction ends or retries. -/
def StoreOp.settles : StoreOp → List JobId
  | retry id _ _ => [id]
  | op => op.ends

section

variable {σ : Type} (cfg : σ → Scheduler)

/-- The thread holds every job the transaction settles, and every run it acts for. -/
def Grip.MaySettle (g : Grip σ) (s : σ) (why : Cause) (op : StoreOp) : Prop :=
  (∀ id ∈ op.settles, g.Holds s id) ∧ ∀ e ∈ why.executions, g.HoldsRun s e

/-- Which transactions a thread of a scheduler may run. -/
def Grip.permitsStore (g : Grip σ) (s : σ) (why : Cause) (op : StoreOp) : Prop :=
  match op with
  | .retry _ _ _ | .complete _ _ _ _ | .completeBatch _ _ _ | .markCancelled _ _ _
  | .deadLetter _ _ _ _ _ _ _ => g.MaySettle s why op
  | .reschedule id _ => why = .loop ∧ g.HoldsFresh s id ∧ id ∈ g.unclaimed
  | .claimExecution id worker _ => worker = (cfg s).claimOwner ∧ g.HoldsFresh s id
  | .claimExecutionBatch ids worker _ =>
    worker = (cfg s).claimOwner ∧ ∀ id ∈ ids, g.HoldsFresh s id
  | .reclaimExecution id expected worker _ =>
    worker = (cfg s).claimOwner ∧
      ∃ e, why = .rescue e ∧ e.job = id ∧ (e, expected) ∈ g.orphans
  | .cascadeArchive root _ _ _ _ => g.dead = some root ∧ ∀ e ∈ why.executions, e.job = root
  | .reapOrphanedJobs live _ => (cfg s).claimOwner ∈ live
  | .dequeue _ _ ns _ | .dequeueBatch _ _ ns _ _ => why = .loop ∧ ns = (cfg s).namespace_
  | .deleteClaim _ => True
  | op => op.gentle = true ∧ (why = .loop ∨ op.isSide = true)

/-- What the thread holds after a transaction. -/
def Grip.nextStore (g : Grip σ) (s : σ) (why : Cause) : (op : StoreOp) → op.Res → Grip σ
  | .dequeue _ _ _ _, .ok (some job) => g.acquire s [job.run]
  | .dequeueBatch _ _ _ _ _, .ok jobs => g.acquire s (jobs.map Job.run)
  | .complete id _ _ _, .ok _ | .markCancelled id _ _, .ok _ | .retry id _ _, .ok _
  | .reschedule id _, .ok _ => g.drop [id]
  | .completeBatch cs _ _, .ok _ => g.drop (cs.map JobCompletion.jobId)
  | .deadLetter job _ _ _ _ _ _, .ok _ => { g.drop [job.id] with dead := some job.id }
  | .claimExecution id _ _, .ok _ => g.claim [id]
  | .claimExecutionBatch ids _ _, .ok _ => g.claim ids
  | .deleteClaim id, _ => g.unclaim id
  | .reclaimExecution _ _ _ _, .ok true =>
    match why with
    | .rescue e => g.take s e .rescued
    | _ => g
  | .reapOrphanedJobs _ _, orphans =>
    { g with orphans := orphans.map fun o => (o.1.run, o.2) }
  | _, _ => g

/-- What a transaction can answer. -/
def Grip.expectsStore (g : Grip σ) (s : σ) : (op : StoreOp) → op.Res → Prop
  | .getJob id ns, r => (∀ job ∈ r, job.id = id) ∧
    (ns = (cfg s).namespace_ → g.HoldsFresh s id → r.isSome = true)
  | .dequeueBatch _ _ _ _ _, .ok jobs =>
    (jobs.map Job.id).Nodup ∧ ∀ job ∈ jobs, ¬ g.Holds s job.id
  | _, _ => True

/-- Runs are only acted on by the thread that holds them. -/
def tenureDiscipline : Discipline (schedSig σ) (Grip σ) where
  permits g
    | .client op => op.gentle = true
    | .store s why op => g.permitsStore cfg s why op
    | .releaseInFlight _ why id => ∃ e, why.executions = [e] ∧ e.job = id
    | .trackInFlight s id record =>
      ∃ h ∈ g.held, h.sched = s ∧ h.run = ⟨id, record.attempt⟩ ∧ h.stage ≠ .taken
    | .trySend s job => ⟨s, job.run, .fresh⟩ ∈ g.held
    | _ => True
  expects g
    | .store s _ op, some r => g.expectsStore cfg s op r
    | .releaseInFlight s why id, r => why.needsRecord = true → r.isSome = true ∧ ¬ g.Holds s id
    | _, _ => True
  next g
    | .store s why op, some r => g.nextStore s why op r
    | .releaseInFlight s why _, some _ =>
      match why with
      | .results [e] | .reap e => g.take s e .taken
      | _ => g
    | .trySend _ job, true => g.drop [job.id]
    | _, _ => g
  done _ := True

variable {cfg}

/-- The runs whose record an operation takes for a result or a timeout. -/
def SchedOp.takes : SchedOp σ → List (σ × Execution)
  | .releaseInFlight s why _ => if why.needsRecord then why.executions.map (s, ·) else []
  | _ => []

/-- Where the operation takes a record for a result or a timeout, it is the record of a run that
is out with a worker of this scheduler. -/
def SchedOp.Attested (st : SchedState σ) (op : SchedOp σ) : Prop :=
  ∀ p ∈ op.takes, st.Out p.1 p.2

/-- The scheduler that sweeps for orphans, and the live workers it goes by. -/
def SchedOp.sweeps : SchedOp σ → Option (σ × List String)
  | .store s _ (.reapOrphanedJobs live _) => some (s, live)
  | _ => none

/-- Where the operation sweeps for orphans, the live workers it knows are all the schedulers that
are still running. -/
abbrev SchedOp.Informed (cfg : σ → Scheduler) (st : SchedState σ) (op : SchedOp σ) : Prop :=
  ∀ p ∈ op.sweeps, ∀ s', s' ≠ p.1 → s' ∉ st.stopped → (cfg s').claimOwner ∈ p.2

/-- The ids an operation draws for new jobs were never used. -/
def SchedOp.NeverUsed (st : SchedState σ) (op : SchedOp σ) : Prop :=
  ∀ o ∈ op.transaction, o.Fresh st.db ∧ ∀ id ∈ o.newIds, ∀ p ∈ st.runs, p.2.job ≠ id

end

/-! ## Transactions -/

section

variable {σ τ : Type} [DecidableEq τ] {cfg : σ → Scheduler} {st : SchedState σ} {G : τ → Grip σ}
variable {t : τ} {s : σ} {e : Execution}

omit [DecidableEq τ] in
theorem Free.nil : Free st G [] := ⟨by simp, by simp⟩

omit [DecidableEq τ] in
theorem Free.mono {ids ids' : List JobId} (h : Free st G ids) (hsub : ids' ⊆ ids) :
    Free st G ids' :=
  ⟨fun t x hx hs hk => h.held t x hx hs (hsub hk), fun hs hout hk => h.out hs hout (hsub hk)⟩

theorem archived_isSome (hop : ∀ p, op ≠ .purgeArchived p) (j : JobId)
    (h : (db.archivedJobs.find j).isSome = true) :
    ((op.exec db).2.archivedJobs.find j).isSome = true := by
  obtain ⟨r, hr⟩ := isSome_iff_exists.1 h
  refine isSome_iff_exists.2 ⟨r, archived_kept (fun p he => ?_) hr⟩
  cases op <;> simp [StoreOp.Effects] at he
  exact hop _ rfl

theorem StoreOp.Fresh.of_newIds (h : op.newIds = []) : op.Fresh db := by
  intro _ hid
  rw [h] at hid
  cases hid

omit [DecidableEq τ] in
theorem Tenured.gentle (h : Tenured cfg st G) (hop : op.gentle = true) (hfresh : op.Fresh st.db)
    (hnew : ∀ id ∈ op.newIds, ∀ p ∈ st.runs, p.2.job ≠ id) :
    Tenured cfg { st with db := (op.exec st.db).2 } G := by
  refine h.shift (.gentle hop st.db) (h.partition.exec hfresh) (fun j => archived_isSome ?_ j)
    hnew .nil (by simp) (by simp)
  rintro _ rfl
  cases hop

/-- **Ending runs** that the thread holds; it lets go of them. -/
theorem Tenured.ending (h : Tenured cfg st G) (hs : s ∉ st.stopped) (hop : op.isEnding = true)
    (hheld : ∀ id ∈ op.ends, (G t).Holds s id) :
    Tenured cfg { st with db := (op.exec st.db).2 } (update G t ((G t).drop op.ends)) := by
  have hfree : Free st (update G t ((G t).drop op.ends)) op.ends := by
    refine h.free_drop fun k hk => ?_
    obtain ⟨x, hx, rfl, hid⟩ := hheld k hk
    exact ⟨x, hx, hs, hid⟩
  have hnew : op.newIds = [] := by cases op <;> first | rfl | cases hop
  refine (h.weaken ((G t).drop_le op.ends)).shift (.ended hop st.db)
    (h.partition.exec (.of_newIds hnew)) (fun j => archived_isSome ?_ j) (by simp)
    (hfree.mono (op.ended_subset st.db)) (fun k hk => (ended_gone hop hk).2)
      fun k hk row' hrow => ?_
  · rintro _ rfl
    cases hop
  · rw [(ended_gone hop hk).1] at hrow
    cases hrow

/-- **Retrying** a held run: the job waits for the next attempt. -/
theorem Tenured.retry (h : Tenured cfg st G) (hs : s ∉ st.stopped) {next : Int}
    (hheld : (G t).Holds s id) (hok : ((StoreOp.retry id next ns).exec st.db).1 = .ok ()) :
    Tenured cfg { st with db := ((StoreOp.retry id next ns).exec st.db).2 }
      (update G t ((G t).drop [id])) := by
  obtain ⟨x, hx, rfl, rfl⟩ := hheld
  obtain ⟨-, _, herr⟩ | ⟨-, hshift, howner, _, hrow, hrow'⟩ := retry_shift x.run.job next ns st.db
  · rw [herr] at hok
    cases hok
  · refine (h.weaken ((G t).drop_le [x.run.job])).shift hshift (h.partition.exec (.of_newIds rfl))
      (fun j => archived_isSome (by simp) j) (by simp) (h.free_drop ?_) ?_ ?_
    · intro k hk
      cases mem_singleton.1 hk
      exact ⟨x, hx, hs, rfl⟩
    · intro k hk
      cases mem_singleton.1 hk
      exact howner
    · intro _ hk _ hr _ hp hpk
      cases mem_singleton.1 hk
      cases hrow'.symm.trans hr
      -- what was sent of the job is at most its last attempt
      have hle := (h.sentPast hp (hpk ▸ hrow)).1
      exact Int.lt_add_one_of_le hle

/-- **Giving back** a job that was dequeued, has no claim and was not sent. -/
theorem Tenured.reschedule (h : Tenured cfg st G) (hs : s ∉ st.stopped) {next : Int}
    (hheld : (G t).HoldsFresh s id) (hun : id ∈ (G t).unclaimed)
    (hok : ((StoreOp.reschedule id next).exec st.db).1 = .ok ()) :
    Tenured cfg { st with db := ((StoreOp.reschedule id next).exec st.db).2 }
      (update G t ((G t).drop [id])) := by
  obtain ⟨x, hx, rfl, rfl, hfresh⟩ := hheld
  obtain ⟨-, _, herr⟩ | ⟨-, hshift, _, hrow, hrow'⟩ := reschedule_shift x.run.job next st.db
  · rw [herr] at hok
    cases hok
  · have hheld := h.held t x hx hs
    refine (h.weaken ((G t).drop_le [x.run.job])).shift hshift (h.partition.exec (.of_newIds rfl))
      (fun j => archived_isSome (by simp) j) (by simp) (h.free_drop ?_) ?_ ?_
    · intro k hk
      cases mem_singleton.1 hk
      exact ⟨x, hx, hs, rfl⟩
    · intro k hk
      cases mem_singleton.1 hk
      obtain hnone | hsame := hshift.owner x.run.job
      · exact hnone
      · exact hsame.trans (h.unclaimed t x hx hs hun)
    · intro _ hk _ hr p hp hpk
      cases mem_singleton.1 hk
      cases hrow'.symm.trans hr
      obtain ⟨_, hrow'', -, hcount⟩ := hheld.atRun
      cases hrow''.symm.trans hrow
      have hle := (h.sentPast hp (hpk ▸ hrow)).1
      -- the run itself was not sent
      refine lt_of_le_of_ne hle fun heq => hheld.fresh hfresh p.1 ?_
      exact Execution.ext hpk (heq.trans hcount) ▸ hp

omit [DecidableEq τ] in
theorem Db.AtRun.unique {e' : Execution} (h : db.AtRun e) (h' : db.AtRun e')
    (hjob : e.job = e'.job) : e = e' := by
  obtain ⟨_, hrow, -, hcount⟩ := h
  obtain ⟨_, hrow', -, hcount'⟩ := h'
  rw [hjob] at hrow
  cases hrow.symm.trans hrow'
  exact Execution.ext hjob (hcount.symm.trans hcount')

/-- **Claiming** jobs that were dequeued and not sent. -/
theorem Tenured.claim (h : Tenured cfg st G) (hs : s ∉ st.stopped) {ids : List JobId}
    (hop : ∀ e, op.Effects e → ∃ id ∈ ids, e = .claim id none (cfg s).claimOwner)
    (hheld : ∀ id ∈ ids, (G t).HoldsFresh s id) :
    Tenured cfg { st with db := (op.exec st.db).2 } (update G t ((G t).claim ids)) := by
  have hle : ((G t).claim ids).Le (G t) :=
    ⟨fun _ hx => hx, filter_subset_self _, fun _ ho => ho, fun _ hj => hj⟩
  refine (h.weaken hle).claims hs (.exec st.db hop) ?_ ?_ ?_
  · intro k hk _
    obtain ⟨x, hx, rfl, rfl, -⟩ := hheld k hk
    obtain ⟨row, hrow, hrun, -⟩ := (h.held t x hx hs).atRun
    exact ⟨row, hrow, hrun⟩
  · intro u x hx hxs hk _
    obtain ⟨y, hy, rfl, heq, -⟩ := hheld _ hk
    by_cases hu : u = t
    · subst hu
      rw [update_self] at hx ⊢
      refine ⟨(h.heldOnce u u x hx y hy hxs hs heq.symm).2, fun hmem => ?_⟩
      exact of_decide_eq_true (mem_filter.1 hmem).2 hk
    · rw [update_of_ne hu] at hx
      exact absurd (h.heldOnce u t x hx y hy hxs hs heq.symm).1 hu
  · intro p hp _ hk _ hat
    obtain ⟨x, hx, rfl, heq, hfresh⟩ := hheld _ hk
    have hx' := h.held t x hx hs
    exact hx'.fresh hfresh p.1 (hat.unique hx'.atRun heq.symm ▸ hp)

/-- **Rescuing** an orphan: the claim of the dead worker becomes the scheduler's. -/
theorem Tenured.rescue (h : Tenured cfg st G) (hs : s ∉ st.stopped) {expected : String}
    {now : Int} {r : Bool} (horphan : (e, expected) ∈ (G t).orphans)
    (hr : ((StoreOp.reclaimExecution e.job expected (cfg s).claimOwner now).exec st.db).1 = .ok r) :
    Tenured cfg
      { st with
        db := ((StoreOp.reclaimExecution e.job expected (cfg s).claimOwner now).exec st.db).2 }
      (update G t (if r = true then (G t).take s e .rescued else G t)) := by
  obtain ⟨hdead, hcur⟩ := h.orphans t _ horphan
  have hclaims : Claims [e.job] (some expected) (cfg s).claimOwner st.db
      ((StoreOp.reclaimExecution e.job expected (cfg s).claimOwner now).exec st.db).2 :=
    Claims.exec st.db fun _ he => ⟨e.job, by simp, he⟩
  -- no scheduler that is running holds the job or has it out while the dead worker has the claim
  have hheld : st.db.owner e.job = some expected → ∀ u, ∀ x ∈ (G u).held, x.sched ∉ st.stopped →
      x.run.job ≠ e.job := by
    intro howner u x hx hxs heq
    obtain hnone | hsame := (h.held u x hx hxs).owner
    · rw [heq, howner] at hnone
      cases hnone
    · rw [heq, howner] at hsame
      exact hdead _ hxs (some.inj hsame).symm
  have hsent : st.db.owner e.job = some expected → ∀ p ∈ st.runs, p.1 ∉ st.stopped →
      p.2.job = e.job → ¬ st.db.AtRun p.2 := by
    intro howner p hp hps heq hat
    obtain hnone | hsame := h.sentOwner hp hps hat
    · rw [heq, howner] at hnone
      cases hnone
    · rw [heq, howner] at hsame
      exact hdead _ hps (some.inj hsame).symm
  have hstep : Tenured cfg { st with db := ((StoreOp.reclaimExecution e.job expected
      (cfg s).claimOwner now).exec st.db).2 } G := by
    refine h.claims hs hclaims ?_ ?_ ?_
    · intro _ _ howner
      exact h.claimed howner
    · intro u x hx hxs hk howner
      obtain heq := mem_singleton.1 hk
      exact absurd heq (hheld (heq ▸ howner) u x hx hxs)
    · intro p hp hps hk howner
      obtain heq := mem_singleton.1 hk
      exact hsent (heq ▸ howner) p hp hps heq
  split
  · next hwon =>
    subst hwon
    obtain ⟨hbefore, hafter⟩ := owner_of_reclaim hr
    have hjobs : ((StoreOp.reclaimExecution e.job expected (cfg s).claimOwner now).exec
        st.db).2.jobs = st.db.jobs := by rw [hclaims.rest]
    have hat := hcur hbefore
    refine hstep.gain (X := [⟨s, e, .rescued⟩]) (s := s) (by simp) ?_ ?_ ?_
    · intro x hx
      cases mem_singleton.1 hx
      refine ⟨?_, Or.inr hafter, (nofun), (nofun),
        fun _ hmem => ?_⟩
      · rw [Db.AtRun, hjobs]
        exact hat
      · exact hsent hbefore _ hmem hs rfl hat
    · refine ⟨fun u x hx hxs hk => ?_, fun {s' e'} hs' hout hk => ?_⟩
      · exact hheld hbefore u x hx hxs (mem_singleton.1 hk)
      · exact hsent hbefore _ hout.2 hs' (mem_singleton.1 hk) (h.out hs' hout)
    · intro x hx hxs hj
      obtain ⟨hmem, hne⟩ := mem_filter.1 hj
      obtain rfl | hx := mem_cons.1 hx
      · exact absurd rfl (of_decide_eq_true hne)
      · exact hstep.unclaimed t x hx hxs hmem
  · rw [update_eq_self]
    exact hstep

omit [DecidableEq τ] in
/-- A job that is handed out was nobody's, and now is the scheduler's that asked for it. -/
theorem Tenured.handedOut (h : Tenured cfg st G) {db' : Db} (hs : Shift [] [] st.db db')
    {job : Job} (hjob : HandedOut ns st.db db' job) :
    db'.AtRun job.run ∧ db'.owner job.id = none ∧ (∀ s, (s, job.run) ∉ st.runs) ∧
      (∀ u, ∀ x ∈ (G u).held, x.sched ∉ st.stopped → x.run.job ≠ job.id) ∧
      ∀ {s e}, s ∉ st.stopped → st.Out s e → e.job ≠ job.id := by
  obtain ⟨row, hrow, hpend⟩ := hjob.before
  have hcount : job.retryCount = row.retryCount := by
    obtain hnew | ⟨row', hrow', hcount, -⟩ := hs.origin (by simp) hjob.after.1
    · cases hnew
    · cases hrow.symm.trans hrow'
      exact hcount.retryCount
  -- a pending job is not at a run
  have hnot : ∀ {e}, st.db.AtRun e → e.job ≠ job.id := by
    rintro _ ⟨_, hrow', hrun, -⟩ heq
    rw [heq] at hrow'
    cases hrow.symm.trans hrow'
    rw [hpend] at hrun
    cases hrun
  refine ⟨⟨job, hjob.after.1, hjob.after.2, rfl⟩, ?_, fun s hmem => ?_,
    fun u x hx hxs => hnot (h.held u x hx hxs).atRun, fun hs hout => hnot (h.out hs hout)⟩
  · obtain hnone | hsame := hs.owner job.id
    · exact hnone
    · rw [hsame]
      refine eq_none_iff_forall_ne_some.2 fun w hw => ?_
      obtain ⟨_, hrow', hrun⟩ := h.claimed hw
      cases hrow.symm.trans hrow'
      rw [hpend] at hrun
      cases hrun
  · have hlt := (h.sentPast hmem hrow).2 hpend
    exact absurd (show job.retryCount < row.retryCount from hlt) (by rw [hcount]; exact lt_irrefl _)

/-- **Dequeuing** jobs: the thread holds what it was handed out. -/
theorem Tenured.acquire (h : Tenured cfg st G) (s : σ) {jobs : List Job} (hop : op.gentle = true)
    (hnew : op.newIds = [])
    (hjobs : ∀ job ∈ jobs, HandedOut (cfg s).namespace_ st.db (op.exec st.db).2 job) :
    Tenured cfg { st with db := (op.exec st.db).2 }
      (update G t ((G t).acquire s (jobs.map Job.run))) := by
  have hshift : Shift [] [] st.db (op.exec st.db).2 := hnew ▸ Shift.gentle hop st.db
  have hstep : Tenured cfg { st with db := (op.exec st.db).2 } G :=
    h.gentle hop (.of_newIds hnew) (by simp [hnew])
  have hhand := fun job hjob => h.handedOut hshift (hjobs job hjob)
  refine hstep.gain (s := s) ?_ ?_ ?_ ?_
  · intro x hx
    obtain ⟨e, -, rfl⟩ := mem_map.1 hx
    rfl
  · intro x hx
    obtain ⟨e, he, rfl⟩ := mem_map.1 hx
    obtain ⟨job, hjob, rfl⟩ := mem_map.1 he
    obtain ⟨hat, howner, hsent, -⟩ := hhand job hjob
    refine ⟨hat, Or.inl howner, fun _ => hsent, fun _ {row} hrow => ?_, nofun⟩
    cases (hjobs job hjob).after.1.symm.trans hrow
    rw [(hjobs job hjob).namespace_eq]
    exact jobInNamespace_self _
  · refine ⟨fun u x hx hxs hk => ?_, fun {s' e} hs' hout hk => ?_⟩
    · simp only [List.map_map, List.mem_map] at hk
      obtain ⟨job, hjob, heq⟩ := hk
      exact (hhand job hjob).2.2.2.1 u x hx hxs heq.symm
    · simp only [List.map_map, List.mem_map] at hk
      obtain ⟨job, hjob, heq⟩ := hk
      exact (hhand job hjob).2.2.2.2 hs' hout heq.symm
  · intro x hx hxs hj
    obtain hj | hj := List.mem_append.1 hj
    · simp only [List.map_map, List.mem_map] at hj
      obtain ⟨job, hjob, heq⟩ := hj
      exact heq ▸ (hhand job hjob).2.1
    · obtain hx | hx := mem_append.1 hx
      · obtain ⟨_, he, rfl⟩ := mem_map.1 hx
        obtain ⟨job, hjob, rfl⟩ := mem_map.1 he
        exact (hhand job hjob).2.1
      · exact hstep.unclaimed t x hx hxs hj

/-- **Dropping a claim**: the job has none. -/
theorem Tenured.unclaim (h : Tenured cfg st G) (id : JobId) :
    Tenured cfg { st with db := ((StoreOp.deleteClaim id).exec st.db).2 }
      (update G t ((G t).unclaim id)) := by
  have hstep : Tenured cfg { st with db := ((StoreOp.deleteClaim id).exec st.db).2 } G :=
    h.gentle rfl (.of_newIds rfl) (by simp [StoreOp.newIds, StoreOp.entries])
  refine hstep.regrip (fun _ hx => hx) (fun x hx hxs hj => ?_) (hstep.orphans t) (hstep.dead t)
  obtain heq | hj := mem_cons.1 hj
  · rw [heq]
    exact (owner_deleteClaim id id st.db).trans (if_pos rfl)
  · exact hstep.unclaimed t x hx hxs hj

/-- **Learning about orphans** from a sweep that knows every scheduler that is running. -/
theorem Tenured.learn (h : Tenured cfg st G) {live : List String}
    (hlive : ∀ s, s ∉ st.stopped → (cfg s).claimOwner ∈ live) :
    Tenured cfg st (update G t { G t with
      orphans := (reapOrphanedJobs live ns st.db).map fun o => (o.1.run, o.2) }) := by
  refine h.regrip (fun _ hx => hx) (h.unclaimed t) (fun o ho => ?_) (h.dead t)
  obtain ⟨_, hp, rfl⟩ := mem_map.1 ho
  obtain ⟨-, hdead, row, hrow, hcount⟩ := orphans_spec hp
  refine ⟨fun s hs heq => hdead (heq ▸ hlive s hs), fun howner => ?_⟩
  obtain ⟨_, hrow', hrun⟩ := h.claimed howner
  cases hrow.symm.trans hrow'
  exact ⟨row, hrow, hrun, hcount⟩

/-- **Remembering** a job that was dead-lettered. -/
theorem Tenured.bury (h : Tenured cfg st G) {j : JobId}
    (hj : (st.db.archivedJobs.find j).isSome = true) :
    Tenured cfg st (update G t { G t with dead := some j }) :=
  h.regrip (fun _ hx => hx) (h.unclaimed t) (h.orphans t) fun _ hk => some.inj hk ▸ hj

theorem writeTransaction_error {α : Type} {body : Txn α} {e : QueueError}
    (h : (writeTransaction body db).1 = .error e) : (writeTransaction body db).2 = db := by
  obtain ⟨_, -, hw⟩ | ⟨_, _, -, hw⟩ := writeTransaction_cases body db
  · rw [hw]
  · rw [hw] at h
    cases h

omit [DecidableEq τ] in
/-- What the store answers is what the discipline expects. -/
theorem Tenured.expects_store (h : Tenured cfg st G) (hs : s ∉ st.stopped) (op : StoreOp) :
    (G t).expectsStore cfg s op (op.exec st.db).1 := by
  cases op with
  | getJob =>
    refine ⟨fun job hjob => getJob_id hjob, ?_⟩
    rintro rfl ⟨x, hx, rfl, rfl, hfresh⟩
    have hx' := h.held t x hx hs
    obtain ⟨_, hrow, -⟩ := hx'.atRun
    change (Flexiq.getJob x.run.job _ st.db).isSome = true
    rw [Flexiq.getJob, hrow]
    simp only [hx'.visible hfresh hrow, if_true, isSome_some]
  | dequeueBatch queue now ns max order =>
    rcases hr : (exec (.dequeueBatch queue now ns max order) st.db).1 with _ | _
    · trivial
    · obtain ⟨hnd, hjobs⟩ := dequeueBatch_handedOut hr
      refine ⟨hnd, fun job hjob => ?_⟩
      rintro ⟨x, hx, rfl, heq⟩
      have hshift : Shift [] (dequeueBatch queue now ns max order).newIds st.db
          ((dequeueBatch queue now ns max order).exec st.db).2 := .gentle rfl st.db
      exact (h.handedOut hshift (hjobs job hjob)).2.2.2.1 t x hx hs heq
  | _ => trivial

/-- **Every permitted transaction keeps the invariant.** -/
theorem Tenured.store (h : Tenured cfg st G) {why : Cause} (hs : s ∉ st.stopped)
    (hperm : (G t).permitsStore cfg s why op) (hfresh : op.Fresh st.db)
    (hnew : ∀ id ∈ op.newIds, ∀ p ∈ st.runs, p.2.job ≠ id)
    (hinf : (SchedOp.store s why op).Informed cfg st) :
    Tenured cfg { st with db := (op.exec st.db).2 }
      (update G t ((G t).nextStore s why op (op.exec st.db).1)) := by
  -- transactions without a holding
  have hplain : op.gentle = true →
      Tenured cfg { st with db := (op.exec st.db).2 } (update G t (G t)) := by
    intro hop
    rw [update_eq_self]
    exact h.gentle hop hfresh hnew
  have hfail : ∀ db', db' = st.db →
      Tenured cfg { st with db := db' } (update G t (G t)) := by
    rintro _ rfl
    rwa [update_eq_self]
  cases op with
  | complete id result ns now =>
    rcases hr : (exec (.complete id result ns now) st.db).1 with e | _
    · exact hfail _ (writeTransaction_error hr)
    · exact h.ending hs rfl hperm.1
  | completeBatch cs ns now =>
    rcases hr : (exec (.completeBatch cs ns now) st.db).1 with e | _
    · exact hfail _ (writeTransaction_error hr)
    · exact h.ending hs rfl hperm.1
  | markCancelled id ns now =>
    rcases hr : (exec (.markCancelled id ns now) st.db).1 with e | _
    · exact hfail _ (writeTransaction_error hr)
    · exact h.ending hs rfl hperm.1
  | deadLetter job dlqId error metadata count shed now =>
    rcases hr : (exec (.deadLetter job dlqId error metadata count shed now) st.db).1
      with e | _
    · exact hfail _ (writeTransaction_error hr)
    · have hstep : Tenured cfg
          { st with
            db := ((StoreOp.deadLetter job dlqId error metadata count shed now).exec st.db).2 }
          (update G t ((G t).drop [job.id])) := h.ending hs rfl hperm.1
      obtain ⟨x, hx, rfl, hid⟩ := hperm.1 job.id (by simp [StoreOp.settles, StoreOp.ends])
      obtain ⟨row, hrow, -⟩ := (h.held t x hx hs).atRun
      have hlive : st.db.Live job.id := hid ▸ isSome_iff_exists.2 ⟨row, hrow⟩
      obtain ⟨r, hr', -⟩ := archived_of_deadLetter hlive hr
      have hknow := hstep.bury (t := t) (isSome_iff_exists.2 ⟨r, hr'⟩)
      rw [update_self, update_idem] at hknow
      exact hknow
  | retry id next ns =>
    rcases hr : (exec (.retry id next ns) st.db).1 with e | _
    · exact hfail _ (writeTransaction_error hr)
    · exact h.retry hs (hperm.1 id (by simp [settles])) hr
  | reschedule id next =>
    rcases hr : (exec (.reschedule id next) st.db).1 with e | _
    · exact hfail _ (writeTransaction_error hr)
    · exact h.reschedule hs hperm.2.1 hperm.2.2 hr
  | claimExecution id worker now =>
    obtain ⟨rfl, hheld⟩ := hperm
    rcases hr : (exec (.claimExecution id (cfg s).claimOwner now) st.db).1 with e | _
    · exact hfail _ (writeTransaction_error hr)
    · exact h.claim hs (fun e he => ⟨id, by simp, he⟩) (by simpa using hheld)
  | claimExecutionBatch ids worker now =>
    obtain ⟨rfl, hheld⟩ := hperm
    rcases hr : (exec (.claimExecutionBatch ids (cfg s).claimOwner now) st.db).1 with e | _
    · exact hfail _ (writeTransaction_error hr)
    · exact h.claim hs (fun e he => he) hheld
  | reclaimExecution id expected worker now =>
    obtain ⟨rfl, e, rfl, rfl, horphan⟩ := hperm
    rcases hr : (exec (.reclaimExecution e.job expected (cfg s).claimOwner now) st.db).1
      with err | r
    · exact hfail _ (writeTransaction_error hr)
    · have hstep := h.rescue hs horphan hr
      cases r <;> exact hstep
  | deleteClaim id => exact h.unclaim id
  | reapOrphanedJobs live =>
    refine h.learn fun s' hs' => ?_
    by_cases heq : s' = s
    · subst heq
      exact hperm
    · exact hinf (s, live) rfl s' heq hs'
  | dequeue queue now ns order =>
    obtain ⟨-, rfl⟩ := hperm
    rcases hr : (exec (.dequeue queue now (cfg s).namespace_ order) st.db).1 with e | job
    · exact hplain rfl
    · rcases job with _ | job
      · exact hplain rfl
      · have hjob : ∀ j ∈ [job], HandedOut (cfg s).namespace_ st.db
            ((dequeue queue now (cfg s).namespace_ order).exec st.db).2 j := by
          simpa using dequeue_handedOut hr
        exact h.acquire s rfl rfl hjob
  | dequeueBatch queue now ns max order =>
    obtain ⟨-, rfl⟩ := hperm
    rcases hr : (exec (.dequeueBatch queue now (cfg s).namespace_ max order) st.db).1
      with e | jobs
    · exact hplain rfl
    · exact h.acquire s rfl rfl (dequeueBatch_handedOut hr).2
  | cascadeArchive => exact hplain rfl
  | _ => exact hplain hperm.1

/-! ## Every operation -/

variable [DecidableEq σ]

omit [DecidableEq τ] in
theorem Tenured.forget (h : Tenured cfg st G) (s : σ) (id : JobId) :
    Tenured cfg { st with inFlight := update st.inFlight s ((st.inFlight s).remove id) } G := by
  refine h.records fun s' e ⟨htrack, hsent⟩ => ⟨?_, hsent⟩
  by_cases hs' : s' = s
  · subst hs'
    simp only [SchedState.Tracks, update_self, InFlight.lookup_remove] at htrack ⊢
    split at htrack
    · cases htrack
    · exact htrack
  · simpa only [SchedState.Tracks, update_of_ne hs'] using htrack

omit [DecidableEq τ] in
/-- Recording a run before it is sent, or in order to handle it. -/
theorem Tenured.track (h : Tenured cfg st G) (hs : s ∉ st.stopped) {record : DispatchRecord}
    (hheld : ∃ x ∈ (G t).held, x.sched = s ∧ x.run = ⟨id, record.attempt⟩ ∧ x.stage ≠ .taken) :
    Tenured cfg { st with
      inFlight := update st.inFlight s ((st.inFlight s).insert id record) } G := by
  obtain ⟨x, hx, rfl, hrun, hstage⟩ := hheld
  have hx' := h.held t x hx hs
  refine h.records fun s' e ⟨htrack, hsent⟩ => ⟨?_, hsent⟩
  by_cases hs' : s' = x.sched
  · subst hs'
    simp only [SchedState.Tracks, update_self, InFlight.lookup_insert] at htrack ⊢
    split at htrack
    · next hid =>
      -- the run is not out: it was not sent
      have he : e = x.run := by
        rw [hrun]
        exact Execution.ext hid (some.inj htrack).symm
      rcases hst : x.stage with _ | _ | _
      · exact absurd (he ▸ hsent) (hx'.fresh hst x.sched)
      · exact absurd hst hstage
      · exact absurd (he ▸ hsent) (hx'.rescued hst)
    · exact htrack
  · simpa only [SchedState.Tracks, update_of_ne hs'] using htrack

/-- **Taking the record** of a run that is out: the thread holds the run. -/
theorem Tenured.takeRecord (h : Tenured cfg st G) (hs : s ∉ st.stopped) (hout : st.Out s e) :
    Tenured cfg { st with
      inFlight := update st.inFlight s ((st.inFlight s).remove e.job) }
      (update G t ((G t).take s e .taken)) := by
  have hstep := h.forget s e.job
  have hat := h.out hs hout
  refine hstep.gain (X := [⟨s, e, .taken⟩]) (s := s) (by simp) ?_ ?_ ?_
  · intro x hx
    cases mem_singleton.1 hx
    exact ⟨hat, h.sentOwner hout.2 hs hat, (nofun), (nofun),
      nofun⟩
  · refine ⟨fun u x hx hxs hk => ?_, fun {s' e'} hs' hout' hk => ?_⟩
    · exact h.heldOut u x hx hxs s e hs hout (mem_singleton.1 hk).symm
    · -- nobody else has the job out, and this scheduler has just forgotten it
      have hjob : e'.job = e.job := mem_singleton.1 hk
      by_cases heq : s' = s
      · subst heq
        have htrack := hout'.1
        simp only [SchedState.Tracks, update_self, InFlight.lookup_remove, hjob] at htrack
        simp at htrack
      · have htrack := hout'.1
        simp only [SchedState.Tracks, update_of_ne heq] at htrack
        exact heq (h.outOnce hs' hs ⟨htrack, hout'.2⟩ hout hjob)
  · intro x hx hxs hj
    obtain ⟨hmem, hne⟩ := mem_filter.1 hj
    obtain rfl | hx := mem_cons.1 hx
    · exact absurd rfl (of_decide_eq_true hne)
    · exact hstep.unclaimed t x hx hxs hmem

/-- **Every permitted operation** answers as expected and keeps the invariant. -/
theorem Tenured.step (h : Tenured cfg st G) {op : SchedOp σ} (w : World)
    (hperm : (tenureDiscipline cfg).permits (G t) op) (hstop : ∀ s ∈ op.sched, s ∉ st.stopped)
    (hnew : op.NeverUsed st) (hatt : op.Attested st) (hinf : op.Informed cfg st) :
    (tenureDiscipline cfg).expects (G t) op (op.exec w st).1 ∧
      Tenured cfg (op.exec w st).2
        (update G t ((tenureDiscipline cfg).next (G t) op (op.exec w st).1)) := by
  -- operations that change nothing the thread holds
  have hkeep : ∀ {st' : SchedState σ}, Tenured cfg st' G →
      Tenured cfg st' (update G t (G t)) := by
    intro _ _
    rwa [update_eq_self]
  cases op with
  | client o =>
    obtain ⟨hfresh, hids⟩ := hnew o rfl
    exact ⟨trivial, hkeep (h.gentle hperm hfresh hids)⟩
  | store s why o =>
    obtain ⟨hfresh, hids⟩ := hnew o rfl
    simp only [SchedOp.exec]
    split
    · exact ⟨trivial, hkeep h⟩
    · exact ⟨h.expects_store (hstop s rfl) o, h.store (hstop s rfl) hperm hfresh hids hinf⟩
  | releaseInFlight s why =>
    obtain ⟨e, hexec, rfl⟩ := hperm
    have hs := hstop s rfl
    by_cases hneeds : why.needsRecord = true
    · have hout := hatt (s, e) (by simp [SchedOp.takes, hneeds, hexec])
      obtain ⟨record, hrecord, -⟩ := map_eq_some_iff.1 hout.1
      have htake := h.takeRecord (t := t) hs hout
      simp only [SchedOp.exec, hrecord]
      refine ⟨fun _ => ⟨rfl, ?_⟩, ?_⟩
      · rintro ⟨x, hx, rfl, heq⟩
        exact h.heldOut t x hx hs x.sched e hs hout heq.symm
      cases why with
      | results es =>
        obtain rfl : es = [e] := hexec
        exact htake
      | reap e' =>
        obtain rfl : e' = e := List.cons.inj hexec |>.1
        exact htake
      | loop => cases hneeds
      | rescue => cases hneeds
    · refine ⟨fun hn => absurd hn hneeds, ?_⟩
      have hforget := hkeep (h.forget s e.job)
      cases why with
      | results | reap => exact absurd rfl hneeds
      | loop => cases hexec
      | rescue =>
        simp only [SchedOp.exec]
        rcases (st.inFlight s).lookup e.job with _ | _ <;> exact hforget
  | trackInFlight s => exact ⟨trivial, hkeep (h.track (hstop s rfl) hperm)⟩
  | untrackInFlight s id => exact ⟨trivial, hkeep (h.forget s id)⟩
  | trySend s job =>
    refine ⟨trivial, ?_⟩
    simp only [SchedOp.exec]
    rcases hw : w.flag with _ | _
    · exact hkeep h
    · have hs := hstop s rfl
      have hx := h.held t _ hperm hs
      refine (h.weaken ((G t).drop_le [job.id])).send (h.free_drop fun k hk => ?_) hx.atRun hx.owner
      cases mem_singleton.1 hk
      exact ⟨_, hperm, hs, rfl⟩
  | stop s => exact ⟨trivial, hkeep (h.stop s)⟩
  | _ => exact ⟨trivial, hkeep h⟩

end

end Flexiq
