import Flexiq.Cap

/-!
# Deciding jobs under a cap

The discipline behind `Capped`. A dispatcher may dequeue before it counts, give back or dead-letter
what it dequeued, and send an undecided job when its count, lowered by the jobs before it, is within
the cap. A handler may finish jobs that were sent.

`Capped.step` is the soundness of it. The one thing it needs of the world is that no reaper and no
retry acts on a job of the lane (`SchedOp.Undisturbed`).
-/

namespace Flexiq

open Function List Option StoreOp

variable {id : JobId} {ns' : Option String} {op : StoreOp}

/-- The thread may finish the jobs, or give them back: a dispatcher those it dequeued, a handler
those that were sent. -/
def Tally.MaySettle (g : Tally) (why : Cause) (ids : List JobId) : Prop :=
  match why with
  | .loop => ∀ id ∈ ids, id ∈ g.undecided.map Job.id ∨ id ∈ g.others
  | .results _ => ids ⊆ g.known
  | .reap _ | .rescue _ => True

/-- Which transactions a thread may run. -/
def Tally.permitsStore (g : Tally) (why : Cause) (op : StoreOp) : Prop :=
  match op with
  | .retry _ _ _ | .claimExecution _ _ _ | .claimExecutionBatch _ _ _
  | .reclaimExecution _ _ _ _ => True
  | .complete _ _ _ _ | .completeBatch _ _ _ | .markCancelled _ _ _ =>
    why ≠ .loop ∧ g.MaySettle why op.ends
  | .deadLetter _ _ _ _ _ _ _ => g.MaySettle why op.ends
  | .reschedule id _ => why = .loop ∧ g.MaySettle why [id]
  | .dequeue _ _ _ _ | .dequeueBatch _ _ _ _ _ => g.count = none
  | op => op.gentle = true

/-- The tally after a transaction. -/
def Tally.nextStore (lane : Lane) (ns : Option String) (g : Tally) (why : Cause) :
    (op : StoreOp) → op.Res → Tally
  | .dequeue _ _ _ _, .ok (some job) => g.take lane ns [job]
  | .dequeueBatch _ _ _ _ _, .ok jobs => g.take lane ns jobs
  | .reschedule id _, .ok _ => g.giveBack id
  | .deadLetter job _ _ _ _ _ _, .ok _ => if why = .loop then g.giveBack job.id else g
  | .countRunningByTask name ns', (n : Nat) =>
    if lane = .task name ∧ ns' = ns then { g with count := some (n : Int) } else g
  | .countRunningByQueue name ns', (n : Nat) =>
    if lane = .queue name ∧ ns' = ns then { g with count := some (n : Int) } else g
  | _, _ => g

/-- The job is none the thread has dequeued already. -/
def Tally.New (lane : Lane) (ns : Option String) (g : Tally) (job : Job) : Prop :=
  job.id ∉ g.undecided.map Job.id ∧ (lane.counts ns job = true → job.id ∉ g.others)

/-- What a transaction can answer. -/
def Tally.expectsStore (lane : Lane) (ns : Option String) (g : Tally) :
    (op : StoreOp) → op.Res → Prop
  | .getJob id _, r => ∀ job ∈ r, job.id = id
  | .dequeue _ _ ns' _, .ok (some job) => job.namespace_ = ns' ∧ g.New lane ns job
  | .dequeueBatch _ _ ns' _ _, .ok jobs =>
    (jobs.map Job.id).Nodup ∧ ∀ job ∈ jobs, job.namespace_ = ns' ∧ g.New lane ns job
  | _, _ => True

/-- The count lets the thread send the job. -/
def Tally.MaySend (cap : Int) (g : Tally) (job : Job) : Prop :=
  job ∈ g.undecided ∧ ∃ c, g.count = some c ∧ c - (g.ahead job.id).length ≤ cap

/-- Jobs are decided under the cap. -/
def capDiscipline (σ : Type) (lane : Lane) (ns : Option String) (cap : Int) :
    Discipline (schedSig σ) Tally where
  permits g
    | .client op => op.gentle = true
    | .store _ why op => g.permitsStore why op
    | .trySend _ job =>
      if lane.counts ns job = true then g.MaySend cap job else job.id ∈ g.others
    | _ => True
  expects g
    | .store _ _ op, some r => g.expectsStore lane ns op r
    | _, _ => True
  next g
    | .store _ why op, some r => g.nextStore lane ns why op r
    | .trySend _ job, true => if lane.counts ns job = true then g.send job.id else g
    | _, _ => g
  done _ := True

section

variable {σ : Type} (lane : Lane) (ns : Option String)

/-- The jobs that an operation retries, or settles on behalf of a reaper. -/
def SchedOp.disturbs : SchedOp σ → List JobId
  | .store _ why op =>
    match why, op with
    | .reap _, op | .rescue _, op => op.settles
    | _, .retry id _ _ => [id]
    | _, _ => []
  | _ => []

/-- No reaper and no retry acts on a job of the lane. -/
abbrev SchedOp.Undisturbed (p : Job → Bool) (st : SchedState σ) (op : SchedOp σ) : Prop :=
  ∀ id ∈ op.disturbs, ∀ row ∈ st.db.jobs.find id, p row = false

end

/-! ## Transactions -/

section

variable {σ τ : Type} {lane : Lane} {ns : Option String} {cap : Int} {st : SchedState σ}
  {G : τ → Tally}

namespace Capped

section

variable (h : Capped lane ns cap st G)
include h

theorem gentle (hop : op.gentle = true) (hfresh : op.Fresh st.db)
    (hnew : ∀ id ∈ op.newIds, ∀ p ∈ st.runs, p.2.job ≠ id) :
    Capped lane ns cap { st with db := (op.exec st.db).2 } G := by
  refine h.spares (Shift.gentle hop st.db).spares (fun hk => hk.exec ?_) (fun k hk => ⟨?_, ?_⟩)
    (by simp) (by simp)
  · rintro p rfl
    cases hop
  · intro hsent
    obtain ⟨p, hp, rfl⟩ := mem_map.1 hsent
    exact hnew _ hk (p.1, p.2.run) (mem_map_of_mem hp) rfl
  · obtain ⟨hlive, harch⟩ := hfresh k hk
    simp [Db.Has, hlive, harch]

theorem claims {db' : Db} {ids : List JobId} {previous : Option String} {worker : String}
    (hc : Claims ids previous worker st.db db') : Capped lane ns cap { st with db := db' } G := by
  refine h.spares hc.spares (fun {k} hk => ?_) (by simp) (by simp) (by simp)
  rw [Db.Has, hc.rest]
  exact hk

/-- **Finishing** jobs that nobody has to decide. -/
theorem ending (hop : op.isEnding = true) (hfree : ∀ t, ∀ job ∈ (G t).undecided, job.id ∉ op.ends) :
    Capped lane ns cap { st with db := (op.exec st.db).2 } G := by
  refine h.spares (Shift.ended hop st.db).spares (fun hk => hk.exec ?_) (by simp)
    (fun t job hjob hmem => hfree t job hjob (op.ended_subset st.db hmem)) fun k hk row' hrow => ?_
  · rintro _ rfl
    cases hop
  · rw [(ended_gone hop hk).1] at hrow
    cases hrow

theorem back {row row' : Job} (hop : ∀ p, op ≠ .purgeArchived p)
    (hshift : Shift [id] [] st.db (op.exec st.db).2) (hrow : st.db.jobs.find id = some row)
    (hrow' : (op.exec st.db).2.jobs.find id = some row')
    (hsame : lane.counts ns row' = lane.counts ns row)
    (hfree : ∀ t, ∀ job ∈ (G t).undecided, job.id ≠ id)
    (hsent : id ∈ st.sentIds → lane.counts ns row = false) :
    Capped lane ns cap { st with db := (op.exec st.db).2 } G := by
  refine h.spares hshift.spares (fun hk => hk.exec hop) (by simp)
    (fun t job hjob hmem => hfree t job hjob (mem_singleton.1 hmem)) fun k hk r hr => ?_
  cases mem_singleton.1 hk
  cases hrow'.symm.trans hr
  exact ⟨⟨row, hrow, hsame⟩, fun hmem => hsame.trans (hsent hmem)⟩

/-- **Retrying** a job that the lane does not count. -/
theorem retry {next : Int} (hnot : ∀ row ∈ st.db.jobs.find id, lane.counts ns row = false) :
    Capped lane ns cap { st with db := ((StoreOp.retry id next ns').exec st.db).2 } G := by
  obtain ⟨hsame, -⟩ | ⟨-, hshift, -, row, hrow, hrow'⟩ := retry_shift id next ns' st.db
  · rwa [hsame]
  · refine h.back (by simp) hshift hrow hrow' (by cases lane <;> rfl)
      (fun t job hjob heq => ?_) fun _ => hnot row hrow
    obtain ⟨-, row', hfind, -, hcounts⟩ := h.undecided t job hjob
    rw [hnot row' (heq ▸ hfind)] at hcounts
    cases hcounts

end

variable [DecidableEq τ]

theorem free_giveBack (h : Capped lane ns cap st G) {t : τ}
    (hid : id ∈ (G t).undecided.map Job.id ∨ id ∈ (G t).others) :
    ∀ u, ∀ job ∈ (update G t ((G t).giveBack id) u).undecided, job.id ≠ id := by
  intro u job hjob heq
  subst heq
  by_cases hu : u = t
  · subst hu
    rw [update_self, Tally.giveBack] at hjob
    split at hjob
    · exact of_decide_eq_true (mem_filter.1 hjob).2 rfl
    · next hmem => exact hmem (mem_map_of_mem hjob)
  · rw [update_of_ne hu] at hjob
    obtain hid | hid := hid
    · obtain ⟨job', hjob', heq⟩ := mem_map.1 hid
      exact hu (h.once u t job hjob job' hjob' heq.symm)
    · exact h.not_others hjob hid

/-- **Giving back** a job that was dequeued. -/
theorem reschedule (h : Capped lane ns cap st G) {t : τ} {next : Int}
    (hid : id ∈ (G t).undecided.map Job.id ∨ id ∈ (G t).others) :
    Capped lane ns cap { st with db := ((StoreOp.reschedule id next).exec st.db).2 }
      (update G t ((G t).giveBack id)) := by
  have hle := Tally.giveBack_le cap (h.nodup t) id
  obtain ⟨hsame, -⟩ | ⟨-, hshift, row, hrow, hrow'⟩ := reschedule_shift id next st.db
  · rw [hsame]
    exact h.weaken hle
  · refine (h.weaken hle).back (by simp) hshift hrow hrow' (by cases lane <;> rfl)
      (h.free_giveBack hid) fun hsent => ?_
    obtain hid | hid := hid
    · obtain ⟨job, hjob, rfl⟩ := mem_map.1 hid
      exact absurd hsent (h.undecided t job hjob).1
    · exact (h.others t id hid).2 row hrow

omit [DecidableEq τ] in
/-- A job that is handed out was pending: nobody had to decide it, and if the lane counts it, it
was not sent. -/
theorem handedOut (h : Capped lane ns cap st G) {db' : Db} (hs : Shift [] [] st.db db')
    {job : Job} (hjob : HandedOut ns' st.db db' job) :
    (lane.counts ns job = true → job.id ∉ st.sentIds ∧ ∀ u, job.id ∉ (G u).others) ∧
      ∀ u, ∀ job' ∈ (G u).undecided, job'.id ≠ job.id := by
  obtain ⟨row, hrow, hpend⟩ := hjob.before
  refine ⟨fun hcounts => ?_, fun u job' hjob' heq => ?_⟩
  · have hsame : lane.counts ns row = true := by
      obtain hnew | ⟨row', hrow', hsame, -⟩ := hs.origin (by simp) hjob.after.1
      · cases hnew
      · cases hrow.symm.trans hrow'
        exact (lane.counts_congr ns hsame).symm.trans hcounts
    refine ⟨fun hsent => ?_, fun u hmem => ?_⟩
    · have hrun := h.sent job.id hsent row hrow hsame
      rw [hpend] at hrun
      cases hrun
    · have hnot := (h.others u _ hmem).2 row hrow
      rw [hsame] at hnot
      cases hnot
  · obtain ⟨-, row', hrow', hrun, -⟩ := h.undecided u job' hjob'
    rw [heq] at hrow'
    cases hrow.symm.trans hrow'
    rw [hpend] at hrun
    cases hrun

/-- **Dequeuing**: the thread has to decide what it was handed out. -/
theorem dequeue (h : Capped lane ns cap st G) {t : τ} {jobs : List Job} (hop : op.gentle = true)
    (hnew : op.newIds = []) (hcount : (G t).count = none) (hnodup : (jobs.map Job.id).Nodup)
    (hjobs : ∀ job ∈ jobs, HandedOut ns' st.db (op.exec st.db).2 job) :
    Capped lane ns cap { st with db := (op.exec st.db).2 }
      (update G t ((G t).take lane ns jobs)) := by
  have hshift : Shift [] [] st.db (op.exec st.db).2 := hnew ▸ .gentle hop st.db
  have hstep : Capped lane ns cap { st with db := (op.exec st.db).2 } G :=
    h.gentle hop (.of_newIds hnew) (by simp [hnew])
  exact hstep.acquire hcount hnodup (fun job hjob => (hjobs job hjob).after)
    (fun job hjob hcounts => ((h.handedOut hshift (hjobs job hjob)).1 hcounts).1)
    fun job hjob => (h.handedOut hshift (hjobs job hjob)).2

omit [DecidableEq τ] in
theorem expects_store (h : Capped lane ns cap st G) (t : τ) (op : StoreOp) :
    (G t).expectsStore lane ns op (op.exec st.db).1 := by
  -- a job that is handed out is none the thread already has
  have hfresh : ∀ {job : Job} {db' : Db} {ns' : Option String}, Shift [] [] st.db db' →
      HandedOut ns' st.db db' job → job.namespace_ = ns' ∧ (G t).New lane ns job := by
    intro job _ ns' hs hjob
    refine ⟨hjob.namespace_eq, fun hmem => ?_, fun hcounts => ((h.handedOut hs hjob).1 hcounts).2 t⟩
    obtain ⟨job', hjob', heq⟩ := mem_map.1 hmem
    exact (h.handedOut hs hjob).2 t job' hjob' heq
  cases op with
  | getJob => exact fun job hjob => getJob_id hjob
  | dequeue queue now ns' order =>
    rcases hr : (exec (.dequeue queue now ns' order) st.db).1 with _ | job
    · trivial
    · rcases job with _ | job
      · trivial
      · have hs : Shift [] (StoreOp.dequeue queue now ns' order).newIds st.db
            ((StoreOp.dequeue queue now ns' order).exec st.db).2 := Shift.gentle rfl st.db
        exact hfresh hs (dequeue_handedOut hr)
  | dequeueBatch queue now ns' max order =>
    rcases hr : (exec (.dequeueBatch queue now ns' max order) st.db).1 with _ | _
    · trivial
    · obtain ⟨hnd, hjobs⟩ := dequeueBatch_handedOut hr
      have hs : Shift [] (dequeueBatch queue now ns' max order).newIds st.db
          ((dequeueBatch queue now ns' max order).exec st.db).2 := .gentle rfl st.db
      exact ⟨hnd, fun job hjob => hfresh hs (hjobs job hjob)⟩
  | _ => trivial

variable {t : τ} {s : σ} {why : Cause}

omit [DecidableEq τ] in
theorem free_ends (h : Capped lane ns cap st G) (hwhy : why ≠ .loop) (hop : op.isEnding = true)
    (hperm : (G t).MaySettle why op.ends)
    (hcalm : (SchedOp.store s why op).Undisturbed (lane.counts ns) st) :
    ∀ u, ∀ job ∈ (G u).undecided, job.id ∉ op.ends := by
  intro u job hjob hmem
  obtain ⟨hsent, row, hrow, -, hcounts⟩ := h.undecided u job hjob
  have hsettles : job.id ∈ op.settles := by cases op <;> first | exact hmem | cases hop
  have hreaped : job.id ∈ (SchedOp.store s why op).disturbs → False := by
    intro hdist
    rw [hcalm job.id hdist row hrow] at hcounts
    cases hcounts
  cases why with
  | loop => exact hwhy rfl
  | results => exact hsent (h.known t (hperm hmem))
  | reap | rescue => exact hreaped hsettles

/-- **Every permitted transaction keeps the invariant.** -/
theorem store (h : Capped lane ns cap st G) (hperm : (G t).permitsStore why op)
    (hfresh : op.Fresh st.db) (hnew : ∀ id ∈ op.newIds, ∀ p ∈ st.runs, p.2.job ≠ id)
    (hcalm : (SchedOp.store s why op).Undisturbed (lane.counts ns) st) :
    Capped lane ns cap { st with db := (op.exec st.db).2 }
      (update G t ((G t).nextStore lane ns why op (op.exec st.db).1)) := by
  -- transactions that leave the tally as it is
  have hkeep : ∀ {st' : SchedState σ}, Capped lane ns cap st' G →
      Capped lane ns cap st' (update G t (G t)) := by
    intro _ _
    rwa [update_eq_self]
  have hplain : op.gentle = true →
      Capped lane ns cap { st with db := (op.exec st.db).2 } (update G t (G t)) :=
    fun hop => hkeep (h.gentle hop hfresh hnew)
  have hends : why ≠ .loop → op.isEnding = true → (G t).MaySettle why op.ends →
      Capped lane ns cap { st with db := (op.exec st.db).2 } (update G t (G t)) :=
    fun hwhy hop hsettle => hkeep (h.ending hop (h.free_ends hwhy hop hsettle hcalm))
  cases op with
  | complete | completeBatch | markCancelled =>
    exact hends hperm.1 rfl hperm.2
  | deadLetter job dlqId error metadata count shed now =>
    rcases hr : (exec (.deadLetter job dlqId error metadata count shed now) st.db).1
      with e | _
    · have hsame : (exec (.deadLetter job dlqId error metadata count shed now) st.db).2 =
          st.db := writeTransaction_error hr
      rw [hsame]
      exact hkeep h
    · by_cases hwhy : why = .loop
      · subst hwhy
        have hid := hperm job.id mem_cons_self
        have hfree := h.free_giveBack hid
        refine (h.weaken (Tally.giveBack_le cap (h.nodup t) job.id)).ending rfl
          fun u j hj hmem => ?_
        exact hfree u j hj (mem_singleton.1 hmem)
      · simp only [Tally.nextStore, if_neg hwhy]
        exact hends hwhy rfl hperm
  | retry id =>
    refine hkeep (h.retry fun row hrow => hcalm id ?_ row hrow)
    cases why <;> exact mem_cons_self
  | reschedule id next =>
    obtain ⟨rfl, hid⟩ := hperm
    rcases hr : (exec (.reschedule id next) st.db).1 with e | _
    · have hsame : (exec (.reschedule id next) st.db).2 = st.db := writeTransaction_error hr
      rw [hsame]
      exact hkeep h
    · exact h.reschedule (hid id mem_cons_self)
  | claimExecution id worker now =>
    have hc : Claims [id] none worker st.db ((StoreOp.claimExecution id worker now).exec st.db).2 :=
      Claims.exec st.db fun _ he => ⟨id, mem_cons_self, he⟩
    exact hkeep (h.claims hc)
  | claimExecutionBatch => exact hkeep (h.claims (Claims.exec st.db fun _ he => he))
  | reclaimExecution id expected worker now =>
    have hc : Claims [id] (some expected) worker st.db
        ((StoreOp.reclaimExecution id expected worker now).exec st.db).2 :=
      Claims.exec st.db fun _ he => ⟨id, mem_cons_self, he⟩
    exact hkeep (h.claims hc)
  | dequeue queue now ns' order =>
    rcases hr : (exec (.dequeue queue now ns' order) st.db).1 with e | job
    · exact hplain rfl
    · rcases job with _ | job
      · exact hplain rfl
      · have hjob : ∀ j ∈ [job], HandedOut ns' st.db
            ((StoreOp.dequeue queue now ns' order).exec st.db).2 j := by
          simpa using dequeue_handedOut hr
        exact h.dequeue rfl rfl hperm (nodup_singleton _) hjob
  | dequeueBatch queue now ns' max order =>
    rcases hr : (exec (.dequeueBatch queue now ns' max order) st.db).1 with _ | _
    · exact hplain rfl
    · obtain ⟨hnd, hjobs⟩ := dequeueBatch_handedOut hr
      exact h.dequeue rfl rfl hperm hnd hjobs
  | countRunningByTask | countRunningByQueue =>
    simp only [Tally.nextStore]
    split
    · next hlane =>
      obtain ⟨rfl, rfl⟩ := hlane
      refine h.load (Table.count_le_count fun {k row} hrow hp => ⟨row, hrow, ?_⟩)
      obtain ⟨hcounts, hrun⟩ := of_decide_eq_true hp
      simp only [Lane.counts, Lane.covers, Bool.and_eq_true, decide_eq_true_iff] at hcounts
      exact decide_eq_true ⟨hcounts.1, hrun, hcounts.2 ▸ jobInNamespace_self _⟩
    · exact hplain rfl
  | _ => exact hplain hperm

/-! ## Every operation -/

/-- **Every permitted operation** answers as expected and keeps the invariant. -/
theorem step [DecidableEq σ] (h : Capped lane ns cap st G) {op : SchedOp σ} (w : World)
    (hperm : (capDiscipline σ lane ns cap).permits (G t) op) (hnew : op.NeverUsed st)
    (hcalm : op.Undisturbed (lane.counts ns) st) :
    (capDiscipline σ lane ns cap).expects (G t) op (op.exec w st).1 ∧
      Capped lane ns cap (op.exec w st).2
        (update G t ((capDiscipline σ lane ns cap).next (G t) op (op.exec w st).1)) := by
  have hkeep : ∀ {st' : SchedState σ}, Capped lane ns cap st' G →
      Capped lane ns cap st' (update G t (G t)) := by
    intro _ _
    rwa [update_eq_self]
  -- the in-flight tables are not part of the invariant
  have hmemory : ∀ f stopped, Capped lane ns cap ⟨st.db, f, st.sent, stopped⟩ G := fun _ _ =>
    ⟨h.undecided, h.once, h.nodup, h.others, h.known, h.sent, h.within⟩
  cases op with
  | client o =>
    obtain ⟨hfresh, hids⟩ := hnew o rfl
    exact ⟨trivial, hkeep (h.gentle hperm hfresh hids)⟩
  | store s why o =>
    obtain ⟨hfresh, hids⟩ := hnew o rfl
    simp only [SchedOp.exec]
    split
    · exact ⟨trivial, hkeep h⟩
    · exact ⟨h.expects_store t o, h.store hperm hfresh hids hcalm⟩
  | trySend s =>
    refine ⟨trivial, ?_⟩
    simp only [SchedOp.exec]
    rcases hw : w.flag with _ | _
    · exact hkeep h
    · simp only [capDiscipline] at hperm ⊢
      split at hperm
      · next hcounts =>
        obtain ⟨hjob, c, hcount, hle⟩ := hperm
        rw [if_pos hcounts]
        exact h.send hjob hcount hle s
      · next hcounts =>
        rw [if_neg hcounts]
        exact hkeep (h.send_other hperm s)
  | releaseInFlight | trackInFlight | untrackInFlight | stop =>
    exact ⟨trivial, hkeep (hmemory _ _)⟩
  | _ => exact ⟨trivial, hkeep h⟩

end Capped

end

end Flexiq
