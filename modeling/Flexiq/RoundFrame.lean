import Flexiq.AttemptFence

/-!
# What one dispatch round does to the store

The transactions of a dispatch round **cannot fail by themselves**: from a partitioned store a
dequeue, a dead-lettering under a fresh id, a cascade and the reschedule of a running job all
commit, so the only errors a round meets are those the world injects.

And they are **local**. Of the dependency edges and of the jobs that block their dependents they
change nothing (`Still`), a dequeue starts exactly the jobs it answers and none of them waits for
another (`Starts`), and each other transaction leaves all but the jobs it names as they are.
-/

namespace Flexiq

open List Table

variable {row : Job} {queue : String} {ns : Option String} {cs : List Job} {now : Int}
  {op : StoreOp} {k : JobId}

/-! ## Transactions that cannot fail -/

variable {db : Db} {dlqId : String} {job : Job}

section

variable (hp : Partition db)
include hp

/-- A live job can be archived: its id is not in the archive. -/
theorem Partition.archiveJobRow_ok (final : Job) (hrow : db.jobs.find final.id = some row) :
    ∃ db', archiveJobRow final db = .ok db' := by
  have hfresh : db.archivedJobs.find (archivedJobsSchema.key final.toArchived) = none :=
    hp.disjoint hrow
  obtain ⟨_, hins⟩ := insert_of_fresh hfresh rfl
  exact ⟨_, by rw [archiveJobRow, hins]⟩

/-- One pass of the dequeue loop commits, and keeps the partition. -/
theorem Partition.claimCandidate_ok {c : Job} (now : Int) (hc : Candidate queue ns db c) :
    ∃ r db', claimCandidate now c db = .ok (r, db') ∧ Partition db' := by
  have hpart : ∀ {r db'}, claimCandidate now c db = .ok (r, db') → Partition db' := by
    intro r db' h
    refine (claimCandidate_effects hc h).invariant (P := Partition) (fun e _ _ he hs hmid => ?_) hp
    obtain ⟨row, -, -, -, rfl | rfl⟩ := he
    · exact hmid.of_effect (e := .claimRun row now) trivial (nofun) hs
    · exact hmid.of_effect (e := .archive row (row.expiredBeforeExecution now)) ⟨rfl, rfl⟩
        (nofun) hs
  suffices h : ∃ r db', claimCandidate now c db = .ok (r, db') by
    obtain ⟨r, db', h⟩ := h
    exact ⟨r, db', h, hpart h⟩
  obtain ⟨full, hfull, hn⟩ := hc.scanned
  have hid : full.id = c.id := find_key hfull
  unfold claimCandidate
  rw [hfull]
  split
  · obtain ⟨db', ha⟩ := hp.archiveJobRow_ok (full.expiredBeforeExecution now)
      (show db.jobs.find full.id = some full by rw [hid]; exact hfull)
    refine ⟨none, db', ?_⟩
    dsimp only
    rw [show archiveJobRow { full with
        status := .cancelled
        completedAt := some now
        error := some "expired before execution" } db = .ok db' from ha]
    rfl
  · split
    · exact ⟨none, db, rfl⟩
    · split
      · exact ⟨none, db, rfl⟩
      · have hpend : full.status = .pending := by
          have hs : full.narrow.status = c.status := congrArg Job.status hn
          exact hs.trans hc.pending
        have hclaimed := find_claimPending now (hid.symm ▸ hfull) hpend c.id
        rw [hid, if_pos rfl] at hclaimed
        dsimp only
        rw [hclaimed]
        exact ⟨_, _, rfl⟩

theorem Partition.claimFirst_ok (now : Int) (hcs : ∀ c ∈ cs, Candidate queue ns db c)
    (hnd : (cs.map Job.id).Nodup) :
    ∃ r, claimFirst now cs db = .ok r := by
  induction cs generalizing db with
  | nil => exact ⟨_, rfl⟩
  | cons c rest ih =>
    have hc := hcs c (by simp)
    obtain ⟨r, _, h₁, hp₁⟩ := hp.claimCandidate_ok now hc
    rw [map_cons, nodup_cons] at hnd
    rw [claimFirst, h₁]
    cases r with
    | some => exact ⟨_, rfl⟩
    | none =>
      refine ih hp₁ (fun c' hc' => ?_) hnd.2
      have hne : c'.id ≠ c.id := fun e => hnd.1 (e ▸ mem_map_of_mem hc')
      exact hc.of_pass (hcs c' (by simp [hc'])) hne h₁

theorem Partition.claimUpTo_ok (now : Int) (max : Nat) (hcs : ∀ c ∈ cs, Candidate queue ns db c)
    (hnd : (cs.map Job.id).Nodup) :
    ∃ r, claimUpTo now max cs db = .ok r := by
  induction cs generalizing db max with
  | nil => cases max <;> exact ⟨_, rfl⟩
  | cons c rest ih =>
    cases max with
    | zero => exact ⟨_, rfl⟩
    | succ max =>
      have hc := hcs c (by simp)
      obtain ⟨r, db₁, h₁, hp₁⟩ := hp.claimCandidate_ok now hc
      rw [map_cons, nodup_cons] at hnd
      have hrest : ∀ c' ∈ rest, Candidate queue ns db₁ c' := by
        intro c' hc'
        have hne : c'.id ≠ c.id := fun e => hnd.1 (e ▸ mem_map_of_mem hc')
        exact hc.of_pass (hcs c' (by simp [hc'])) hne h₁
      rw [claimUpTo, h₁]
      cases r with
      | some job =>
        obtain ⟨⟨claimed, db₂⟩, h₂⟩ := ih hp₁ max hrest hnd.2
        exact ⟨(job :: claimed, db₂), by simp [bind, Except.bind, h₂, pure, Except.pure]⟩
      | none => exact ih hp₁ (max + 1) hrest hnd.2

/-- A transaction whose body succeeds answers with its result. -/
theorem Partition.dequeue_ok (queue : String) (now : Int) (ns : Option String)
    (order : DispatchOrder) : ∃ r, ((StoreOp.dequeue queue now ns order).exec db).1 = .ok r := by
  obtain ⟨⟨r, _⟩, h⟩ := hp.claimFirst_ok now candidate_of_scan
    (scanDequeueCandidates_nodup queue now ns 100 order db)
  exact ⟨r, congrArg Prod.fst (writeTransaction_ok (dequeueOrdered queue now ns order) h)⟩

theorem Partition.dequeueBatch_ok (queue : String) (now : Int) (ns : Option String) (max : Nat)
    (order : DispatchOrder) :
    ∃ r, ((StoreOp.dequeueBatch queue now ns max order).exec db).1 = .ok r := by
  obtain ⟨⟨r, _⟩, h⟩ := hp.claimUpTo_ok now max candidate_of_scan
    (scanDequeueCandidates_nodup queue now ns (min (max * 4) 400) order db)
  exact ⟨r, congrArg Prod.fst
    (writeTransaction_ok (dequeueBatchOrdered queue now ns max order) h)⟩

theorem Partition.deadLetter_ok (hfresh : db.deadLetter.find dlqId = none) (job : Job)
    (error : String) (metadata : Option String) (count : Int) (shed : Bool) (now : Int) :
    ((StoreOp.deadLetter job dlqId error metadata count shed now).exec db).1 = .ok () := by
  obtain ⟨entries, hins⟩ := insert_of_fresh (t := db.deadLetter)
    (r := job.toDeadLetter dlqId error metadata count shed now) hfresh rfl
  suffices h : ∃ db', deadLetter job dlqId error metadata count shed now db = .ok ((), db') by
    obtain ⟨db', h⟩ := h
    exact congrArg Prod.fst (writeTransaction_ok _ h)
  unfold deadLetter
  rw [hins]
  dsimp only
  split
  · exact ⟨_, rfl⟩
  · next row hrow =>
    have hp' : Partition { db with deadLetter := entries } := hp.of_eq rfl rfl rfl
    have hid : row.id = job.id := find_key hrow
    obtain ⟨db', ha⟩ := hp'.archiveJobRow_ok
      { row with status := .dead, error := some error, completedAt := some now }
      (show db.jobs.find row.id = some row by rw [hid]; exact hrow)
    exact ⟨db', by rw [ha]; rfl⟩

theorem Partition.archivePendingRows_ok (now : Int) (error : String) {rows : List Job}
    (hlive : ∀ r ∈ rows, db.jobs.find r.id = some r) (hnd : (rows.map Job.id).Nodup) :
    ∃ db', archivePendingRows now error rows db = .ok db' := by
  induction rows generalizing db with
  | nil => exact ⟨_, rfl⟩
  | cons row rest ih =>
    rw [map_cons, nodup_cons] at hnd
    have hrow := hlive row (by simp)
    let final := { row with status := .cancelled, completedAt := some now, error := some error }
    obtain ⟨db₁, ha⟩ := hp.archiveJobRow_ok final hrow
    have hp₁ : Partition db₁ := hp.of_effect (e := .archive row final) ⟨rfl, rfl⟩
      (nofun) ⟨hrow, rfl, ha⟩
    rw [archivePendingRows, ha]
    refine ih hp₁ (fun r hr => ?_) hnd.2
    have hne : r.id ≠ row.id := fun e => hnd.1 (e ▸ mem_map_of_mem hr)
    exact (find_jobs_archive ha r.id).trans ((if_neg hne).trans (hlive r (by simp [hr])))

theorem Partition.cascadeArchive_ok (root : JobId) (reason : String) (ids : List JobId)
    (ns : Option String) (now : Int) :
    ((StoreOp.cascadeArchive root reason ids ns now).exec db).1 = .ok () := by
  have hsel : (db.jobs.select fun j =>
      j.id ∈ ids ∧ j.status = .pending ∧ jobInNamespace j.namespace_ ns).Sublist db.jobs.rows :=
    filter_sublist
  obtain ⟨db', h⟩ := hp.archivePendingRows_ok now (reason ++ ": " ++ root)
    (fun r hr => find_of_mem (hsel.subset hr)) (nodup_ids_of_sublist hsel)
  have hbody : cascadeArchive ids (reason ++ ": " ++ root) ns now db = .ok ((), db') := by
    rw [cascadeArchive, h]
    rfl
  exact congrArg Prod.fst (writeTransaction_ok _ hbody)

end

/-- A dead-lettering that commits leaves an entry for the job, and the job is not live. -/
theorem deadLetter_gone {error : String} {metadata : Option String}
    {count : Int} {shed : Bool}
    (h : ((StoreOp.deadLetter job dlqId error metadata count shed now).exec db).1 = .ok ()) :
    ((StoreOp.deadLetter job dlqId error metadata count shed now).exec db).2.jobs.find job.id =
        none ∧
      ∃ d ∈
        ((StoreOp.deadLetter job dlqId error metadata count shed now).exec db).2.deadLetter.rows,
        d.originalJobId = job.id := by
  simp only [StoreOp.exec] at h ⊢
  obtain ⟨_, -, hw⟩ | ⟨_, _, hbody, hw⟩ :=
    writeTransaction_cases (deadLetter job dlqId error metadata count shed now) db
  · rw [hw] at h
    cases h
  · rw [hw]
    unfold deadLetter at hbody
    split at hbody
    · cases hbody
    · next entries hins =>
      have hmem : job.toDeadLetter dlqId error metadata count shed now ∈ entries.rows :=
        (mem_insert hins).2 (.inr rfl)
      dsimp only at hbody
      split at hbody
      · next hnone =>
        cases hbody
        exact ⟨hnone, _, hmem, rfl⟩
      · next row hrow =>
        obtain ⟨_, ha, hbody⟩ := bind_eq_ok.1 hbody
        cases hbody
        have hid : job.id = row.id := (find_key hrow).symm
        refine ⟨(find_jobs_archive ha job.id).trans (if_pos hid),
          job.toDeadLetter dlqId error metadata count shed now, ?_, rfl⟩
        rw [(archiveJobRow_ok ha).2]
        exact hmem

theorem reschedule_running (hjob : db.jobs.find job.id = some job) (hrun : job.status = .running)
    (next : Int) : ((StoreOp.reschedule job.id next).exec db).1 = .ok () := by
  have hkeeps := preserves_backToPending job.id (·.backToPending next) (fun _ => rfl)
    (fun _ => rfl) fun _ => rfl
  have hsame : ∀ r ∈ db.jobs.rows,
      decide (r.id = job.id) = decide (r.id = job.id ∧ r.status = .running) := by
    intro _ hr
    refine decide_eq_decide.2 ⟨fun hid => ⟨hid, ?_⟩, And.left⟩
    rw [eq_of_key_eq hr (mem_of_find hjob) hid, hrun]
  have hcount : db.jobs.count (fun j => j.id = job.id) ≠ 0 := by
    intro hzero
    have := count_eq_zero.1 hzero job (mem_of_find hjob)
    simp at this
  have hbody : reschedule job.id next db =
      .ok ((), { db with jobs := db.jobs.update _ _ hkeeps }) := by
    rw [reschedule, tryUpdate_eq_update hkeeps hsame]
    exact if_neg hcount
  exact congrArg Prod.fst (writeTransaction_ok _ hbody)

/-! ## What a round leaves fixed -/

/-- The job keeps its dependents waiting: it is live, or was archived without completing. -/
def Db.Blocks (db : Db) (d : JobId) : Prop :=
  db.Live d ∨ ∃ row, db.archivedJobs.find d = some row ∧ row.status ≠ .complete

/-- Every live job that depends on another is flagged for it. -/
def Db.Flagged (db : Db) : Prop :=
  ∀ e ∈ db.jobDependencies, ∀ row, db.jobs.find e.jobId = some row → row.hasDeps = true

/-- A store in which the dependency edges were respected: a live job with an edge is flagged, and
a job with a blocking dependency is itself not done. -/
structure Db.Sequenced (db : Db) : Prop where
  flagged : db.Flagged
  blocked : ∀ e ∈ db.jobDependencies, db.Blocks e.dependsOn → db.Blocks e.jobId

/-- The job has a dependency that blocks it. -/
def Db.Waits (db : Db) (j : JobId) : Prop :=
  ∃ e ∈ db.jobDependencies, e.jobId = j ∧ db.Blocks e.dependsOn

/-- A job that passes the dependency check has nothing to wait for. -/
theorem not_waits_of_satisfied (hp : Partition db) {j : JobId} (h : depsSatisfied db j = true) :
    ¬ db.Waits j := by
  rintro ⟨e, he, rfl, hb⟩
  have hdep : e.dependsOn ∈ dependencyIds db e.jobId :=
    mem_map.2 ⟨e, mem_filter.2 ⟨he, by simp⟩, rfl⟩
  have hne : (dependencyIds db e.jobId).isEmpty = false :=
    isEmpty_eq_false_iff.2 (ne_nil_of_mem hdep)
  simp only [depsSatisfied, hne, Bool.false_or, beq_iff_eq, Nat.add_eq_zero_iff,
    count_eq_zero] at h
  obtain ⟨hlive, harch⟩ := h
  obtain hsome | ⟨row, hrow, hst⟩ := hb
  · obtain ⟨row, hrow⟩ := Option.isSome_iff_exists.1 hsome
    have hid : row.id = e.dependsOn := find_key hrow
    have hst : row.status ≠ .complete := by
      obtain h | h := hp.live hrow <;> rw [h] <;> decide
    have hblock := hlive row (mem_of_find hrow)
    simp [hid, hdep, hst] at hblock
  · have hid : row.id = e.dependsOn := find_key hrow
    have hblock := harch row (mem_of_find hrow)
    simp [hid, hdep, hst] at hblock

/-- A change that leaves the edges, the flags and the blocking jobs as they are. -/
structure Still (db db' : Db) : Prop where
  edges : db'.jobDependencies = db.jobDependencies
  blocks : ∀ d, db'.Blocks d ↔ db.Blocks d
  flags : ∀ {k row'}, db'.jobs.find k = some row' →
    ∃ row, db.jobs.find k = some row ∧ row'.hasDeps = row.hasDeps

namespace Still

variable {db mid db' : Db}

theorem refl (db : Db) : Still db db := ⟨rfl, fun _ => Iff.rfl, fun h => ⟨_, h, rfl⟩⟩

theorem trans (h : Still db mid) (h' : Still mid db') : Still db db' where
  edges := h'.edges.trans h.edges
  blocks d := (h'.blocks d).trans (h.blocks d)
  flags hrow := by
    obtain ⟨_, hrow', hf'⟩ := h'.flags hrow
    obtain ⟨row, hrow, hf⟩ := h.flags hrow'
    exact ⟨row, hrow, hf'.trans hf⟩

theorem waits (h : Still db db') (j : JobId) : db'.Waits j ↔ db.Waits j := by
  simp only [Db.Waits, h.edges, h.blocks]

theorem flagged (h : Still db db') (hf : db.Flagged) : db'.Flagged := by
  intro e he _ hrow
  rw [h.edges] at he
  obtain ⟨old, hold, hflag⟩ := h.flags hrow
  rw [hflag]
  exact hf e he old hold

theorem sequenced (h : Still db db') (hs : db.Sequenced) : db'.Sequenced where
  flagged := h.flagged hs.flagged
  blocked e he hb := by
    rw [h.edges] at he
    rw [h.blocks] at hb ⊢
    exact hs.blocked e he hb

theorem of_eq (hj : db'.jobs = db.jobs) (ha : db'.archivedJobs = db.archivedJobs)
    (he : db'.jobDependencies = db.jobDependencies) : Still db db' where
  edges := he
  blocks d := by simp only [Db.Blocks, Db.Live, hj, ha]
  flags h := ⟨_, hj ▸ h, rfl⟩

theorem of_replace (row' : Job) (hrow : db.jobs.find row.id = some row)
    (hflag : row'.hasDeps = row.hasDeps)
    (hfind : ∀ k, db'.jobs.find k = if k = row.id then some row' else db.jobs.find k)
    (ha : db'.archivedJobs = db.archivedJobs) (he : db'.jobDependencies = db.jobDependencies) :
    Still db db' where
  edges := he
  blocks d := by
    simp only [Db.Blocks, Db.Live, hfind, ha]
    split
    · next hd => simp [hd, hrow]
    · exact Iff.rfl
  flags {k r} hr := by
    rw [hfind] at hr
    split at hr
    · next hk =>
      cases hr
      exact ⟨row, hk ▸ hrow, hflag⟩
    · exact ⟨r, hr, rfl⟩

/-- A live job archived without completing: it blocked before and still does. -/
theorem of_archive {final : Job} (hst : final.status ≠ .complete)
    (h : (Effect.archive row final).Holds db db') : Still db db' := by
  obtain ⟨hrow, hid, ha⟩ := h
  refine ⟨by rw [(archiveJobRow_ok ha).2], fun d => ?_, fun {k r} hr => ?_⟩
  · simp only [Db.Blocks, Db.Live, find_jobs_archive ha, find_archived_archive ha]
    by_cases hd : d = final.id
    · subst hd
      have hlive : (db.jobs.find final.id).isSome = true := by rw [hid, hrow]; rfl
      simp only [if_true, hlive, true_or, iff_true]
      exact .inr ⟨_, rfl, hst⟩
    · simp only [if_neg hd]
  · rw [find_jobs_archive ha] at hr
    split at hr
    · cases hr
    · exact ⟨r, hr, rfl⟩

end Still

/-- The transactions of a dispatch round. -/
def StoreOp.inRound : StoreOp → Bool
  | dequeue _ _ _ _ | dequeueBatch _ _ _ _ _ | claimExecution _ _ _ | claimExecutionBatch _ _ _
  | deleteClaim _ | getJob _ _ | reschedule _ _ | deadLetter _ _ _ _ _ _ _ | dependents _
  | cascadeArchive _ _ _ _ _ | countRunningByTask _ _ | countRunningByQueue _ _ => true
  | _ => false

/-- **A transaction of a round leaves the dependencies as they are**, and keeps the partition. -/
theorem Still.exec (hop : op.inRound = true) (db : Db) : Still db (op.exec db).2 := by
  refine (exec_effects op db).invariant (P := Still db) ?_ (.refl db)
  intro _ mid mid' he h hmid
  refine hmid.trans ?_
  have hclaims : ∀ {a}, mid' = { mid with executionClaims := a } → Still mid mid' :=
    fun h => .of_eq (by rw [h]) (by rw [h]) (by rw [h])
  cases op with
  | dequeue queue now | dequeueBatch queue now =>
    obtain ⟨row, -, -, -, rfl | rfl⟩ := he
    · obtain ⟨hrow, hs, -, rfl⟩ := h
      exact .of_replace (row.started now) hrow rfl (find_claimPending now hrow hs) rfl rfl
    · exact .of_archive (by simp [Job.finished]) h
  | reschedule id next =>
    obtain ⟨row, -, rfl⟩ := he
    obtain ⟨hrow, hfind, hrest⟩ := h
    exact .of_replace (row.backToPending next) hrow rfl hfind (by rw [hrest]) (by rw [hrest])
  | deadLetter =>
    obtain rfl | ⟨row, -, rfl⟩ := he
    · exact .of_eq (by rw [h.2]) (by rw [h.2]) (by rw [h.2])
    · exact .of_archive (by simp [Job.finished]) h
  | cascadeArchive =>
    obtain ⟨_, -, -, rfl⟩ := he
    exact .of_archive (by simp [Job.finished]) h
  | claimExecution =>
    cases he
    exact hclaims h.2.2
  | claimExecutionBatch =>
    obtain ⟨_, -, rfl⟩ := he
    exact hclaims h.2.2
  | deleteClaim =>
    cases he
    exact hclaims h.2
  | getJob | dependents | countRunningByTask | countRunningByQueue => exact he.elim
  | _ => cases hop

theorem StoreOp.fresh_of_inRound (hop : op.inRound = true) (db : Db) : op.Fresh db := by
  cases op with
  | enqueue | enqueueBatch | enqueueDebounced | enqueueUnique | enqueueUniqueBatch | retryDead =>
      cases hop
  | _ => exact nofun

variable {db db' : Db} {e : Effect}

theorem running_of_exec (hop : ∀ row now, ¬ op.Effects (.claimRun row now)) {j : JobId}
    (h : (op.exec db).2.Running j) : db.Running j := by
  refine (exec_effects op db).invariant (P := fun mid => mid.Running j → db.Running j) ?_ id h
  intro _ _ _ he hs hmid hrun
  obtain hold | ⟨row, now, rfl, -⟩ := running_of_holds he.sane hs hrun
  · exact hmid hold
  · exact absurd he (hop row now)

/-- **A claim**: won when the job had none, refused when it had one. -/
theorem claimExecution_owner {id : JobId} {worker : String} {won : Bool}
    (h : (StoreOp.claimExecution id worker now).exec db = (.ok won, db')) :
    db' = { db with executionClaims := db'.executionClaims } ∧
    (won = true ∧ db.owner id = none ∧ db'.owner id = some worker ∧
        (∀ k, db'.owner k = if k = id then some worker else db.owner k) ∨
      won = false ∧ (∃ w, db.owner id = some w) ∧ db' = db) := by
  simp only [StoreOp.exec, writeTransaction, claimExecution] at h
  rcases hins : db.executionClaims.insert ⟨id, worker, now⟩ with _ | claims
  · rw [hins] at h
    cases h
    refine ⟨rfl, .inr ⟨rfl, ?_, rfl⟩⟩
    rcases ho : db.executionClaims.find id with _ | c
    · obtain ⟨t, ht⟩ := insert_of_fresh (t := db.executionClaims)
        (r := ⟨id, worker, now⟩) ho rfl
      rw [ht] at hins
      cases hins
    · exact ⟨c.workerId, by rw [Db.owner, ho]; rfl⟩
  · rw [hins] at h
    cases h
    have hclaim : (Effect.claim id none worker).Holds db { db with executionClaims := claims } :=
      claim_of_insert hins rfl
    obtain ⟨hnone, hafter, -⟩ := hclaim
    exact ⟨rfl, .inl ⟨rfl, hnone, (hafter id).trans (if_pos rfl), hafter⟩⟩

theorem claimExecution_ok (id : JobId) (worker : String) (now : Int) (db : Db) :
    ∃ won db', (StoreOp.claimExecution id worker now).exec db = (.ok won, db') := by
  simp only [StoreOp.exec, writeTransaction, claimExecution]
  rcases db.executionClaims.insert ⟨id, worker, now⟩ with _ | _
  · exact ⟨_, _, rfl⟩
  · exact ⟨_, _, rfl⟩

/-- **A batch of claims** of different jobs: each is won or refused for itself. -/
theorem claimExecutionBatch_owner (worker : String) (now : Int) {ids : List JobId}
    (hnd : ids.Nodup) (db : Db) :
    ∃ out db', claimExecutionBatch worker now ids db = .ok (out, db') ∧
      out.length = ids.length ∧ db' = { db with executionClaims := db'.executionClaims } ∧
      (∀ k, k ∉ ids → db'.owner k = db.owner k) ∧
      ∀ p ∈ ids.zip out, p.2 = true ∧ db'.owner p.1 = some worker ∨
        p.2 = false ∧ ∃ w, db.owner p.1 = some w ∧ db'.owner p.1 = some w := by
  induction ids generalizing db with
  | nil => exact ⟨[], db, rfl, rfl, rfl, fun _ _ => rfl, nofun⟩
  | cons id rest ih =>
    rw [nodup_cons] at hnd
    obtain ⟨won, db₁, h₁⟩ := claimExecution_ok id worker now db
    have hbody : claimExecution id worker now db = .ok (won, db₁) := by
      simp only [StoreOp.exec, writeTransaction] at h₁
      rcases hb : claimExecution id worker now db with _ | ⟨_, _⟩
      · rw [hb] at h₁
        cases h₁
      · rw [hb] at h₁
        cases h₁
        rfl
    obtain ⟨hrest₁, hown₁⟩ := claimExecution_owner h₁
    obtain ⟨out, db₂, h₂, hlen, hrest₂, hother₂, hown₂⟩ := ih hnd.2 db₁
    have hfirst : ∀ k, k ≠ id → db₁.owner k = db.owner k := by
      intro k hk
      obtain ⟨-, -, -, hafter⟩ | ⟨-, -, rfl⟩ := hown₁
      · exact (hafter k).trans (if_neg hk)
      · rfl
    refine ⟨won :: out, db₂, ?_, by simp [hlen], by rw [hrest₂, hrest₁], fun k hk => ?_, ?_⟩
    · rw [claimExecutionBatch, hbody]
      simp [bind, Except.bind, h₂, pure, Except.pure]
    · rw [mem_cons, not_or] at hk
      exact (hother₂ k hk.2).trans (hfirst k hk.1)
    · intro p hp
      rw [zip_cons_cons, mem_cons] at hp
      obtain rfl | hp := hp
      · have hlater := hother₂ id hnd.1
        obtain ⟨rfl, -, hme, -⟩ | ⟨rfl, ⟨w, hw⟩, rfl⟩ := hown₁
        · exact .inl ⟨rfl, hlater.trans hme⟩
        · exact .inr ⟨rfl, w, hw, hlater.trans hw⟩
      · have hne : p.1 ≠ id := fun h => hnd.1 (h ▸ (of_mem_zip hp).1)
        rw [← hfirst p.1 hne]
        exact hown₂ p hp

/-! ## What a dequeue starts -/

/-- The jobs that became running are those of the answer, and none of them waits for another. -/
structure Starts (db db' : Db) (r : List Job) : Prop where
  only : ∀ {j}, db'.Running j → db.Running j ∨ j ∈ r.map Job.id
  ready : ∀ job ∈ r, ¬ db.Waits job.id

theorem Starts.trans {mid : Db} {r r' : List Job} (h : Starts db mid r) (hstill : Still db mid)
    (h' : Starts mid db' r') : Starts db db' (r ++ r') where
  only {j} hrun := by
    rw [map_append, mem_append]
    obtain hmid | hnew := h'.only hrun
    · exact (h.only hmid).imp_right .inl
    · exact .inr (.inr hnew)
  ready job hjob := by
    obtain hjob | hjob := mem_append.1 hjob
    · exact h.ready job hjob
    · rw [← hstill.waits]
      exact h'.ready job hjob

theorem claimCandidate_starts {c : Job} {r : Option Job} (hp : Partition db) (hs : db.Sequenced)
    (hc : Candidate queue ns db c) (h : claimCandidate now c db = .ok (r, db')) :
    Still db db' ∧ Starts db db' r.toList := by
  obtain ⟨full, -, rfl, hcase⟩ := claimCandidate_cases hc.scanned hc.pending h
  obtain ⟨rfl, rfl⟩ | ⟨rfl, harch⟩ | ⟨rfl, hclaim⟩ := hcase
  · exact ⟨.refl _, fun h => .inl h, fun job hjob => by cases hjob⟩
  · refine ⟨.of_archive (by simp [Job.expiredBeforeExecution, Job.finished]) harch, fun hrun => ?_,
      fun job hjob => by cases hjob⟩
    obtain hold | ⟨row, now, he, -⟩ :=
      running_of_holds (e := .archive full (full.expiredBeforeExecution now)) ⟨rfl, rfl⟩ harch hrun
    · exact .inl hold
    · cases he
  · obtain ⟨hrow, hpend, hdeps, rfl⟩ := hclaim
    have hfind := find_claimPending now hrow hpend
    refine ⟨.of_replace (full.started now) hrow rfl hfind rfl rfl, ⟨fun {j} hrun => ?_, ?_⟩⟩
    · obtain ⟨row, hr, hst⟩ := hrun
      rw [hfind] at hr
      split at hr
      · next hj => exact .inr (by simp [hj, Job.started])
      · exact .inl ⟨row, hr, hst⟩
    · intro job hjob
      obtain rfl : job = full.started now := by simpa using hjob
      intro hwaits
      obtain ⟨e, he, hid, hb⟩ := hwaits
      have hid : e.jobId = full.id := hid
      have hflag := hs.flagged e he full (hid.symm ▸ hrow)
      exact not_waits_of_satisfied hp (hdeps hflag) ⟨e, he, hid, hb⟩

theorem Walk.starts {claimed : List Job} (h : Walk queue ns now cs db claimed db')
    (hp : Partition db) (hs : db.Sequenced) : Starts db db' claimed := by
  induction h with
  | stop => exact ⟨fun h => .inl h, fun job hjob => by cases hjob⟩
  | pass hc h₁ _ ih =>
    obtain ⟨hstill, hstarts⟩ := claimCandidate_starts hp hs hc h₁
    obtain ⟨_, _, h₁', hp₁⟩ := hp.claimCandidate_ok now hc
    rw [h₁] at h₁'
    cases h₁'
    exact hstarts.trans hstill (ih hp₁ (hstill.sequenced hs))

/-- The effect leaves what is stored of the job, and its claim, as they are. -/
def Effect.Leaves (k : JobId) : Effect → Prop
  | claim id _ _ => id ≠ k
  | unclaim => False
  | e => e.Spares k

theorem owner_of_leaves (he : e.Leaves k) (h : e.Holds db db') : db'.owner k = db.owner k := by
  obtain hsame | ⟨-, rfl | ⟨_, _, rfl, hid⟩⟩ | ⟨_, _, rfl, -⟩ :=
    owner_of_effect h k
  · exact hsame
  · exact he.elim
  · exact absurd hid he
  · exact absurd rfl he

theorem Effect.Leaves.spares (he : e.Leaves k) : e.Spares k := by
  cases e with
  | claim => trivial
  | unclaim => exact he.elim
  | _ => exact he

theorem exec_of_leaves (hop : ∀ e, op.Effects e → e.Leaves k) (db : Db) :
    (op.exec db).2.stored k = db.stored k ∧ (op.exec db).2.owner k = db.owner k := by
  refine ⟨stored_of_spares (fun e he => (hop e he).spares) db, ?_⟩
  exact (exec_effects op db).invariant (P := fun mid => mid.owner k = db.owner k)
    (fun e _ _ he h hmid => (owner_of_leaves (hop e he) h).trans hmid) rfl

end Flexiq
