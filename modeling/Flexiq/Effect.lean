import Flexiq.Store

/-!
# What a transaction can do

Every transaction of the store is a short sequence of **effects** — a batch of inserts, a
claim, an edit of one live row, an archive move, a purge, a change to a side table. An effect
is a label with the rows it involves (`Effect`), what it does to the tables (`Effect.Holds`),
and `StoreOp.Effects` says which labels each transaction may produce, with its guards.

`exec_effects` proves that table once, by going through every transaction. Each invariant of
the store is then a statement about ten effects, and no later proof unfolds a transaction.
-/

namespace Flexiq

variable {final : Job}

inductive Effect where
  /-- New jobs, each with its dependency list. -/
  | insert (jobs : List (Job × List JobId))
  /-- A pending job becomes running. -/
  | claimRun (row : Job) (now : Int)
  /-- A live row is replaced by another version of itself. -/
  | edit (row row' : Job)
  | archive (row final : Job)
  | deadLetter (entry : DeadLetterRow)
  /-- Dead-letter entries are deleted. -/
  | dropDead
  /-- A job's execution claim is written; `previous` is its owner before. -/
  | claim (id : JobId) (previous : Option String) (worker : String)
  /-- Execution claims are dropped. -/
  | unclaim
  /-- A step is committed within `limits`; `sized` when its bytes were counted too. -/
  | step (row : JobStepRow) (limits : StepLimits) (sized : Bool)
  /-- The next batch of a purge, and the edges of its jobs, are deleted. -/
  | purge (p : ArchivePurge)
  /-- Errors or metrics change. -/
  | diagnostics

/-- The edges of a batch. -/
def dependencyRows (jobs : List (Job × List JobId)) : List JobDependency :=
  jobs.flatMap fun e => e.2.map (⟨e.1.id, ·⟩)

/-- A dependency that can be waited for: a member of the batch, or a job in one of the
tables. -/
def KnownDependency (db : Db) (jobs : List (Job × List JobId)) (id : JobId) : Prop :=
  (∃ e ∈ jobs, e.1.id = id) ∨ (db.jobs.find id).isSome ∨ (db.archivedJobs.find id).isSome

/-- The owner of a job's execution claim. -/
def Db.owner (db : Db) (id : JobId) : Option String :=
  (db.executionClaims.find id).map ExecutionClaim.workerId

/-- The state change an effect stands for. -/
def Effect.Holds : Effect → Db → Db → Prop
  | insert jobs, db, db' =>
    (∀ e ∈ jobs, ∀ id ∈ e.2, KnownDependency db jobs id) ∧
    (∀ e ∈ jobs, db.jobs.find e.1.id = none) ∧
    (∀ k, db'.jobs.find k = ((jobs.map Prod.fst).find? fun j => j.id = k).or (db.jobs.find k)) ∧
    db' = { db with
      jobs := db'.jobs
      jobDependencies := db.jobDependencies ++ dependencyRows jobs }
  | claimRun row now, db, db' =>
    db.jobs.find row.id = some row ∧ row.status = .pending ∧
    (row.hasDeps = true → depsSatisfied db row.id = true) ∧
    db' = claimPending row.id now db
  | edit row row', db, db' =>
    db.jobs.find row.id = some row ∧
    (∀ k, db'.jobs.find k = if k = row.id then some row' else db.jobs.find k) ∧
    db' = { db with jobs := db'.jobs }
  | archive row final, db, db' =>
    db.jobs.find row.id = some row ∧ final.id = row.id ∧ archiveJobRow final db = .ok db'
  | deadLetter entry, db, db' =>
    db.deadLetter.insert entry = some db'.deadLetter ∧
      db' = { db with deadLetter := db'.deadLetter }
  | dropDead, db, db' =>
    (∀ k, db'.deadLetter.find k = none ∨ db'.deadLetter.find k = db.deadLetter.find k) ∧
    db' = { db with deadLetter := db'.deadLetter }
  | claim id previous worker, db, db' =>
    db.owner id = previous ∧
    (∀ k, db'.owner k = if k = id then some worker else db.owner k) ∧
    db' = { db with executionClaims := db'.executionClaims }
  | unclaim, db, db' =>
    (∀ k, db'.executionClaims.find k = none ∨
      db'.executionClaims.find k = db.executionClaims.find k) ∧
    db' = { db with executionClaims := db'.executionClaims }
  | step row limits sized, db, db' =>
    (∃ job, db.jobs.find row.jobId = some job ∧ job.status = .running) ∧
    row.seq = (stepTotals row.jobId db).1 ∧
    (stepTotals row.jobId db).1 + 1 ≤ limits.maxSteps ∧
    (sized = true → (stepTotals row.jobId db).2 + row.resultLen ≤ limits.maxTotalBytes) ∧
    db.jobSteps.insert row = some db'.jobSteps ∧ db' = { db with jobSteps := db'.jobSteps }
  | purge p, db, db' =>
    db' = purgeArchivedIdBatch ((p.batch db).map Job.id) p.cascadeDiagnostics db
  | diagnostics, db, db' =>
    db' = { db with jobErrors := db'.jobErrors, taskMetrics := db'.taskMetrics }

/-- Some allowed effect leads from one state to the other. -/
def Effect.Step (A : Effect → Prop) (db db' : Db) : Prop := ∃ e, A e ∧ e.Holds db db'

/-- A sequence of allowed effects. -/
def Effects (A : Effect → Prop) : Db → Db → Prop := Relation.ReflTransGen (Effect.Step A)

namespace Effects

variable {A B : Effect → Prop} {db db₁ db₂ : Db}

theorem refl (db : Db) : Effects A db db := Relation.ReflTransGen.refl

theorem single {e : Effect} (he : A e) (h : e.Holds db db₁) : Effects A db db₁ :=
  Relation.ReflTransGen.single ⟨e, he, h⟩

theorem trans (h : Effects A db db₁) (h' : Effects A db₁ db₂) : Effects A db db₂ :=
  Relation.ReflTransGen.trans h h'

theorem mono (h : Effects A db db₁) (hAB : ∀ e, A e → B e) : Effects B db db₁ := by
  have hle : Effect.Step A ≤ Effect.Step B := fun _ _ ⟨e, he, hs⟩ => ⟨e, hAB e he, hs⟩
  exact Relation.ReflTransGen.mono hle _ _ h

/-- **Invariants by effects.** What every allowed effect keeps, a sequence keeps. -/
theorem invariant {P : Db → Prop} (h : Effects A db db₁)
    (hP : ∀ e db db', A e → e.Holds db db' → P db → P db') (h0 : P db) : P db₁ := by
  induction h with
  | refl => exact h0
  | tail _ hs ih =>
    obtain ⟨e, he, hs⟩ := hs
    exact hP e _ _ he hs ih

end Effects

/-! ## Reading an effect through the keys -/

variable {db db' : Db}

theorem find_claimPending {row : Job} (now : Int) (hrow : db.jobs.find row.id = some row)
    (hs : row.status = .pending) (k : JobId) :
    (claimPending row.id now db).jobs.find k =
      if k = row.id then some (row.started now) else db.jobs.find k := by
  refine (Table.find_update db.jobs _ _ (preserves_started row.id now) k).trans ?_
  refine Table.find_map_updated (Table.mem_of_find hrow) (by simp [hs]) (fun j hj => ?_) k
  exact (of_decide_eq_true hj).1

/-- An archive move, table by table. -/
theorem archiveJobRow_ok (h : archiveJobRow final db = .ok db') :
    db.archivedJobs.insert final.toArchived = some db'.archivedJobs ∧
    db' = { db with
      archivedJobs := db'.archivedJobs
      jobs := db.jobs.delete fun j => j.id = final.id
      jobSteps := db.jobSteps.delete fun s => s.jobId = final.id
      executionClaims := db.executionClaims.delete fun c => c.jobId = final.id } := by
  unfold archiveJobRow at h
  rcases hi : db.archivedJobs.insert final.toArchived with _ | _
  · rw [hi] at h
    cases h
  · rw [hi] at h
    cases h
    exact ⟨rfl, rfl⟩

theorem find_delete_key {t : Table jobsSchema} (id k : JobId) :
    (t.delete fun j => j.id = id).find k = if k = id then none else t.find k := by
  rw [Table.find_delete]
  rcases hf : t.find k with _ | j
  · simp
  · have hj : j.id = k := Table.find_key hf
    by_cases hk : k = id
    · simp [hj, hk]
    · simp [hj, hk]

section

variable (h : archiveJobRow final db = .ok db')
include h

theorem find_jobs_archive (k : JobId) :
    db'.jobs.find k = if k = final.id then none else db.jobs.find k := by
  rw [(archiveJobRow_ok h).2]
  exact find_delete_key final.id k

theorem find_archived_archive (k : JobId) :
    db'.archivedJobs.find k =
      if k = final.id then some final.toArchived else db.archivedJobs.find k :=
  Table.find_insert (archiveJobRow_ok h).1 k

theorem archived_fresh_archive :
    db.archivedJobs.find final.id = none := by
  have hfresh := Table.find_of_insert (archiveJobRow_ok h).1
  exact hfresh

theorem owner_archive (k : JobId) :
    db'.owner k = if k = final.id then none else db.owner k := by
  rw [(archiveJobRow_ok h).2]
  simp only [Db.owner]
  rw [Table.find_delete]
  rcases hf : db.executionClaims.find k with _ | c
  · simp
  · have hc : c.jobId = k := Table.find_key hf
    by_cases hk : k = final.id
    · simp [hc, hk]
    · simp [hc, hk]

end

/-! What one effect can do to the row of a job, to its claim, and to the entries of the other
tables. Later proofs look at the effects these lemmas name and at no others. -/

section ReadOut

variable {e : Effect} {db db' : Db} {k : JobId}

section

variable (h : e.Holds db db')
include h

theorem row_of_effect {row' : Job} (hrow : db'.jobs.find k = some row') :
    db.jobs.find k = some row' ∨
      (∃ jobs, e = .insert jobs ∧ ∃ entry ∈ jobs, entry.1 = row' ∧ entry.1.id = k) ∨
      ∃ row, row.id = k ∧ db.jobs.find k = some row ∧
        ((∃ now, e = .claimRun row now ∧ row.status = .pending ∧ row' = row.started now) ∨
          e = .edit row row') := by
  cases e with
  | insert =>
    rw [h.2.2.1, Option.or_eq_some_iff] at hrow
    grind [List.mem_of_find?_eq_some]
  | claimRun row now =>
    obtain ⟨hrow', hs, -, rfl⟩ := h
    rw [find_claimPending now hrow' hs] at hrow
    grind
  | archive => grind [find_jobs_archive, Effect.Holds]
  | _ => grind [Effect.Holds, purgeArchivedIdBatch]

theorem fate_of_row {row : Job} (hrow : db.jobs.find k = some row) :
    db'.jobs.find k = some row ∨
      (∃ now, e = .claimRun row now ∧ row.status = .pending ∧
        db'.jobs.find k = some (row.started now)) ∨
      (∃ row', e = .edit row row' ∧ db'.jobs.find k = some row') ∨
      ∃ final, e = .archive row final ∧ row.id = k ∧
        db'.archivedJobs.find k = some final.toArchived := by
  cases e with
  | insert jobs =>
    have hnone : ((jobs.map Prod.fst).find? fun j => j.id = k) = none := by
      have hfresh := h.2.1
      grind
    rw [h.2.2.1, hnone]
    exact .inl hrow
  | claimRun row' now =>
    obtain ⟨hrow', hs, -, rfl⟩ := h
    rw [find_claimPending now hrow' hs]
    grind
  | archive =>
    have hjobs := find_jobs_archive h.2.2
    have harchived := find_archived_archive h.2.2
    grind [Effect.Holds]
  | _ => grind [Effect.Holds, purgeArchivedIdBatch]

theorem archived_cases {r : Job} (hr : db'.archivedJobs.find k = some r) :
    db.archivedJobs.find k = some r ∨
      ∃ row final, e = .archive row final ∧ final.id = k ∧ r = final.toArchived := by
  cases e with
  | archive =>
    rw [find_archived_archive h.2.2] at hr
    grind
  | purge =>
    rw [show db' = _ from h, purgeArchivedIdBatch, Table.find_delete] at hr
    exact .inl (Option.filter_eq_some_iff.1 hr).1
  | _ => grind [Effect.Holds, claimPending]

theorem fate_of_archived {r : Job} (hr : db.archivedJobs.find k = some r) :
    db'.archivedJobs.find k = some r ∨ ∃ p, e = .purge p := by
  cases e with
  | archive =>
    have hfresh := archived_fresh_archive h.2.2
    have harchived := find_archived_archive h.2.2
    grind
  | _ => grind [Effect.Holds, claimPending]

theorem deadLetter_of_effect {entry : DeadLetterRow} (hentry : entry ∈ db'.deadLetter.rows) :
    entry ∈ db.deadLetter.rows ∨ e = .deadLetter entry := by
  cases e with
  | deadLetter => grind [Effect.Holds, Table.mem_insert]
  | dropDead =>
    have hfind := Table.find_of_mem hentry
    grind [Effect.Holds, Table.mem_of_find]
  | archive =>
    rw [(archiveJobRow_ok h.2.2).2] at hentry
    exact .inl hentry
  | _ => grind [Effect.Holds, claimPending, purgeArchivedIdBatch]

theorem owner_of_effect (k : JobId) :
    db'.owner k = db.owner k ∨
      db'.owner k = none ∧ (e = .unclaim ∨ ∃ row final, e = .archive row final ∧ row.id = k) ∨
      ∃ previous worker, e = .claim k previous worker ∧ db'.owner k = some worker := by
  cases e with
  | archive =>
    have howner := owner_archive h.2.2
    grind [Effect.Holds]
  | unclaim =>
    have hclaims := h.1 k
    grind [Db.owner]
  | claim => grind [Effect.Holds]
  | _ => grind [Effect.Holds, Db.owner, claimPending, purgeArchivedIdBatch]

end

end ReadOut

/-! ## The effects of each transaction -/

/-- The final row of a job archived under `status`. -/
def Job.finished (job : Job) (status : JobStatus) (now : Int) : Job :=
  { job with status := status, completedAt := some now }

/-- Which effects a transaction may have. -/
def StoreOp.Effects : StoreOp → Effect → Prop
  | enqueue d, e | enqueueUnique d, e => e = .insert [d.entry]
  | enqueueBatch ds, e => e = .insert (ds.map Draft.entry)
  | enqueueDebounced d _ options, e =>
    e = .insert [(d.debouncedJob options, d.newJob.dependsOn)] ∨
    ∃ row deadline payload, row.status = .pending ∧
      e = .edit row { row with scheduledAt := deadline, payload := payload }
  | enqueueUniqueBatch ds, e => ∃ d ∈ ds, e = .insert [d.entry]
  | dequeue queue now ns _, e | dequeueBatch queue now ns _ _, e =>
    ∃ row, row.status = .pending ∧ row.queue = queue ∧ row.namespace_ = ns ∧
      (e = .claimRun row now ∨
        e = .archive row
          { row.finished .cancelled now with error := some "expired before execution" })
  | complete id result ns now, e =>
    ∃ row, row.id = id ∧ row.status = .running ∧ jobInNamespace row.namespace_ ns ∧
      e = .archive row { row.finished .complete now with result := result }
  | completeBatch cs ns now, e =>
    e = .diagnostics ∨ ∃ c ∈ cs, ∃ row, row.id = c.jobId ∧ row.status = .running ∧
      jobInNamespace row.namespace_ ns ∧
      e = .archive row { row.finished .complete now with result := c.result }
  | fail id error now, e =>
    ∃ row, row.id = id ∧ row.status = .running ∧
      e = .archive row { row.finished .failed now with error := some error }
  | retry id next ns, e =>
    e = .unclaim ∨ ∃ row, row.id = id ∧ jobInNamespace row.namespace_ ns ∧
      e = .edit row { row.backToPending next with retryCount := row.retryCount + 1 }
  | reschedule id next, e => ∃ row, row.id = id ∧ e = .edit row (row.backToPending next)
  | requeueStuck id now, e =>
    e = .unclaim ∨ ∃ row, row.id = id ∧ row.status = .running ∧
      e = .edit row { row.backToPending now with cancelRequested := false }
  | cancelPending id ns now, e =>
    ∃ row, row.id = id ∧ row.status = .pending ∧ jobInNamespace row.namespace_ ns ∧
      e = .archive row (row.finished .cancelled now)
  | requestCancel id _, e =>
    ∃ row, row.id = id ∧ row.status = .running ∧
      e = .edit row { row with cancelRequested := true }
  | markCancelled id ns now, e =>
    ∃ row, row.id = id ∧ jobInNamespace row.namespace_ ns ∧
      e = .archive row { row.finished .cancelled now with error := some "cancelled by request" }
  | cascadeArchive root reason ids _ now, e =>
    ∃ row, row.id ∈ ids ∧ row.status = .pending ∧
      e = .archive row
        { row.finished .cancelled now with error := some (reason ++ ": " ++ root) }
  | updateProgress id progress _, e =>
    ∃ row, row.id = id ∧ e = .edit row { row with progress := some progress }
  | recordStepResult step owner _ limits _ now, e =>
    e = .claim step.jobId none owner ∨ ∃ ns, e = .step (step.toRow ns none now) limits.clamped true
  | sleepJob step owner _ wakeAt limits _ now, e =>
    e = .claim step.jobId none owner ∨ e = .unclaim ∨
    (∃ ns, e = .step (step.toRow ns (some wakeAt) now) limits.clamped false) ∨
    ∃ row wake, row.id = step.jobId ∧ row.status = .running ∧
      e = .edit row (row.backToPending wake)
  | claimExecution id workerId _, e => e = .claim id none workerId
  | claimExecutionBatch ids workerId _, e => ∃ id ∈ ids, e = .claim id none workerId
  | deleteClaim _, e | purgeExecutionClaims _, e => e = .unclaim
  | reclaimExecution id expectedOwner newOwner _, e =>
    e = .claim id (some expectedOwner) newOwner
  | deadLetter job dlqId error metadata count shed now, e =>
    e = .deadLetter (job.toDeadLetter dlqId error metadata count shed now) ∨
    ∃ row, row.id = job.id ∧
      e = .archive row { row.finished .dead now with error := some error }
  | retryDead row metadata id now, e =>
    e = .insert [(row.draft metadata id now).entry] ∨ e = .dropDead
  | purgeDead _, e => e = .dropDead
  | purgeArchived purge, e => e = .purge purge
  | archivePending sweep now, e =>
    ∃ row, row.status = .pending ∧
      e = .archive row { row.finished .cancelled now with error := some sweep.error }
  | recordError _ _ _ _, e | recordMetric _, e => e = .diagnostics
  | activeWithKey _, _ | dependents _, _ | getJob _ _, _ | authorizeAttempt _ _ _ _, _
  | findDead _, _ | reapStaleJobs _ _, _ | reapOrphanedJobs _ _, _
  | countRunningByTask _ _, _ | countRunningByQueue _ _, _ => False

/-- The jobs a transaction may insert, each with the dependencies it declares. -/
def StoreOp.entries : StoreOp → List (JobId × List JobId)
  | enqueue d | enqueueDebounced d _ _ | enqueueUnique d => [(d.id, d.newJob.dependsOn)]
  | enqueueBatch ds | enqueueUniqueBatch ds => ds.map fun d => (d.id, d.newJob.dependsOn)
  | retryDead _ _ id _ => [(id, [])]
  | _ => []

/-- The ids of the jobs a transaction may insert. -/
def StoreOp.newIds (op : StoreOp) : List JobId := op.entries.map Prod.fst

/-- What every effect of every transaction keeps to, whatever the state: new jobs are pending
and carry the right dependency flag, an edited row keeps its identity and loses no retries, and
only terminal rows are archived. -/
def Effect.Sane : Effect → Prop
  | insert jobs => ∀ e ∈ jobs, e.1.status = .pending ∧ e.1.hasDeps = !e.2.isEmpty
  | edit row row' =>
    row'.id = row.id ∧ row'.hasDeps = row.hasDeps ∧
      (row'.status = .pending ∨ row'.status = row.status) ∧ row.retryCount ≤ row'.retryCount
  | archive row final => final.id = row.id ∧ final.status.isTerminal = true
  | _ => True

/-- A row keeps its metadata when it is edited or archived. -/
abbrev Effect.KeepsMetadata : Effect → Prop
  | edit row row' | archive row row' => row'.metadata = row.metadata
  | _ => True

variable {op : StoreOp} {e : Effect}

theorem StoreOp.Effects.sane_keeps (h : op.Effects e) : e.Sane ∧ e.KeepsMetadata := by
  cases op with
  | enqueue | enqueueUnique =>
    subst h
    exact ⟨List.forall_mem_singleton.2 ⟨rfl, rfl⟩, trivial⟩
  | enqueueBatch =>
    subst h
    refine ⟨fun e he => ?_, trivial⟩
    obtain ⟨d, -, rfl⟩ := List.mem_map.1 he
    exact ⟨rfl, rfl⟩
  | enqueueDebounced =>
    obtain rfl | ⟨row, _, _, -, rfl⟩ := h
    · exact ⟨List.forall_mem_singleton.2 ⟨rfl, rfl⟩, trivial⟩
    · exact ⟨⟨rfl, rfl, .inr rfl, le_refl _⟩, rfl⟩
  | enqueueUniqueBatch =>
    obtain ⟨_, -, rfl⟩ := h
    exact ⟨List.forall_mem_singleton.2 ⟨rfl, rfl⟩, trivial⟩
  | dequeue | dequeueBatch =>
    obtain ⟨row, -, -, -, rfl | rfl⟩ := h
    · trivial
    · exact ⟨⟨rfl, rfl⟩, rfl⟩
  | complete | cancelPending =>
    obtain ⟨row, -, -, -, rfl⟩ := h
    exact ⟨⟨rfl, rfl⟩, rfl⟩
  | completeBatch =>
    obtain rfl | ⟨_, -, row, -, -, -, rfl⟩ := h
    · trivial
    · exact ⟨⟨rfl, rfl⟩, rfl⟩
  | fail | markCancelled | cascadeArchive =>
    obtain ⟨row, -, -, rfl⟩ := h
    exact ⟨⟨rfl, rfl⟩, rfl⟩
  | retry =>
    obtain rfl | ⟨row, -, -, rfl⟩ := h
    · trivial
    · exact ⟨⟨rfl, rfl, .inl rfl, Int.le_add_one (le_refl _)⟩, rfl⟩
  | reschedule =>
    obtain ⟨row, -, rfl⟩ := h
    exact ⟨⟨rfl, rfl, .inl rfl, le_refl _⟩, rfl⟩
  | requeueStuck =>
    obtain rfl | ⟨row, -, -, rfl⟩ := h
    · trivial
    · exact ⟨⟨rfl, rfl, .inl rfl, le_refl _⟩, rfl⟩
  | requestCancel =>
    obtain ⟨row, -, -, rfl⟩ := h
    exact ⟨⟨rfl, rfl, .inr rfl, le_refl _⟩, rfl⟩
  | updateProgress =>
    obtain ⟨row, -, rfl⟩ := h
    exact ⟨⟨rfl, rfl, .inr rfl, le_refl _⟩, rfl⟩
  | recordStepResult step owner attempt limits ns => obtain rfl | ⟨ns, rfl⟩ := h <;> trivial
  | sleepJob step owner attempt wakeAt limits ns =>
    obtain rfl | rfl | ⟨_, rfl⟩ | ⟨row, _, -, -, rfl⟩ := h
    · trivial
    · trivial
    · trivial
    · exact ⟨⟨rfl, rfl, .inl rfl, le_refl _⟩, rfl⟩
  | deadLetter =>
    obtain rfl | ⟨row, -, rfl⟩ := h
    · trivial
    · exact ⟨⟨rfl, rfl⟩, rfl⟩
  | retryDead =>
    obtain rfl | rfl := h
    · exact ⟨List.forall_mem_singleton.2 ⟨rfl, rfl⟩, trivial⟩
    · trivial
  | archivePending =>
    obtain ⟨_, -, rfl⟩ := h
    exact ⟨⟨rfl, rfl⟩, rfl⟩
  | claimExecutionBatch =>
    obtain ⟨_, -, rfl⟩ := h
    trivial
  | claimExecution | deleteClaim | reclaimExecution | purgeExecutionClaims | purgeDead
  | purgeArchived | recordError | recordMetric =>
    subst h
    trivial
  | _ => exact h.elim

theorem StoreOp.Effects.sane (h : op.Effects e) : e.Sane :=
  h.sane_keeps.1

theorem StoreOp.Effects.keepsMetadata (h : op.Effects e) : e.KeepsMetadata := h.sane_keeps.2

end Flexiq
