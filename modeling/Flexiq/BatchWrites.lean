import Flexiq.CascadeClosure
import Flexiq.EffectSound

/-!
# Batch writes

`enqueue_batch` and `complete_batch` each do many writes in one transaction. The first checks
every dependency before it writes any row, then inserts all rows and all edges; the second
completes its jobs one after the other and gives up at the first that is not running.

Both are all or nothing, and the second is the same as completing the jobs one by one: the
metrics it records are the only difference, and nothing that a completion reads looks at them
(`complete_taskMetrics`). A list that names a job twice is an error, like a list that names a
job that does not run, and so is every list on which the one-by-one completion would fail
somewhere (`completeBatch_eq`).
-/

namespace Flexiq

open StoreOp (exec)

open List

/-! ## Enqueue -/

variable {db db' : Db} {ns : Option String} {now : Int}

theorem insertJobRows_append {jobs : List Job} (h : insertJobRows jobs db = .ok db') :
    db'.jobs.rows = db.jobs.rows ++ jobs ∧ db' = { db with jobs := db'.jobs } := by
  induction jobs generalizing db with
  | nil =>
    obtain rfl := Except.ok.inj h
    exact ⟨(append_nil _).symm, rfl⟩
  | cons job rest ih =>
    rw [insertJobRows, insertJobRow] at h
    rcases hins : db.jobs.insert job with _ | _
    · rw [hins] at h
      cases h
    · rw [hins] at h
      obtain ⟨hrows, hdb'⟩ := ih h
      refine ⟨?_, hdb'⟩
      rw [hrows, Table.ofRows_eq_some hins, append_assoc, singleton_append]

/-- A batch that is accepted is inserted whole: every row and every edge, and nothing else. -/
theorem enqueueBatch_ok {jobs : List (Job × List JobId)} {out : List Job}
    (h : enqueueBatch jobs db = .ok (out, db')) :
    out = jobs.map Prod.fst ∧ db'.jobs.rows = db.jobs.rows ++ jobs.map Prod.fst ∧
      db' = { db with
        jobs := db'.jobs
        jobDependencies := db.jobDependencies ++ dependencyRows jobs } := by
  rw [enqueueBatch] at h
  rcases hv : validateBatch jobs jobs db with e | _
  · rw [hv] at h
    cases h
  · rcases hi : insertJobRows (jobs.map Prod.fst) db with _ | _
    · rw [hv, hi] at h
      cases h
    · rw [hv, hi] at h
      obtain ⟨rfl, rfl⟩ := Prod.mk.inj (Except.ok.inj h)
      obtain ⟨hrows, hdb₁⟩ := insertJobRows_append hi
      rw [insertBatchDependencyRows_eq]
      refine ⟨rfl, hrows, ?_⟩
      rw [hdb₁]

/-! ## Complete -/

/-- Complete jobs one after the other, each in its own transaction. -/
def completeEach (namespace_ : Option String) (now : Int) : List JobCompletion → Db → Db
  | [], db => db
  | c :: rest, db =>
    completeEach namespace_ now rest
      ((StoreOp.complete c.jobId c.result namespace_ now).exec db).2

def CompletesEach (namespace_ : Option String) (now : Int) : List JobCompletion → Db → Prop
  | [], _ => True
  | c :: rest, db =>
    ((StoreOp.complete c.jobId c.result namespace_ now).exec db).1 = .ok () ∧
      CompletesEach namespace_ now rest
        ((StoreOp.complete c.jobId c.result namespace_ now).exec db).2

theorem complete_taskMetrics (id : JobId) (result : Option Bytes) (ns : Option String)
    (now : Int) (db : Db) (metrics : List TaskMetricRow) :
    (StoreOp.complete id result ns now).exec { db with taskMetrics := metrics } =
      (((StoreOp.complete id result ns now).exec db).1,
        { ((StoreOp.complete id result ns now).exec db).2 with taskMetrics := metrics }) := by
  simp only [exec, writeTransaction, complete]
  rw [show findRunning id ns { db with taskMetrics := metrics } = findRunning id ns db from rfl]
  rcases findRunning id ns db with _ | _
  · rfl
  · dsimp only [archiveJobRow]
    rcases db.archivedJobs.insert _ with _ | _
    · rfl
    · rfl

theorem completeEach_taskMetrics (ns : Option String) (now : Int) (cs : List JobCompletion)
    (db : Db) (metrics : List TaskMetricRow) :
    completeEach ns now cs { db with taskMetrics := metrics } =
      { completeEach ns now cs db with taskMetrics := metrics } := by
  induction cs generalizing db with
  | nil => rfl
  | cons c rest ih => rw [completeEach, complete_taskMetrics, ih, completeEach]

theorem completesEach_taskMetrics (ns : Option String) (now : Int) (cs : List JobCompletion)
    (db : Db) (metrics : List TaskMetricRow) :
    CompletesEach ns now cs { db with taskMetrics := metrics } ↔ CompletesEach ns now cs db := by
  induction cs generalizing db with
  | nil => exact Iff.rfl
  | cons c rest ih => rw [CompletesEach, complete_taskMetrics, ih, CompletesEach]

/-- **A batch completes its jobs as one by one would**, or it fails where one by one would. -/
theorem completeBatch_eq (ns : Option String) (now : Int) (cs : List JobCompletion) (db : Db) :
    (CompletesEach ns now cs db ∧ ∃ metrics, completeBatch ns now cs db =
      .ok ((), { completeEach ns now cs db with taskMetrics := metrics })) ∨
    (¬ CompletesEach ns now cs db ∧ ∃ e, completeBatch ns now cs db = .error e) := by
  induction cs generalizing db with
  | nil => exact .inl ⟨trivial, db.taskMetrics, rfl⟩
  | cons c rest ih =>
    rw [CompletesEach, completeEach, completeBatch]
    simp only [exec, writeTransaction, complete]
    rcases hrun : findRunning c.jobId ns db with _ | row
    · exact .inr ⟨(fun h => by cases h.1), _, rfl⟩
    · simp only []
      rcases ha : archiveJobRow
          { row with status := .complete, completedAt := some now, result := c.result } db
        with e | db₁
      · exact .inr ⟨(fun h => by cases h.1), e, rfl⟩
      · -- the metrics the batch has recorded so far make no difference to the rest
        have hrest := ih { db₁ with
          taskMetrics := db₁.taskMetrics ++
            [⟨c.taskName, c.jobId, c.wallTimeNs, 0, true, now, row.namespace_⟩] }
        rw [completesEach_taskMetrics, completeEach_taskMetrics] at hrest
        rcases hrest with ⟨hall, metrics, hok⟩ | ⟨hnot, e, herr⟩
        · exact .inl ⟨⟨rfl, hall⟩, metrics, hok⟩
        · exact .inr ⟨fun h => hnot h.2, e, herr⟩

theorem findRunning_of_complete {c : JobCompletion} {id : JobId}
    (h : (findRunning id ns ((StoreOp.complete c.jobId c.result ns now).exec db).2).isSome) :
    (findRunning id ns db).isSome := by
  simp only [exec] at h
  rcases writeTransaction_cases (complete c.jobId c.result ns now) db with
    ⟨e, -, htxn⟩ | ⟨a, db', hbody, htxn⟩
  · rwa [htxn] at h
  · rw [htxn] at h
    rw [complete] at hbody
    rcases hrun : findRunning c.jobId ns db with _ | row
    · rw [hrun] at hbody
      cases hbody
    · rw [hrun] at hbody
      simp only [] at hbody
      rcases ha : archiveJobRow
          { row with status := .complete, completedAt := some now, result := c.result } db
        with e | db₁
      · rw [ha] at hbody
        cases hbody
      · rw [ha] at hbody
        obtain ⟨-, rfl⟩ := Prod.mk.inj (Except.ok.inj hbody)
        simp only [findRunning, find_jobs_archive ha] at h
        split at h
        · cases h
        · exact h

/-- If every job of the list completes in its turn, each of them runs at the start. -/
theorem running_of_completesEach {cs : List JobCompletion} (h : CompletesEach ns now cs db) :
    ∀ c ∈ cs, (findRunning c.jobId ns db).isSome := by
  induction cs generalizing db with
  | nil => simp
  | cons c rest ih =>
    intro c' hc'
    rcases mem_cons.1 hc' with rfl | hc'
    · have hok := h.1
      simp only [exec, writeTransaction, complete] at hok
      rcases hrun : findRunning c'.jobId ns db with _ | _
      · rw [hrun] at hok
        cases hok
      · rfl
    · exact findRunning_of_complete (ih h.2 c' hc')

/-! ## Both -/

/-- **Batch writes are all or nothing.** In every store, a batch enqueue inserts every job of
its list with every edge, or answers an error and changes nothing; a batch completion has, up
to the metrics, the effect of completing in list order the jobs that run in the namespace, or
answers an error and changes nothing — and it succeeds exactly when completing the whole list
in order would. -/
theorem batch_writes_all_or_nothing (db : Db) :
    (∀ ds : List Draft, (Ops.enqueueBatch ds).Ensures undisturbed db fun db' r =>
      (r = .ok (ds.map Draft.job) ∧ db'.jobs.rows = db.jobs.rows ++ ds.map Draft.job ∧
        db' = { db with
          jobs := db'.jobs
          jobDependencies := db.jobDependencies ++
            ds.flatMap fun d => d.newJob.dependsOn.map (⟨d.job.id, ·⟩) }) ∨
      ((∃ e, r = .error e) ∧ db' = db)) ∧
    (∀ (cs : List JobCompletion) (namespace_ : Option String) (now : Int),
      (txn (.completeBatch cs namespace_ now)).Ensures undisturbed db fun db' r =>
        (CompletesEach namespace_ now cs db ∧ r = .ok () ∧
          db' = { completeEach namespace_ now
            (cs.filter fun c => (findRunning c.jobId namespace_ db).isSome) db with
              taskMetrics := db'.taskMetrics }) ∨
        (¬ CompletesEach namespace_ now cs db ∧ (∃ e, r = .error e) ∧ db' = db)) := by
  constructor
  · intro ds
    refine .bind (.perform fun env _ => ?_)
    simp only [exec]
    rcases writeTransaction_cases (enqueueBatch (ds.map Draft.entry)) db with
      ⟨e, -, htxn⟩ | ⟨out, db', hbody, htxn⟩
    · rw [htxn]
      exact .inr ⟨⟨_, rfl⟩, rfl⟩
    · rw [htxn]
      obtain ⟨rfl, hrows, hdb'⟩ := enqueueBatch_ok hbody
      have hjobs : (ds.map Draft.entry).map Prod.fst = ds.map Draft.job := by
        rw [map_map]
        rfl
      have hedges : dependencyRows (ds.map Draft.entry) =
          ds.flatMap fun d => d.newJob.dependsOn.map (⟨d.job.id, ·⟩) := by
        rw [dependencyRows, flatMap_map]
        rfl
      rw [hjobs] at hrows ⊢
      rw [hedges] at hdb'
      exact .inl ⟨rfl, hrows, hdb'⟩
  · intro cs ns now
    refine .perform fun env _ => ?_
    simp only [exec]
    rcases completeBatch_eq ns now cs db with ⟨hall, _, hok⟩ | ⟨hnot, e, herr⟩
    · rw [writeTransaction_ok _ hok, filter_eq_self.2 (running_of_completesEach hall)]
      exact .inl ⟨hall, rfl, rfl⟩
    · rw [writeTransaction, herr]
      exact .inr ⟨hnot, ⟨e, rfl⟩, rfl⟩

end Flexiq
