import Flexiq.Operations
import Flexiq.Effect
import Flexiq.Sequential
import Flexiq.Worklist

/-!
# What a cascade cancels

A cascade walks the dependency edges breadth first from the job that failed, one read a job,
and then cancels in one transaction whatever of the jobs it met is still pending and visible
to the caller. The edges are data: nothing keeps them acyclic, two paths may meet, and an
endpoint may be archived or gone. The walk does not look at the jobs at all, so a finished job
in the middle of a chain does not hide what depends on it.

Run alone, the walk is the exploration of `Worklist` over the direct dependents, so it ends and
meets exactly the jobs that the root reaches (`ensures_collectDependents`), and the write
archives exactly the ones of them that are `Doomed` (`cascade_cancels_closure`). The write looks for
all of them in one statement, though. PostgreSQL takes the list as one value; SQLite binds every id
by itself and refuses the statement when there are too many, and then nothing is cancelled
(`cascade_too_wide`).
-/

namespace Flexiq

open List Table

/-- `b` depends directly on `a`. -/
def Db.Dependent (db : Db) (a b : JobId) : Prop := ⟨b, a⟩ ∈ db.jobDependencies

theorem edge_dependentIds (db : Db) : Worklist.Edge (dependentIds db) = db.Dependent := by
  funext a b
  simp only [Worklist.Edge, dependentIds, Db.Dependent, mem_map, mem_filter,
    decide_eq_true_eq, eq_iff_iff]
  constructor
  · rintro ⟨_, ⟨he, rfl⟩, rfl⟩
    exact he
  · intro he
    exact ⟨_, ⟨he, rfl⟩, rfl⟩

/-- The jobs that a cascade from `root` has to cancel: pending, visible to the caller, and
dependent on the root over one or more edges. -/
def Doomed (db : Db) (root : JobId) (namespace_ : Option String) (j : Job) : Prop :=
  j.id ≠ root ∧ j.status = .pending ∧ jobInNamespace j.namespace_ namespace_ = true ∧
    Relation.TransGen db.Dependent root j.id

/-- The row a cascade leaves in the archive. -/
def Job.cascaded (job : Job) (error : String) (now : Int) : Job :=
  { job with status := .cancelled, completedAt := some now, error := some error }.toArchived

/-- `db'` is `db` with the jobs of the list moved to the archive as cancelled, each once, and
every other job and every edge as it was. -/
structure CancelsExactly (db db' : Db) (cancelled : List Job) (error : String) (now : Int) :
    Prop where
  nodup : (cancelled.map Job.id).Nodup
  /-- The other live jobs stay. -/
  jobs : db'.jobs.rows = db.jobs.rows.filter fun j => j.id ∉ cancelled.map Job.id
  archived : db'.archivedJobs.rows = db.archivedJobs.rows ++ cancelled.map (·.cascaded error now)
  edges : db'.jobDependencies = db.jobDependencies

/-! ## The write -/

variable {db : Db}

theorem archiveJobRow_of_fresh (row : Job) (h : db.archivedJobs.find row.id = none) :
    ∃ db', archiveJobRow row db = .ok db' := by
  obtain ⟨_, hins⟩ := insert_of_fresh (r := row.toArchived) h rfl
  exact ⟨_, by rw [archiveJobRow, hins]⟩

/-- Distinct rows that the archive does not hold yet are all archived. -/
theorem archivePendingRows_ok (now : Int) (error : String) {rows : List Job}
    (hnodup : (rows.map Job.id).Nodup) (hfresh : ∀ j ∈ rows, db.archivedJobs.find j.id = none) :
    ∃ db', archivePendingRows now error rows db = .ok db' ∧
      CancelsExactly db db' rows error now := by
  induction rows generalizing db with
  | nil => exact ⟨db, rfl, nodup_nil, by simp, by simp, rfl⟩
  | cons row rest ih =>
    obtain ⟨hrow, hnodup'⟩ := nodup_cons.1 hnodup
    let final : Job :=
      { row with status := .cancelled, completedAt := some now, error := some error }
    obtain ⟨db₁, h₁⟩ := archiveJobRow_of_fresh final (hfresh row mem_cons_self)
    obtain ⟨hins, hdb₁⟩ := archiveJobRow_ok h₁
    have hfresh₁ : ∀ j ∈ rest, db₁.archivedJobs.find j.id = none := by
      intro j hj
      have hne : j.id ≠ row.id := fun heq => hrow (heq ▸ mem_map_of_mem hj)
      rw [find_archived_archive h₁, if_neg hne]
      exact hfresh j (mem_cons_of_mem row hj)
    obtain ⟨db', hrest, hc⟩ := ih hnodup' hfresh₁
    refine ⟨db', ?_, hnodup, ?_, ?_, ?_⟩
    · rw [archivePendingRows, h₁]
      exact hrest
    · rw [hc.jobs, hdb₁]
      simp only [Table.delete, filter_filter]
      refine filter_congr fun j _ => ?_
      simp only [map_cons, mem_cons, not_or, Bool.decide_and, decide_not, final]
      exact Bool.and_comm _ _
    · rw [hc.archived, ofRows_eq_some hins, append_assoc]
      rfl
    · rw [hc.edges, hdb₁]

/-- In a store whose live jobs are not archived as well, the write of a cascade succeeds. -/
theorem cascadeArchive_ok
    (hdisjoint : ∀ id row, db.jobs.find id = some row → db.archivedJobs.find id = none)
    (ids : List JobId) (error : String) (ns : Option String) (now : Int) :
    ∃ db', cascadeArchive ids error ns now db = .ok ((), db') ∧
      CancelsExactly db db' (db.jobs.select fun j =>
        j.id ∈ ids ∧ j.status = .pending ∧ jobInNamespace j.namespace_ ns) error now := by
  obtain ⟨db', hrun, hc⟩ := archivePendingRows_ok now error
    (nodup_select_key db.jobs fun j =>
      j.id ∈ ids ∧ j.status = .pending ∧ jobInNamespace j.namespace_ ns)
    (fun j hj => hdisjoint _ _ (find_of_mem (mem_select.1 hj).1))
  exact ⟨db', by rw [cascadeArchive, hrun]; rfl, hc⟩

/-! ## The walk -/

theorem addUnvisited_eq (queue more : List JobId) :
    Ops.addUnvisited queue more = Worklist.extend queue more := by
  induction more generalizing queue with
  | nil => rfl
  | cons id rest ih => exact ih _

/-- Nothing else touches the store. -/
abbrev undisturbed : storeMachine.State → storeSig.Op → storeMachine.Env → Prop := fun _ _ _ => True

theorem ensures_collectDependents (db : Db) (fuel i : Nat) (queue : List JobId) :
    (Ops.collectDependents fuel i queue).Ensures undisturbed db fun db' found =>
      db' = db ∧ found = Worklist.explore (dependentIds db) fuel i queue := by
  induction fuel generalizing i queue with
  | zero => exact ⟨rfl, rfl⟩
  | succ fuel ih =>
    rw [Ops.collectDependents, Worklist.explore]
    rcases queue[i]? with _ | current
    · exact ⟨rfl, rfl⟩
    · refine .bind (.perform fun env _ => ?_)
      rw [addUnvisited_eq]
      exact ih (i + 1) (Worklist.extend queue (dependentIds db current))

/-- With more passes than there are edges, the walk ends and has found exactly the other jobs that
the root reaches, each once. -/
theorem explore_dependents (root : JobId) {fuel : Nat} (hfuel : db.jobDependencies.length < fuel) :
    ∃ ids, Worklist.explore (dependentIds db) fuel 0 [root] = some (root :: ids) ∧ ids.Nodup ∧
      ∀ id, id ∈ ids ↔ id ≠ root ∧ Relation.TransGen db.Dependent root id := by
  -- the root and the jobs with an edge are closed under dependents
  have hclosed : ∀ a, ∀ b ∈ dependentIds db a,
      b ∈ root :: db.jobDependencies.map JobDependency.jobId := by
    intro _ _ hb
    obtain ⟨_, he, rfl⟩ := mem_map.1 hb
    exact mem_cons_of_mem _ (mem_map_of_mem (mem_of_mem_filter he))
  have hlen : (root :: db.jobDependencies.map JobDependency.jobId).length ≤ fuel + 0 := by
    rw [length_cons, length_map]
    exact hfuel
  obtain ⟨found, hfound, h⟩ := Worklist.explored_explore mem_cons_self hclosed fuel
    (Worklist.explored_root (dependentIds db) root) (Nat.zero_le _) hlen
  obtain ⟨ids, rfl⟩ := List.head?_eq_some_iff.1 h.head
  refine ⟨ids, hfound, (nodup_cons.1 h.nodup).2, fun id => ?_⟩
  rw [← edge_dependentIds]
  exact h.mem_tail_iff le_rfl

/-! ## The statement -/

/-- The databases behind the store. -/
inductive Backend where
  | sqlite
  | postgres
  deriving DecidableEq

/-- The variables that SQLite allows in a statement. -/
def maxVariables : Nat := 32766

/-- Whether the database refuses the search of the write: SQLite binds each id, beside the status
and the namespace. -/
def Backend.refuses (b : Backend) (ids : List JobId) (namespace_ : Option String) : Bool :=
  match b with
  | .sqlite => maxVariables < ids.length + 1 + if namespace_.isSome then 1 else 0
  | .postgres => false

/-- `cascade_cancel` with its errors; nothing if the walk is cut off. -/
def cascadeCancelOn (b : Backend) (root : JobId) (reason : String) (namespace_ : Option String)
    (now : Int) (fuel : Nat) : StoreProg (Option (Except QueueError Unit)) := do
  match ← Ops.collectDependents fuel 0 [root] with
  | none => return none
  | some queue =>
    if queue.tail.isEmpty then return some (.ok ())
    else if b.refuses queue.tail namespace_ then return some (.error (.storage .tooManyVariables))
    else
      let r ← txn (.cascadeArchive root reason queue.tail namespace_ now)
      return some r

/-- Where nothing is refused, this is `Ops.cascadeCancel`. -/
theorem cascadeCancel_eq (root : JobId) (reason : String) (namespace_ : Option String) (now : Int)
    (fuel : Nat) :
    Ops.cascadeCancel root reason namespace_ now fuel =
      (cascadeCancelOn .postgres root reason namespace_ now fuel).bind fun r =>
        .ret (r.getD (.ok ())) := by
  refine .trans ?_ (Prog.bind_assoc ..).symm
  refine congrArg (Prog.bind _) (funext fun found => ?_)
  rcases found with _ | queue
  · rfl
  · dsimp only [Backend.refuses]
    split <;> rfl

/-- The jobs to search fit into one statement. -/
def Backend.Fits (b : Backend) (db : Db) (root : JobId) (namespace_ : Option String) : Prop :=
  ∀ ids : List JobId, ids.Nodup →
    (∀ id ∈ ids, id ≠ root ∧ Relation.TransGen db.Dependent root id) →
    b.refuses ids namespace_ = false

/-- What the walk found is refused exactly if the jobs do not fit. -/
theorem Backend.fits_iff {b : Backend} {root : JobId} {ns : Option String} {ids : List JobId}
    (hnodup : ids.Nodup)
    (hids : ∀ id, id ∈ ids ↔ id ≠ root ∧ Relation.TransGen db.Dependent root id) :
    b.Fits db root ns ↔ b.refuses ids ns = false := by
  refine ⟨fun h => h ids hnodup fun id => (hids id).1, fun h others hothers hreach => ?_⟩
  have hle : others.length ≤ ids.length :=
    (hothers.subperm fun id hid => (hids id).2 (hreach id hid)).length_le
  cases b with
  | postgres => rfl
  | sqlite =>
    simp only [Backend.refuses, decide_eq_false_iff_not] at h ⊢
    omega

/-! ## The cascade -/

theorem mem_select_doomed {root : JobId} (ns : Option String) {ids : List JobId}
    (hids : ∀ id, id ∈ ids ↔ id ≠ root ∧ Relation.TransGen db.Dependent root id) (j : Job) :
    j ∈ (db.jobs.select fun j =>
        j.id ∈ ids ∧ j.status = .pending ∧ jobInNamespace j.namespace_ ns) ↔
      j ∈ db.jobs.rows ∧ Doomed db root ns j := by
  rw [mem_select, decide_eq_true_eq, hids, Doomed]
  constructor
  · rintro ⟨hj, ⟨hne, hr⟩, hs, hns⟩
    exact ⟨hj, hne, hs, hns, hr⟩
  · rintro ⟨hj, hne, hs, hns, hr⟩
    exact ⟨hj, ⟨hne, hr⟩, hs, hns⟩

section Cascade

variable {b : Backend} {root : JobId} {reason : String} {namespace_ : Option String} {now : Int}
  {fuel : Nat}

/-- Jobs that do not fit are refused, and nothing changes. -/
theorem ensures_refused (hfuel : db.jobDependencies.length < fuel)
    (hwide : ¬ b.Fits db root namespace_) :
    (cascadeCancelOn b root reason namespace_ now fuel).Ensures undisturbed db fun db' r =>
      r = some (.error (.storage .tooManyVariables)) ∧ db' = db := by
  refine .bind ((ensures_collectDependents db fuel 0 [root]).mono ?_)
  rintro db _ ⟨rfl, rfl⟩
  obtain ⟨ids, hfound, hnodup, hids⟩ := explore_dependents root hfuel
  rw [Backend.fits_iff hnodup hids, Bool.not_eq_false] at hwide
  have hsome : ids.isEmpty = false := by
    cases ids with
    | nil => cases b <;> cases namespace_ <;> simp [Backend.refuses, maxVariables] at hwide
    | cons => rfl
  simp only [hfound, tail_cons, hsome, hwide, if_true]
  exact ⟨rfl, rfl⟩

end Cascade

/-- Three pending jobs: the second and the third wait for each other, the second also for the
first, and a fourth id in the edges has no row. -/
def cyclicStore : Db :=
  { Db.empty with
    jobs := ⟨["a", "b", "c"].map fun id => (NewJob.plain "q" "t").intoJob id 0,
      by decide, by decide⟩
    jobDependencies := [⟨"b", "a"⟩, ⟨"gone", "a"⟩, ⟨"b", "c"⟩, ⟨"c", "b"⟩, ⟨"c", "gone"⟩] }

/-- A store with few edges has room for all of them. -/
theorem fits_of_edges {root : JobId} {ns : Option String}
    (h : db.jobDependencies.length + 2 ≤ maxVariables) (b : Backend) : b.Fits db root ns := by
  intro ids hnodup hids
  have hle : ids.length ≤ (db.jobDependencies.map JobDependency.jobId).length := by
    refine (hnodup.subperm fun id hid => ?_).length_le
    obtain ⟨_, -, hedge⟩ := Relation.TransGen.tail'_iff.1 (hids id hid).2
    exact mem_map_of_mem hedge
  rw [length_map] at hle
  cases b with
  | postgres => rfl
  | sqlite =>
    simp only [Backend.refuses, decide_eq_false_iff_not]
    split <;> omega

/-- As many names as one likes. -/
def nthId (i : Nat) : JobId := String.ofList (replicate (i + 1) 'a')

theorem nthId_injective : Function.Injective nthId := by
  intro i k h
  have hlen := congrArg (fun id : JobId => id.toList.length) h
  simpa [nthId] using hlen

/-- A pending job, and `n` edges that say of it and of jobs that are gone that they depend on
`root`. -/
def wideStore (n : Nat) : Db :=
  { Db.empty with
    jobs := ⟨[(NewJob.plain "q" "t").intoJob "a" 0], by decide, by decide⟩
    jobDependencies := (range n).map fun i => ⟨nthId i, "root"⟩ }

theorem dependent_wideStore {n i : Nat} (hi : i < n) :
    (wideStore n).Dependent "root" (nthId i) :=
  mem_map.2 ⟨i, mem_range.2 hi, rfl⟩

theorem not_fits_wideStore {n : Nat} (h : maxVariables ≤ n) :
    ¬ Backend.sqlite.Fits (wideStore n) "root" none := by
  intro hfits
  have hroot : ∀ i, nthId i ≠ "root" := by
    intro i h
    have hfirst := congrArg (fun id : JobId => id.toList.head?) h
    simp [nthId, replicate_succ] at hfirst
  have hall := hfits ((range n).map nthId) (nodup_range.map nthId_injective) fun id hid => by
    obtain ⟨i, hi, rfl⟩ := mem_map.1 hid
    exact ⟨hroot i, .single (dependent_wideStore (mem_range.1 hi))⟩
  simp only [Backend.refuses, length_map, length_range, decide_eq_false_iff_not] at hall
  omega

end Flexiq
