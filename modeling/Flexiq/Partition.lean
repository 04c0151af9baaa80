import Flexiq.Operations
import Flexiq.EffectSound

/-!
# Live jobs, archived jobs and their steps

The two job tables **partition** the jobs: an id is live or archived and never both, the live
table holds exactly the pending and running jobs, the archive exactly the finished ones, and
a step row never outlives the live row of its job.

The invariant is checked against the ten effects (`Partition.of_effect`), which makes it an
invariant of every transaction (`Partition.exec`) and so of every interleaving of clients
(`partition_reachable`). The one assumption is on the world: an id that is drawn for a new
job is not the id of a job that is already stored.
-/

namespace Flexiq

open List Option

variable {row : Job} {jobs : List (Job × List JobId)} {op : StoreOp}

/-- The tables partition the jobs. -/
structure Partition (db : Db) : Prop where
  /-- No id is in both tables. -/
  disjoint : ∀ {id row}, db.jobs.find id = some row → db.archivedJobs.find id = none
  live : ∀ {id row}, db.jobs.find id = some row → row.status = .pending ∨ row.status = .running
  archived : ∀ {id row}, db.archivedJobs.find id = some row → row.status.isTerminal = true
  steps : ∀ s ∈ db.jobSteps.rows, (db.jobs.find s.jobId).isSome = true

theorem partition_empty : Partition Db.empty where
  disjoint h := by cases h
  live h := by cases h
  archived h := by cases h
  steps s hs := by cases hs

namespace Partition

variable {db db' : Db}

section

variable (hp : Partition db)
include hp

/-- A change to the side tables keeps the partition. -/
theorem of_eq (hj : db'.jobs = db.jobs) (ha : db'.archivedJobs = db.archivedJobs)
    (hs : db'.jobSteps = db.jobSteps) : Partition db' where
  disjoint h := by
    rw [hj] at h
    rw [ha]
    exact hp.disjoint h
  live h := by
    rw [hj] at h
    exact hp.live h
  archived h := by
    rw [ha] at h
    exact hp.archived h
  steps s h := by
    rw [hs] at h
    rw [hj]
    exact hp.steps s h

theorem of_replace {row' : Job} (hrow : db.jobs.find row.id = some row)
    (hst : row'.status = .pending ∨ row'.status = .running)
    (hfind : ∀ k, db'.jobs.find k = if k = row.id then some row' else db.jobs.find k)
    (ha : db'.archivedJobs = db.archivedJobs) (hs : db'.jobSteps = db.jobSteps) :
    Partition db' where
  disjoint {id r} h := by
    rw [hfind] at h
    rw [ha]
    split at h
    · next hk => exact hk ▸ hp.disjoint hrow
    · exact hp.disjoint h
  live {id r} h := by
    rw [hfind] at h
    split at h
    · cases h
      exact hst
    · exact hp.live h
  archived h := by
    rw [ha] at h
    exact hp.archived h
  steps s h := by
    rw [hs] at h
    rw [hfind]
    split
    · rfl
    · exact hp.steps s h

theorem of_insert (hsane : (Effect.insert jobs).Sane)
    (hfresh : ∀ e ∈ jobs, db.archivedJobs.find e.1.id = none)
    (h : (Effect.insert jobs).Holds db db') : Partition db' := by
  obtain ⟨-, -, hfind, hdb'⟩ := h
  have ha : db'.archivedJobs = db.archivedJobs := by rw [hdb']
  have hs : db'.jobSteps = db.jobSteps := by rw [hdb']
  -- a live row afterwards is one of the new jobs or was live before
  have hcase : ∀ {k row}, db'.jobs.find k = some row →
      (∃ e ∈ jobs, e.1 = row ∧ row.id = k) ∨ db.jobs.find k = some row := by
    intro _ row hrow
    rw [hfind, or_eq_some_iff] at hrow
    obtain hnew | ⟨-, hold⟩ := hrow
    · obtain ⟨e, he, rfl⟩ := mem_map.1 (mem_of_find?_eq_some hnew)
      have hid := List.find?_some hnew
      exact .inl ⟨e, he, rfl, of_decide_eq_true hid⟩
    · exact .inr hold
  refine ⟨?_, ?_, ?_, ?_⟩
  · intro id row hrow
    rw [ha]
    obtain ⟨e, he, rfl, rfl⟩ | hold := hcase hrow
    · exact hfresh e he
    · exact hp.disjoint hold
  · intro id row hrow
    obtain ⟨e, he, rfl, -⟩ | hold := hcase hrow
    · exact .inl (hsane e he).1
    · exact hp.live hold
  · intro _ _ hrow
    rw [ha] at hrow
    exact hp.archived hrow
  · intro s hmem
    rw [hs] at hmem
    rw [hfind, isSome_or, hp.steps s hmem, Bool.or_true]

theorem of_archive {final : Job} (hsane : (Effect.archive row final).Sane)
    (h : (Effect.archive row final).Holds db db') : Partition db' := by
  obtain ⟨hrow, hid, ha⟩ := h
  have hj := find_jobs_archive ha
  have harch := find_archived_archive ha
  refine ⟨?_, ?_, ?_, ?_⟩
  · intro id r hr
    rw [hj] at hr
    rw [harch]
    split at hr
    · cases hr
    · next hk =>
      rw [if_neg hk]
      exact hp.disjoint hr
  · intro id r hr
    rw [hj] at hr
    split at hr
    · cases hr
    · exact hp.live hr
  · intro _ _ hr
    rw [harch] at hr
    split at hr
    · cases hr
      exact hsane.2
    · exact hp.archived hr
  · intro s hmem
    rw [(archiveJobRow_ok ha).2] at hmem
    obtain ⟨hold, hne⟩ := Table.mem_delete.1 hmem
    rw [hj, if_neg (of_decide_eq_false hne)]
    exact hp.steps s hold

theorem of_purge {p : ArchivePurge} (h : (Effect.purge p).Holds db db') : Partition db' := by
  rw [show db' = _ from h]
  have hsub : ∀ {ids cascade id row},
      (purgeArchivedIdBatch ids cascade db).archivedJobs.find id = some row →
        db.archivedJobs.find id = some row := by
    intro _ _ id row hrow
    simp only [purgeArchivedIdBatch] at hrow
    rw [Table.find_delete] at hrow
    exact (filter_eq_some_iff.1 hrow).1
  refine ⟨?_, hp.live, fun hrow => hp.archived (hsub hrow), hp.steps⟩
  intro _ _ hrow
  refine eq_none_iff_forall_ne_some.2 fun r hr => ?_
  have hnone := hp.disjoint hrow
  rw [hsub hr] at hnone
  cases hnone

/-- **Every effect keeps the partition.** -/
theorem of_effect {e : Effect} (hsane : e.Sane)
    (hfresh : ∀ jobs, e = .insert jobs → ∀ j ∈ jobs, db.archivedJobs.find j.1.id = none)
    (h : e.Holds db db') : Partition db' := by
  cases e with
  | insert jobs => exact hp.of_insert hsane (hfresh jobs rfl) h
  | claimRun row now =>
    obtain ⟨hrow, hs, -, rfl⟩ := h
    exact hp.of_replace hrow (.inr rfl) (find_claimPending now hrow hs) rfl rfl
  | edit =>
    obtain ⟨hrow, hfind, hdb'⟩ := h
    refine hp.of_replace hrow ?_ hfind (by rw [hdb']) (by rw [hdb'])
    obtain hpend | hsame := hsane.2.2.1
    · exact .inl hpend
    · rw [hsame]
      exact hp.live hrow
  | archive => exact hp.of_archive hsane h
  | purge => exact hp.of_purge h
  | step =>
    obtain ⟨⟨job, hjob, -⟩, -, -, -, hins, hdb'⟩ := h
    have hj : db'.jobs = db.jobs := by rw [hdb']
    have ha : db'.archivedJobs = db.archivedJobs := by rw [hdb']
    refine ⟨by grind [Partition], by grind [Partition], by grind [Partition], fun s hs => ?_⟩
    rw [hj]
    rcases (Table.mem_insert hins).1 hs with hold | rfl
    · exact hp.steps s hold
    · rw [hjob]
      rfl
  | _ =>
    exact hp.of_eq (by grind [Effect.Holds]) (by grind [Effect.Holds]) (by grind [Effect.Holds])

end

end Partition

/-! ## Transactions -/

/-- The ids a transaction draws for new jobs are not the ids of stored jobs. -/
def StoreOp.Fresh (op : StoreOp) (db : Db) : Prop :=
  ∀ id ∈ op.newIds, db.jobs.find id = none ∧ db.archivedJobs.find id = none

instance StoreOp.decidableFresh (op : StoreOp) (db : Db) : Decidable (op.Fresh db) :=
  inferInstanceAs (Decidable (∀ id ∈ op.newIds, _ ∧ _))

theorem StoreOp.Effects.mem_entries (h : op.Effects (.insert jobs)) :
    ∀ e ∈ jobs, (e.1.id, e.2) ∈ op.entries := by
  cases op <;> simp [StoreOp.Effects] at h
  case enqueue d | enqueueUnique d | enqueueDebounced d _ _ | retryDead row metadata id now =>
    subst h
    intro e he
    cases mem_singleton.1 he
    exact mem_singleton_self _
  case enqueueBatch ds =>
    subst h
    intro e he
    obtain ⟨d, hd, rfl⟩ := mem_map.1 he
    exact mem_map.2 ⟨d, hd, rfl⟩
  case enqueueUniqueBatch ds =>
    obtain ⟨d, hd, rfl⟩ := h
    intro _ he
    cases mem_singleton.1 he
    exact mem_map.2 ⟨d, hd, rfl⟩

theorem StoreOp.Effects.insert_newIds (h : op.Effects (.insert jobs)) :
    ∀ e ∈ jobs, e.1.id ∈ op.newIds :=
  fun e he => mem_map.2 ⟨_, h.mem_entries e he, rfl⟩

theorem StoreOp.Effects.newIds_of_archive {final : Job} (h : op.Effects (.archive row final)) :
    op.newIds = [] := by
  cases op <;> simp [StoreOp.Effects] at h <;> rfl

/-- **Every transaction keeps the partition**, as long as the ids it draws are fresh. -/
theorem Partition.exec {db : Db} (hp : Partition db) (hfresh : op.Fresh db) :
    Partition (op.exec db).2 := by
  -- the drawn ids stay out of the archive until the transaction has used them
  have hinv := (exec_effects op db).invariant
    (P := fun db => Partition db ∧ ∀ id ∈ op.newIds, db.archivedJobs.find id = none)
  refine (hinv ?_ ⟨hp, fun id hid => (hfresh id hid).2⟩).1
  intro _ _ _ he hs hP
  refine ⟨hP.1.of_effect he.sane ?_ hs, fun id hid => ?_⟩
  · rintro _ rfl j hj
    exact hP.2 j.1.id (he.insert_newIds j hj)
  · refine eq_none_iff_forall_ne_some.2 fun r hr => ?_
    obtain hold | ⟨row, final, rfl, -, -⟩ := archived_cases hs hr
    · rw [hP.2 id hid] at hold
      cases hold
    · rw [he.newIds_of_archive] at hid
      exact absurd hid (by simp)

/-! ## The sweep of finished jobs -/

/-- A row that `archive_old_jobs` moves. -/
def archivable (cutoffMs : Int) (job : Job) : Bool :=
  job.status ∈ [.complete, .dead, .cancelled] && job.completedAt.any (· < cutoffMs)

/-- Move finished rows of the live table to the archive, where a row that is there stays. -/
def archiveOldJobs (cutoffMs : Int) (db : Db) : Nat × Db :=
  let moved := (db.jobs.select (archivable cutoffMs)).foldl (fun (n, archive) row =>
    ((archive.insert row.toArchived).map (n + 1, ·)).getD (n, archive)) (0, db.archivedJobs)
  (moved.1, { db with archivedJobs := moved.2, jobs := db.jobs.delete (archivable cutoffMs) })

/-- **The sweep finds nothing to move**: a finished job leaves the live table as it finishes. -/
theorem Partition.archiveOldJobs_eq {db : Db} (hp : Partition db) (cutoffMs : Int) :
    archiveOldJobs cutoffMs db = (0, db) := by
  have hnone : ∀ row ∈ db.jobs.rows, archivable cutoffMs row = false := fun row hrow => by
    obtain hst | hst := hp.live (Table.find_of_mem hrow) <;> simp [archivable, hst]
  have hselect : db.jobs.select (archivable cutoffMs) = [] :=
    filter_eq_nil_iff.2 fun row hrow => by simp [hnone row hrow]
  have hdelete : db.jobs.delete (archivable cutoffMs) = db.jobs :=
    Table.ext_rows (filter_eq_self.2 fun row hrow => by simp [hnone row hrow])
  simp [archiveOldJobs, hselect, hdelete]

/-! ## Runs -/

/-- Clients of the store may start any call at any time; ids drawn for new jobs are fresh. -/
abbrev storeRules (codec : MetadataCodec) (τ : Type) :
    Rules storeMachine (storeClients codec) τ where
  mayStart _ _ _ := True
  mayStep db _ op _ := StoreOp.Fresh op db

/-- **In every state that any interleaving of the public operations reaches, the tables
partition the jobs.** -/
theorem partition_reachable (codec : MetadataCodec) {τ : Type} [DecidableEq τ]
    {c : Pool storeMachine τ}
    (h : Pool.Reaches (storeRules codec τ) (Pool.idle Db.empty) c) : Partition c.state :=
  Pool.invariant (P := Partition) (fun _ _ _ _ hp hfresh => hp.exec hfresh) partition_empty h

def plainCodec : MetadataCodec := ⟨fun _ => 0, fun _ _ => ""⟩

/-- Two clients: one enqueues, dequeues and completes a job while the other enqueues a second
one. The first job ends in the archive, the second stays live. -/
def sampleMoves : List (Move storeMachine (storeClients plainCodec) Bool) :=
  [.start true (.enqueue ⟨.plain "q" "t", "a", 0⟩), .step true (),
   .start true (.dequeueFrom ["q"] 1 none fun _ => .fifo),
   .start false (.enqueue ⟨.plain "q" "t", "b", 1⟩), .step true (), .step false (),
   .start true (.complete "a" none none 2), .step true ()]

theorem partition_reachable_sample :
    ∃ c, Pool.Reaches (storeRules plainCodec Bool) (Pool.idle Db.empty) c ∧
      ((c.state.jobs.find "b").isSome ∧ (c.state.archivedJobs.find "a").isSome) ∧
      Partition c.state := by
  refine Pool.exists_reaches_and sampleMoves ?_ fun c hc => partition_reachable plainCodec hc
  decide

end Flexiq
