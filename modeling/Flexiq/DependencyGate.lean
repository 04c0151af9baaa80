import Flexiq.Partition

/-!
# Dependencies gate the dequeue

A job that declared dependencies waits until each of them has completed. The gate itself
(`depsSatisfied`) looks at the **edges** that are in the table when the job is dequeued, and an
edge whose target is in neither job table does not block — so what a dequeue guarantees about
the *declared* list is a fact about whole histories, not about one call.

The invariant (`Gate`) says that a live job still has an edge for every dependency it declared,
except for those that have already completed, and that every edge points to a stored job. The
effects keep it with one exception: a purge batch deletes the edges of the jobs it removes, and
a retention purge removes *failed*, *cancelled* and *dead* jobs too. A run in which no purge
takes such a job from under a live dependent is safe (`dependency_gate`); a run in which one
does can start a job whose dependency failed (`dependency_gate_broken`).
-/

namespace Flexiq

open List Option Table

def Db.Complete (db : Db) (id : JobId) : Prop :=
  ∃ row, db.archivedJobs.find id = some row ∧ row.status = .complete

def Db.Live (db : Db) (id : JobId) : Prop := (db.jobs.find id).isSome = true

def Db.Running (db : Db) (id : JobId) : Prop :=
  ∃ row, db.jobs.find id = some row ∧ row.status = .running

instance (db : Db) (id : JobId) : Decidable (db.Live id) :=
  inferInstanceAs (Decidable (_ = true))

instance (db : Db) (id : JobId) : Decidable (db.Complete id) :=
  decidable_of_iff ((db.archivedJobs.find id).any (·.status = .complete) = true)
    (by simp [Db.Complete, Option.any_eq_true])

instance (db : Db) (id : JobId) : Decidable (db.Running id) :=
  decidable_of_iff ((db.jobs.find id).any (·.status = .running) = true)
    (by simp [Db.Running, Option.any_eq_true])

/-! ## The invariant -/

/-- What holds between the tables and the past, where `declared j d` says that `j` was enqueued
with dependency `d` and `completed d` that `d` was complete at some time. -/
structure Gate (declared : JobId → JobId → Prop) (completed : JobId → Prop) (db : Db) :
    Prop where
  partition : Partition db
  /-- An edge points to a stored job. -/
  known : ∀ e ∈ db.jobDependencies,
    (db.jobs.find e.dependsOn).isSome = true ∨ (db.archivedJobs.find e.dependsOn).isSome = true
  /-- A live job is flagged and has an edge for each dependency that is still open. -/
  waits : ∀ {j row d}, db.jobs.find j = some row → declared j d →
    row.hasDeps = true ∧ (⟨j, d⟩ ∈ db.jobDependencies ∨ completed d)

/-- A job that passes the gate had every dependency it declared complete. -/
theorem Gate.satisfied {declared : JobId → JobId → Prop} {completed : JobId → Prop} {db : Db}
    (hg : Gate declared completed db) {row : Job} (hrow : db.jobs.find row.id = some row)
    (hsat : row.hasDeps = true → depsSatisfied db row.id = true) {d : JobId}
    (hd : declared row.id d) : db.Complete d ∨ completed d := by
  obtain ⟨hflag, hedge | hdone⟩ := hg.waits hrow hd
  · refine .inl ?_
    have hdep : d ∈ dependencyIds db row.id :=
      mem_map.2 ⟨⟨row.id, d⟩, mem_filter.2 ⟨hedge, by simp⟩, rfl⟩
    have hne : (dependencyIds db row.id).isEmpty = false :=
      isEmpty_eq_false_iff.2 (ne_nil_of_mem hdep)
    have hcounts := hsat hflag
    simp only [depsSatisfied, hne, Bool.false_or, beq_iff_eq, Nat.add_eq_zero_iff,
      count_eq_zero] at hcounts
    obtain ⟨hlive, harch⟩ := hcounts
    -- a live target is pending or running, so the edge would have blocked
    obtain hsome | hsome := hg.known _ hedge
    · obtain ⟨r, hr⟩ := isSome_iff_exists.1 hsome
      have hid : r.id = d := find_key hr
      have hblock := hlive r (mem_of_find hr)
      have hst : r.status ≠ .complete := by
        obtain h | h := hg.partition.live hr <;> rw [h] <;> decide
      simp [hid, hdep, hst] at hblock
    · obtain ⟨r, hr⟩ := isSome_iff_exists.1 hsome
      have hid : r.id = d := find_key hr
      have hpass := harch r (mem_of_find hr)
      simp only [hid, hdep, true_and, decide_eq_false_iff_not, not_not] at hpass
      exact ⟨r, hr, hpass⟩
  · exact .inr hdone

/-- The next batch of the purge takes no job that did not complete from under a live
dependent. -/
abbrev ArchivePurge.Releases (p : ArchivePurge) (db : Db) : Prop :=
  ∀ row ∈ p.batch db, row.status ≠ .complete →
    ∀ e ∈ db.jobDependencies, e.dependsOn = row.id → db.jobs.find e.jobId = none

namespace Gate

variable {declared : JobId → JobId → Prop} {completed : JobId → Prop} {db db' : Db}

section

variable (hg : Gate declared completed db)
include hg

section

variable (hp : Partition db')
include hp

/-- A live row of the new state was live before under the same flag, edges are the same and no
stored job is forgotten. -/
theorem of_rows (hdeps : db'.jobDependencies = db.jobDependencies)
    (hlive : ∀ {k row'}, db'.jobs.find k = some row' → ∃ row, db.jobs.find k = some row ∧
      row'.hasDeps = row.hasDeps)
    (hknown : ∀ {k}, (db.jobs.find k).isSome = true ∨ (db.archivedJobs.find k).isSome = true →
      (db'.jobs.find k).isSome = true ∨ (db'.archivedJobs.find k).isSome = true) :
    Gate declared completed db' where
  partition := hp
  known e he := by
    rw [hdeps] at he
    exact hknown (hg.known e he)
  waits {j row' d} hrow hd := by
    obtain ⟨row, hold, hflag⟩ := hlive hrow
    rw [hdeps, hflag]
    exact hg.waits hold hd

theorem of_replace {row row' : Job} (hrow : db.jobs.find row.id = some row)
    (hflag : row'.hasDeps = row.hasDeps)
    (hfind : ∀ k, db'.jobs.find k = if k = row.id then some row' else db.jobs.find k)
    (ha : db'.archivedJobs = db.archivedJobs) (hdeps : db'.jobDependencies = db.jobDependencies) :
    Gate declared completed db' := by
  refine hg.of_rows hp hdeps (fun {k r} hr => ?_) (fun {k} hk => ?_)
  · rw [hfind] at hr
    split at hr
    · next hkey =>
      cases hr
      exact ⟨row, hkey ▸ hrow, hflag⟩
    · exact ⟨r, hr, rfl⟩
  · rw [hfind, ha]
    split
    · exact .inl rfl
    · exact hk

theorem of_archive {row final : Job} (h : (Effect.archive row final).Holds db db') :
    Gate declared completed db' := by
  obtain ⟨-, -, ha⟩ := h
  refine hg.of_rows hp (by rw [(archiveJobRow_ok ha).2]) (fun {k r} hr => ?_)
    (fun {k} hk => ?_)
  · rw [find_jobs_archive ha] at hr
    split at hr
    · cases hr
    · exact ⟨r, hr, rfl⟩
  · rw [find_jobs_archive ha, find_archived_archive ha]
    split
    · exact .inr rfl
    · exact hk

/-- New jobs bring an edge for each dependency they declare, and each of those is stored. -/
theorem of_insert {jobs : List (Job × List JobId)} (hsane : (Effect.insert jobs).Sane)
    (hdeclared : ∀ e ∈ jobs, ∀ d, declared e.1.id d → d ∈ e.2)
    (h : (Effect.insert jobs).Holds db db') : Gate declared completed db' := by
  obtain ⟨hval, -, hfind, hdb'⟩ := h
  have hdeps : db'.jobDependencies = db.jobDependencies ++ dependencyRows jobs := by rw [hdb']
  have ha : db'.archivedJobs = db.archivedJobs := by rw [hdb']
  have hknown : ∀ {k}, (db.jobs.find k).isSome = true ∨ (db.archivedJobs.find k).isSome = true →
      (db'.jobs.find k).isSome = true ∨ (db'.archivedJobs.find k).isSome = true := by
    intro _ hk
    rw [hfind, ha, isSome_or]
    exact hk.imp_left fun hsome => by rw [hsome, Bool.or_true]
  have hnew : ∀ e ∈ jobs, (db'.jobs.find e.1.id).isSome = true := by
    intro e he
    rw [hfind, isSome_or, Bool.or_eq_true]
    refine .inl (List.find?_isSome.2 ⟨e.1, mem_map.2 ⟨e, he, rfl⟩, by simp⟩)
  refine ⟨hp, ?_, ?_⟩
  · intro edge hedge
    rw [hdeps, mem_append] at hedge
    obtain hold | hrow := hedge
    · exact hknown (hg.known edge hold)
    · obtain ⟨e, he, hmem⟩ := mem_flatMap.1 hrow
      obtain ⟨d, hd, rfl⟩ := mem_map.1 hmem
      obtain ⟨e', he', rfl⟩ | hstored := hval e he d hd
      · exact .inl (hnew e' he')
      · exact hknown hstored
  · intro j _ d hrow hd
    rw [hfind, or_eq_some_iff] at hrow
    rw [hdeps, mem_append]
    obtain hin | ⟨-, hold⟩ := hrow
    · obtain ⟨e, he, rfl⟩ := mem_map.1 (mem_of_find?_eq_some hin)
      have hkey := List.find?_some hin
      obtain rfl : e.1.id = j := of_decide_eq_true hkey
      have hmem := hdeclared e he d hd
      refine ⟨?_, .inl (.inr ?_)⟩
      · rw [(hsane e he).2, isEmpty_eq_false_iff.2 (ne_nil_of_mem hmem)]
        rfl
      · exact mem_flatMap.2 ⟨e, he, mem_map.2 ⟨d, hmem, rfl⟩⟩
    · exact (hg.waits hold hd).imp_right fun h => h.imp_left .inl

/-- A purge batch deletes edges; where it deletes one of a live job, its target had
completed. -/
theorem of_purge {p : ArchivePurge} (hrel : p.Releases db)
    (hdone : ∀ d, db.Complete d → completed d) (h : (Effect.purge p).Holds db db') :
    Gate declared completed db' := by
  have hbatch : ∀ row ∈ p.batch db, db.archivedJobs.find row.id = some row := fun row hrow =>
    find_of_mem (mem_select.1 (mem_of_mem_take hrow)).1
  have hdeps : ∀ {e}, e ∈ db'.jobDependencies ↔ e ∈ db.jobDependencies ∧
      e.jobId ∉ (p.batch db).map Job.id ∧ e.dependsOn ∉ (p.batch db).map Job.id := by
    intro e
    rw [show db' = _ from h]
    simp only [purgeArchivedIdBatch, mem_filter, decide_eq_true_eq]
  have hj : db'.jobs = db.jobs := by rw [show db' = _ from h]; rfl
  refine ⟨hp, ?_, ?_⟩
  · intro e he
    obtain ⟨hold, -, hkeep⟩ := hdeps.1 he
    rw [hj]
    refine (hg.known e hold).imp_right fun hsome => ?_
    obtain ⟨r, hr⟩ := isSome_iff_exists.1 hsome
    have hid : r.id = e.dependsOn := find_key hr
    rw [show db' = _ from h]
    simp only [purgeArchivedIdBatch]
    rw [find_delete, hr, filter_some, if_pos (by simp [hid, hkeep])]
    rfl
  · intro j _ d hrow hd
    rw [hj] at hrow
    obtain ⟨hflag, hedge | hcomp⟩ := hg.waits hrow hd
    · refine ⟨hflag, ?_⟩
      -- the job itself is live, so only its target can be among the purged
      have hjob : j ∉ (p.batch db).map Job.id := by
        intro hmem
        obtain ⟨r, hr, rfl⟩ := mem_map.1 hmem
        have hnone := hg.partition.disjoint hrow
        rw [hbatch r hr] at hnone
        cases hnone
      by_cases hmem : d ∈ (p.batch db).map Job.id
      · obtain ⟨r, hr, rfl⟩ := mem_map.1 hmem
        refine .inr (hdone _ ⟨r, hbatch r hr, ?_⟩)
        by_contra hst
        have hnone := hrel r hr hst _ hedge rfl
        rw [hrow] at hnone
        cases hnone
      · exact .inl (hdeps.2 ⟨hedge, hjob, hmem⟩)
    · exact ⟨hflag, .inr hcomp⟩

end

/-- **Every effect keeps the gate**, given what the transaction knows about its inserts and its
purge. -/
theorem of_effect {e : Effect} (hsane : e.Sane) (hp : Partition db')
    (hins : ∀ jobs, e = .insert jobs → ∀ j ∈ jobs, ∀ d, declared j.1.id d → d ∈ j.2)
    (hpurge : ∀ p, e = .purge p → p.Releases db ∧ ∀ d, db.Complete d → completed d)
    (h : e.Holds db db') : Gate declared completed db' := by
  -- an effect on the side tables only
  have hside : db'.jobs = db.jobs → db'.archivedJobs = db.archivedJobs →
      db'.jobDependencies = db.jobDependencies → Gate declared completed db' := by
    intro hj ha hdeps
    refine hg.of_rows hp hdeps (fun {k r} hr => ⟨r, hj ▸ hr, rfl⟩) (fun hk => ?_)
    rw [hj, ha]
    exact hk
  cases e with
  | insert jobs => exact hg.of_insert hp hsane (hins jobs rfl) h
  | claimRun row now =>
    obtain ⟨hrow, hs, -, rfl⟩ := h
    have hdeps : (row.started now).hasDeps = row.hasDeps := rfl
    exact hg.of_replace hp hrow hdeps (find_claimPending now hrow hs) rfl rfl
  | edit =>
    obtain ⟨hrow, hfind, hdb'⟩ := h
    exact hg.of_replace hp hrow hsane.2.1 hfind (by rw [hdb']) (by rw [hdb'])
  | archive => exact hg.of_archive hp h
  | purge p => exact hg.of_purge hp (hpurge p rfl).1 (hpurge p rfl).2 h
  | _ => exact hside (by grind [Effect.Holds]) (by grind [Effect.Holds]) (by grind [Effect.Holds])

end

end Gate

/-! ## What an effect starts and completes -/

theorem running_of_holds {e : Effect} {db db' : Db} (hsane : e.Sane) (h : e.Holds db db')
    {j : JobId} (hrun : db'.Running j) :
    db.Running j ∨ ∃ row now, e = .claimRun row now ∧ row.id = j := by
  obtain ⟨row', hfind', hst⟩ := hrun
  obtain hsame | ⟨jobs, rfl, entry, hmem, rfl, -⟩ | ⟨row, hid, hrow, ⟨now, rfl, -⟩ | rfl⟩ :=
    row_of_effect h hfind'
  · exact .inl ⟨row', hsame, hst⟩
  · rw [(hsane entry hmem).1] at hst
    cases hst
  · exact .inr ⟨row, now, rfl, hid⟩
  · obtain hpend | hkept := hsane.2.2.1
    · rw [hst] at hpend
      cases hpend
    · exact .inl ⟨row, hrow, hkept ▸ hst⟩

/-! ## Histories -/

/-- One executed transaction, with the tables before and after it. -/
abbrev StoreEvent := Event storeMachine

namespace StoreEvent

/-- The transaction enqueued job `j` with the dependency list `deps`. -/
abbrev Enqueues (e : StoreEvent) (j : JobId) (deps : List JobId) : Prop :=
  (j, deps) ∈ StoreOp.entries e.op ∧ ¬ Db.Live e.before j ∧ Db.Live e.after j

/-- The transaction moved job `j` to running. -/
abbrev Starts (e : StoreEvent) (j : JobId) : Prop :=
  ¬ Db.Running e.before j ∧ Db.Running e.after j

/-- The transaction completed job `d`. -/
abbrev Completes (e : StoreEvent) (d : JobId) : Prop :=
  ¬ Db.Complete e.before d ∧ Db.Complete e.after d

end StoreEvent

/-- At some time `j` was enqueued with `d` among its dependencies. -/
def DeclaredIn (log : List StoreEvent) (j d : JobId) : Prop :=
  ∃ e ∈ log, ∃ deps, StoreEvent.Enqueues e j deps ∧ d ∈ deps

/-- At some time `d` became complete. -/
def CompletedIn (log : List StoreEvent) (d : JobId) : Prop :=
  ∃ e ∈ log, StoreEvent.Completes e d

/-- **Dependency gating**: whenever a transaction of the history moves a job to running, each
dependency the job was enqueued with had completed in an earlier transaction. -/
def DependencyGating (log : List StoreEvent) : Prop :=
  ∀ later e earlier, log = later ++ e :: earlier → ∀ j, StoreEvent.Starts e j →
    ∀ d, DeclaredIn earlier j d → CompletedIn earlier d

/-- The ids a transaction draws are distinct and were never the id of a job. -/
abbrev StoreOp.NeverUsed (op : StoreOp) (db : Db) (log : List StoreEvent) : Prop :=
  op.newIds.Nodup ∧ op.Fresh db ∧ ∀ e ∈ log, ∀ id ∈ op.newIds, ¬ Db.Live e.after id

/-- The purge a transaction is a batch of. -/
def StoreOp.purge : StoreOp → Option ArchivePurge
  | purgeArchived p => some p
  | _ => none

/-- Where the transaction is a purge batch, it takes no job that did not complete from under a
live dependent. -/
def StoreOp.Releases (op : StoreOp) (db : Db) : Prop := ∀ p ∈ op.purge, p.Releases db

theorem StoreOp.Effects.archive_of_claimRun {op : StoreOp} {row row' final : Job} {now : Int}
    (h : op.Effects (.claimRun row now)) (h' : op.Effects (.archive row' final)) :
    final.status ≠ .complete := by
  cases op <;> simp [StoreOp.Effects] at h
  case dequeue | dequeueBatch =>
    obtain ⟨r, -, -, -, hr | hr⟩ := h'
    · cases hr
    · cases hr
      exact fun hst => by cases hst

theorem StoreOp.Effects.archive_of_purge {op : StoreOp} {p : ArchivePurge}
    (h : op.Effects (.purge p)) (row final : Job) : ¬ op.Effects (.archive row final) := by
  cases op <;> simp [StoreOp.Effects] at h
  case purgeArchived =>
    intro h'
    cases h'

/-! ## One transaction -/

section Transaction

variable {db : Db} {log : List StoreEvent} {op : StoreOp}

/-- What a job that is live before a transaction declared, it declared earlier. -/
theorem declaredIn_of_live {db' : Db} {j d : JobId} (hlive : db.Live j)
    (h : DeclaredIn (⟨op, db, db'⟩ :: log) j d) : DeclaredIn log j d := by
  obtain ⟨e, he, deps, henq, hd⟩ := h
  obtain rfl | hold := mem_cons.1 he
  · exact absurd hlive henq.2.1
  · exact ⟨e, hold, deps, henq, hd⟩

/-- What a new job has declared is the dependency list it is inserted with. -/
theorem mem_of_declaredIn {db' : Db} (hids : op.NeverUsed db log)
    {jobs : List (Job × List JobId)} (hop : op.Effects (.insert jobs)) {j : Job × List JobId}
    (hj : j ∈ jobs) {d : JobId} (h : DeclaredIn (⟨op, db, db'⟩ :: log) j.1.id d) : d ∈ j.2 := by
  obtain ⟨e, he, deps, henq, hd⟩ := h
  obtain rfl | hold := mem_cons.1 he
  · -- ids are distinct within the transaction, so both entries are the same
    have hinj := inj_on_of_nodup_map hids.1 henq.1 (hop.mem_entries j hj) rfl
    obtain rfl : deps = j.2 := congrArg Prod.snd hinj
    exact hd
  · exact absurd henq.2.2 (hids.2.2 e hold _ (hop.insert_newIds j hj))

/-- What holds in the middle of a transaction that began in `db` after the history `log`, where
`log'` already includes it. -/
structure MidGate (op : StoreOp) (db : Db) (log log' : List StoreEvent) (mid : Db) : Prop where
  gate : Gate (DeclaredIn log') (CompletedIn log) mid
  /-- The drawn ids are still unused in the archive. -/
  fresh : ∀ id ∈ op.newIds, mid.archivedJobs.find id = none
  /-- While it claims or purges, what is complete has been so before. -/
  complete : (∀ row final, op.Effects (.archive row final) → final.status ≠ .complete) →
    ∀ d, mid.Complete d → CompletedIn log d
  started : ∀ j, mid.Running j → db.Running j ∨ ∀ d, DeclaredIn log' j d → CompletedIn log d

theorem MidGate.of_effect {log' : List StoreEvent} {mid mid' : Db}
    (hm : MidGate op db log log' mid) {e : Effect} (he : op.Effects e)
    (hdecl : ∀ jobs, op.Effects (.insert jobs) → ∀ j ∈ jobs,
      ∀ d, DeclaredIn log' j.1.id d → d ∈ j.2)
    (hpurge : ∀ p, e = .purge p → p.Releases mid) (h : e.Holds mid mid') :
    MidGate op db log log' mid' := by
  have hfresh : ∀ jobs, e = .insert jobs → ∀ j ∈ jobs, mid.archivedJobs.find j.1.id = none := by
    rintro jobs rfl j hj
    exact hm.fresh _ (he.insert_newIds j hj)
  refine ⟨hm.gate.of_effect he.sane (hm.gate.partition.of_effect he.sane hfresh h) ?_ ?_ h,
    ?_, ?_, ?_⟩
  · rintro jobs rfl
    exact hdecl jobs he
  · rintro p rfl
    refine ⟨hpurge p rfl, hm.complete fun row final harch => ?_⟩
    exact absurd harch (he.archive_of_purge row final)
  · intro id hid
    refine eq_none_iff_forall_ne_some.2 fun r hr => ?_
    obtain hold | ⟨row, final, rfl, -, -⟩ := archived_cases h hr
    · rw [hm.fresh id hid] at hold
      cases hold
    · rw [he.newIds_of_archive] at hid
      exact absurd hid (by simp)
  · intro hne d ⟨r, hr, hst⟩
    obtain hold | ⟨row, final, rfl, -, rfl⟩ := archived_cases h hr
    · exact hm.complete hne d ⟨r, hold, hst⟩
    · exact absurd hst (hne row final he)
  · intro j hrun
    obtain hold | ⟨row, now, rfl, rfl⟩ := running_of_holds he.sane h hrun
    · exact hm.started j hold
    · obtain ⟨hrow, -, hsat, -⟩ := h
      refine .inr fun d hd => ?_
      obtain hc | hc := hm.gate.satisfied hrow hsat hd
      · exact hm.complete (fun row' final harch => he.archive_of_claimRun harch) d hc
      · exact hc

/-- The history so far obeys the gate, and the tables agree with it. -/
structure GateHistory (db : Db) (log : List StoreEvent) : Prop where
  gate : Gate (DeclaredIn log) (CompletedIn log) db
  /-- What is complete became so in the history. -/
  complete : ∀ d, db.Complete d → CompletedIn log d
  gating : DependencyGating log

/-- **From the start of a transaction to its end.** -/
theorem GateHistory.mid (hh : GateHistory db log) (hids : op.NeverUsed db log)
    (hrel : op.Releases db) :
    MidGate op db log (⟨op, db, (op.exec db).2⟩ :: log) (op.exec db).2 := by
  have hdecl : ∀ jobs, op.Effects (.insert jobs) → ∀ j ∈ jobs, ∀ d,
      DeclaredIn (⟨op, db, (op.exec db).2⟩ :: log) j.1.id d → d ∈ j.2 :=
    fun jobs hop j hj d hd => mem_of_declaredIn hids hop hj hd
  have hstart : MidGate op db log (⟨op, db, (op.exec db).2⟩ :: log) db := by
    refine ⟨⟨hh.gate.partition, hh.gate.known, fun {j row d} hrow hd => ?_⟩,
      fun id hid => (hids.2.1 id hid).2, fun _ => hh.complete, fun j hj => .inl hj⟩
    have hlive : db.Live j := by
      rw [Db.Live, hrow]
      rfl
    exact hh.gate.waits hrow (declaredIn_of_live hlive hd)
  cases op with
  | purgeArchived p =>
    -- a purge batch is a single effect, so its condition speaks about the state it runs in
    refine hstart.of_effect (e := .purge p) rfl hdecl (fun q hq => ?_) rfl
    cases hq
    exact hrel p rfl
  | _ =>
    refine (exec_effects _ db).invariant (fun e mid mid' he h hm => ?_) hstart
    refine hm.of_effect he hdecl (fun p hp => ?_) h
    subst hp
    simp [StoreOp.Effects] at he

/-- **Every transaction that releases what it purges extends the history safely.** -/
theorem GateHistory.exec (hh : GateHistory db log) (hids : op.NeverUsed db log)
    (hrel : op.Releases db) : GateHistory (op.exec db).2 (⟨op, db, (op.exec db).2⟩ :: log) := by
  have hm := hh.mid hids hrel
  have hlog : ∀ {d}, CompletedIn log d → CompletedIn (⟨op, db, (op.exec db).2⟩ :: log) d :=
    fun ⟨e, he, hc⟩ => ⟨e, mem_cons_of_mem _ he, hc⟩
  refine ⟨⟨hm.gate.partition, hm.gate.known, fun hrow hd => ?_⟩, fun d hd => ?_, ?_⟩
  · exact (hm.gate.waits hrow hd).imp_right fun h => h.imp_right hlog
  · by_cases hbefore : db.Complete d
    · exact hlog (hh.complete d hbefore)
    · exact ⟨_, mem_cons_self, hbefore, hd⟩
  · intro later e earlier heq j hstarts d hd
    rcases later with _ | ⟨_, later⟩
    · -- the transaction itself
      obtain ⟨rfl, rfl⟩ := List.cons.inj heq
      obtain hrun | hdone := hm.started j hstarts.2
      · exact absurd hrun hstarts.1
      · obtain ⟨e, he, hdecl⟩ := hd
        exact hdone d ⟨e, mem_cons_of_mem _ he, hdecl⟩
    · obtain ⟨-, htail⟩ := List.cons.inj heq
      exact hh.gating later e earlier htail j hstarts d hd

end Transaction

/-! ## Runs -/

/-- Clients of the store may start any call at any time; an id drawn for a new job was never
used. -/
abbrev historyRules (codec : MetadataCodec) (τ : Type) :
    Rules storeMachine.logged (storeClients codec) τ where
  mayStart _ _ _ := True
  mayStep s _ op _ := StoreOp.NeverUsed op s.1 s.2

instance StoreOp.decidableReleases (op : StoreOp) (db : Db) : Decidable (op.Releases db) :=
  inferInstanceAs (Decidable (∀ p ∈ op.purge, _))

/-- The same clients, when every purge batch releases what it takes. -/
abbrev releasingRules (codec : MetadataCodec) (τ : Type) :
    Rules storeMachine.logged (storeClients codec) τ where
  mayStart _ _ _ := True
  mayStep s _ op _ := StoreOp.NeverUsed op s.1 s.2 ∧ StoreOp.Releases op s.1

theorem gateHistory_empty : GateHistory Db.empty [] := by
  refine ⟨⟨partition_empty, fun e he => ?_, fun hrow => ?_⟩, fun d hd => ?_, ?_⟩
  · cases he
  · cases hrow
  · obtain ⟨r, hr, -⟩ := hd
    cases hr
  · intro _ _ _ heq
    exact absurd heq (by simp)

/-- **In every run whose purge batches release what they take, a job only starts after each
dependency it declared has completed.** -/
theorem dependency_gate (codec : MetadataCodec) {τ : Type} [DecidableEq τ]
    {c : Pool storeMachine.logged τ}
    (h : Pool.Reaches (releasingRules codec τ) (Pool.idle (Db.empty, [])) c) :
    DependencyGating c.state.2 := by
  have hinv := Pool.invariant (R := releasingRules codec τ)
    (P := fun s => GateHistory s.1 s.2)
    (fun s t op env hh hstep => hh.exec hstep.1 hstep.2) gateHistory_empty h
  exact hinv.gating

/-- The latest transaction started `j`, which had been enqueued with the dependencies
`deps`. -/
def LastStarts (j : JobId) (deps : List JobId) : List StoreEvent → Prop
  | [] => False
  | e :: earlier => StoreEvent.Starts e j ∧ ∃ e' ∈ earlier, StoreEvent.Enqueues e' j deps

instance (j : JobId) (deps : List JobId) : DecidablePred (LastStarts j deps) := fun log => by
  unfold LastStarts
  split <;> infer_instance

/-- The calls of a run in which `b` waits for `a`, and `a` runs first. -/
def enqueuePair : List (Move storeMachine.logged (storeClients plainCodec) Unit) :=
  [.start () (.enqueue ⟨.plain "q" "t", "a", 0⟩), .step () (),
   .start () (.enqueue ⟨{ NewJob.plain "q" "t" with dependsOn := ["a"] }, "b", 1⟩), .step () (),
   .start () (.dequeueFrom ["q"] 2 none fun _ => .fifo), .step () ()]

/-- `a` completes and is purged, then `b` starts. -/
theorem dependency_gate_sample :
    ∃ c, Pool.Reaches (releasingRules plainCodec Unit) (Pool.idle (Db.empty, [])) c ∧
      LastStarts "b" ["a"] c.state.2 ∧ DependencyGating c.state.2 := by
  refine Pool.exists_reaches_and
    (enqueuePair ++
      [.start () (.complete "a" none none 3), .step () (),
       .start () (.purgeCompletedWithTtl (some 9) 9), .step () (), .step () (),
       .start () (.dequeueFrom ["q"] 9 none fun _ => .fifo), .step () ()])
    ?_ fun c hc => dependency_gate plainCodec hc
  decide

/-- `a` fails, a retention purge deletes it with the edge that blocked `b`, and `b` starts. -/
theorem dependency_gate_broken :
    ¬ ∀ c : Pool storeMachine.logged Unit,
      Pool.Reaches (historyRules plainCodec Unit) (Pool.idle (Db.empty, [])) c →
        DependencyGating c.state.2 := by
  intro hall
  obtain ⟨c, hc, hstarts, hnever⟩ := Pool.exists_reaches (historyRules plainCodec Unit)
    (Pool.idle (Db.empty, []))
    (enqueuePair ++
      [.start () (.fail "a" "boom" 3), .step () (),
       .start () (.purgeCompletedWithTtl (some 9) 9), .step () (), .step () (),
       .start () (.dequeueFrom ["q"] 9 none fun _ => .fifo), .step () ()])
    (fun c => LastStarts "b" ["a"] c.state.2 ∧ ∀ e ∈ c.state.2, ¬ StoreEvent.Completes e "a")
    (by decide)
  have hgate := hall c hc
  rcases hlog : c.state.2 with _ | ⟨e, earlier⟩
  · rw [hlog] at hstarts
    exact hstarts
  · rw [hlog] at hstarts hnever
    obtain ⟨hrun, e', he', henq⟩ := hstarts
    have hdone := hgate [] e earlier hlog "b" hrun "a" ⟨e', he', ["a"], henq, by simp⟩
    obtain ⟨e'', he'', hcomp⟩ := hdone
    exact hnever e'' (mem_cons_of_mem _ he'') hcomp

end Flexiq
