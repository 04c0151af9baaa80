import Flexiq.SleepDeadline

/-!
# The life of a job

A job's row is rewritten many times: a dequeue starts it, a retry or a sleep puts it back, a sweep
expires it. All of that has one **direction**. Attempts go up, the step log grows at its end, and a
job that is over stays over, with the outcome it was archived with.

The direction is an order on stores (`Ages`). Every effect moves along it, and so does every run in
which new jobs get ids that were never used (`job_ages`).
-/

namespace Flexiq

open List Option

/-- Job `j` has only grown older from the first store to the second. -/
structure Ages (j : JobId) (db db' : Db) : Prop where
  /-- A job that is over stays over, and a live one has lost no attempt. -/
  row : ∀ row', db'.jobs.find j = some row' →
    ∃ row, db.jobs.find j = some row ∧ row.retryCount ≤ row'.retryCount
  /-- While the job lives, its log only grows at the end. -/
  steps : db'.Live j → stepRows j db <+: stepRows j db'
  /-- Once the job is over, its outcome can be purged but not changed. -/
  outcome : ¬ db.Live j → ∀ r, db'.archivedJobs.find j = some r → db.archivedJobs.find j = some r

namespace Ages

variable {j : JobId} {db db' db'' : Db} {op : StoreOp} {e : Effect}

theorem refl : Ages j db db :=
  ⟨fun row hrow => ⟨row, hrow, le_rfl⟩, fun _ => prefix_rfl, fun _ _ hr => hr⟩

theorem live (h : Ages j db db') (hlive : db'.Live j) : db.Live j := by
  obtain ⟨row', hrow'⟩ := isSome_iff_exists.1 hlive
  obtain ⟨row, hrow, -⟩ := h.row row' hrow'
  exact isSome_iff_exists.2 ⟨row, hrow⟩

theorem trans (h : Ages j db db') (h' : Ages j db' db'') : Ages j db db'' where
  row row'' hrow'' := by
    obtain ⟨row', hrow', hle'⟩ := h'.row row'' hrow''
    obtain ⟨row, hrow, hle⟩ := h.row row' hrow'
    exact ⟨row, hrow, hle.trans hle'⟩
  steps hlive := (h.steps (h'.live hlive)).trans (h'.steps hlive)
  outcome hover r hr := h.outcome hover r (h'.outcome (fun hlive => hover (h.live hlive)) r hr)

/-- **A job only grows older by an effect** that does not insert it. -/
theorem of_effect (he : op.Effects e) (hj : j ∉ op.newIds) (h : e.Holds db db') :
    Ages j db db' where
  row row' hrow' := by
    obtain hsame | ⟨_, rfl, entry, hmem, -, rfl⟩ | ⟨row, -, hrow, ⟨_, -, -, rfl⟩ | rfl⟩ :=
      row_of_effect h hrow'
    · exact ⟨row', hsame, le_rfl⟩
    · exact absurd (he.insert_newIds entry hmem) hj
    · exact ⟨row, hrow, le_rfl⟩
    · exact ⟨row, hrow, he.sane.2.2.2⟩
  steps hlive := by
    obtain ⟨row', hrow'⟩ := isSome_iff_exists.1 hlive
    cases e with
    | step row l sized =>
      obtain ⟨-, -, -, -, hins, -⟩ := h
      rw [stepRows_insert hins]
      split
      · exact prefix_append _ _
      · exact prefix_rfl
    | archive row final =>
      rw [find_jobs_archive h.2.2] at hrow'
      rw [stepRows_archive h.2.2]
      -- the log that is dropped is the archived job's, which is not live any more
      split at hrow'
      · cases hrow'
      · next hne => rw [if_neg hne]
    | _ =>
      have hsteps : db'.jobSteps = db.jobSteps := by
        grind [Effect.Holds, claimPending, purgeArchivedIdBatch]
      rw [stepRows, stepRows, hsteps]
  outcome hover r hr := by
    obtain hsame | ⟨row, final, rfl, rfl, -⟩ := archived_cases h hr
    · exact hsame
    · exact absurd (isSome_iff_exists.2 ⟨row, h.2.1 ▸ h.1⟩) hover

theorem exec (hj : j ∉ op.newIds) : Ages j db (op.exec db).2 :=
  (exec_effects op db).invariant (P := Ages j db)
    (fun _ _ _ he h hages => hages.trans (.of_effect he hj h)) .refl

end Ages

/-- **Jobs only grow older.** Between any two moments of a run, every job that was live at the
first or before it has only grown older. -/
theorem job_ages (codec : MetadataCodec) {τ : Type} [DecidableEq τ]
    {c c' : Pool storeMachine.logged τ} (h : Pool.Reaches (historyRules codec τ) c c') {j : JobId}
    (hj : ∃ e ∈ c.state.2, Db.Live e.after j) : Ages j c.state.1 c'.state.1 := by
  have hall := Pool.invariant (R := historyRules codec τ)
    (P := fun s => Ages j c.state.1 s.1 ∧ ∃ e ∈ s.2, Db.Live e.after j) ?_ ⟨.refl, hj⟩ h
  · exact hall.1
  rintro s t op env ⟨hages, e, he, hlive⟩ hnew
  -- an id that was live once is not drawn again
  have hold : j ∉ StoreOp.newIds op := fun hmem => hnew.2.2 e he j hmem hlive
  exact ⟨hages.trans (.exec hold), e, mem_cons_of_mem _ he, hlive⟩

/-- A job that went to sleep wakes, commits another step, and is retried. -/
theorem job_ages_sample :
    ∃ c c', Pool.Reaches (historyRules plainCodec Unit) (Pool.idle (Db.empty, [])) c ∧
      Pool.Reaches (historyRules plainCodec Unit) c c' ∧
      (stepRows "a" c.state.1).length = 1 ∧ (stepRows "a" c'.state.1).length = 2 ∧
      (∃ row ∈ c'.state.1.jobs.find "a", row.retryCount = 1) ∧ Ages "a" c.state.1 c'.state.1 := by
  obtain ⟨c, c', hc, hc', hlive, hone, htwo, hretried⟩ := Pool.exists_reaches_twice
    (historyRules plainCodec Unit) (.idle (.empty, [])) debouncedSleep
    [.start () (.dequeueFrom ["q"] 100 none fun _ => .fifo), .step () (),
     .start () (.recordStepResult ⟨"a", 1, "fetch#0", .run, some [7]⟩ "w" 0 sampleLimits none 101),
     .step () (), .start () (.retry "a" 200 none), .step () ()]
    (fun c c' => (∃ e ∈ c.state.2, Db.Live e.after "a") ∧ (stepRows "a" c.state.1).length = 1 ∧
      (stepRows "a" c'.state.1).length = 2 ∧ ∃ row ∈ c'.state.1.jobs.find "a", row.retryCount = 1)
    (by decide +kernel)
  exact ⟨c, c', hc, hc', hone, htwo, hretried, job_ages plainCodec hc' hlive⟩

end Flexiq
