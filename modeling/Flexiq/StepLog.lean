import Flexiq.Partition

/-!
# The shape of a step log

The committed steps of a job are a **gapless log**: positions `0, 1, …, n - 1` in commit
order, no step key used twice, at most as many steps and as many result bytes as the limits
allow. Positions, keys and counts are checked in different helpers for a recorded step and
for a sleep; what they add up to is read off the step effect once (`StepLog.of_step`), and
every other effect leaves a job's log alone or drops it whole.

The limits are the caller's, clamped by the store; the shape is for clients that all pass the
same limits, and whose sleeps carry no result.
-/

namespace Flexiq

open List

def storedBytes (jobId : JobId) (db : Db) : Nat :=
  ((stepRows jobId db).map fun s => (s.result.getD []).length).sum

/-- The shape of one job's log under (clamped) limits. -/
structure StepLog (limits : StepLimits) (jobId : JobId) (db : Db) : Prop where
  /-- Positions are exactly `0 … n - 1`, in commit order. -/
  seqs : (stepRows jobId db).map JobStepRow.seq =
    (List.range (stepRows jobId db).length).map Nat.cast
  lengths : ∀ s ∈ stepRows jobId db, s.resultLen = (s.result.getD []).length
  count : (stepRows jobId db).length ≤ limits.maxSteps
  bytes : (stepTotals jobId db).2 ≤ limits.maxTotalBytes

/-- Step keys of one job are distinct: the table's own constraint. -/
theorem stepKeys_nodup (jobId : JobId) (db : Db) :
    ((stepRows jobId db).map JobStepRow.stepKey).Nodup := by
  have hindex : db.jobSteps.rows.filterMap jobStepsSchema.index =
      db.jobSteps.rows.map fun s => (s.jobId, s.stepKey) := congrFun filterMap_eq_map _
  have hall : (db.jobSteps.rows.map fun s => (s.jobId, s.stepKey)).Nodup :=
    hindex ▸ db.jobSteps.nodup_index
  have hrows : ((stepRows jobId db).map fun s => (s.jobId, s.stepKey)).Nodup :=
    hall.sublist (filter_sublist.map _)
  refine (nodup_map_iff_inj_on hrows.of_map).2 fun s hs s' hs' hkey => ?_
  refine inj_on_of_nodup_map hrows hs hs' ?_
  rw [of_decide_eq_true (mem_filter.1 hs).2, of_decide_eq_true (mem_filter.1 hs').2,
    hkey]

namespace StepLog

variable {limits : StepLimits} {jobId : JobId} {db db' : Db}

theorem of_rows (h : StepLog limits jobId db) (hrows : stepRows jobId db' = stepRows jobId db) :
    StepLog limits jobId db' := by
  obtain ⟨h₁, h₂, h₃, h₄⟩ := h
  simp only [stepTotals, ← hrows] at h₁ h₂ h₃ h₄
  exact ⟨h₁, h₂, h₃, h₄⟩

theorem of_nil (hrows : stepRows jobId db = []) : StepLog limits jobId db := by
  refine ⟨?_, ?_, ?_, ?_⟩ <;> simp [stepTotals, hrows]

/-- Appending a step at the next position, within the limits. -/
theorem of_append (h : StepLog limits jobId db) {row : JobStepRow}
    (hrows : stepRows jobId db' = stepRows jobId db ++ [row])
    (hseq : row.seq = (stepRows jobId db).length)
    (hlen : row.resultLen = (row.result.getD []).length)
    (hcount : (stepRows jobId db).length + 1 ≤ limits.maxSteps)
    (hbytes : (stepTotals jobId db).2 + row.resultLen ≤ limits.maxTotalBytes) :
    StepLog limits jobId db' := by
  refine ⟨?_, ?_, ?_, ?_⟩
  · rw [hrows, map_append, h.seqs, length_append, length_singleton,
      range_succ, map_append, map_singleton, map_singleton, hseq]
  · intro s hs
    rw [hrows, mem_append, mem_singleton] at hs
    obtain hs | rfl := hs
    · exact h.lengths s hs
    · exact hlen
  · rw [hrows, length_append, length_singleton]
    exact hcount
  · simpa only [stepTotals, hrows, map_append, sum_append, map_singleton,
      sum_singleton] using hbytes

end StepLog

/-! ## Effects on a log -/

/-- A step effect under the shared limits, with an honest length, whose size was checked
unless it stores nothing. -/
def Effect.FitsLimits (limits : StepLimits) : Effect → Prop
  | .step row l sized =>
    l = limits.clamped ∧ row.resultLen = (row.result.getD []).length ∧
      (sized = false → row.resultLen = 0)
  | _ => True

variable {db db' : Db} {limits : StepLimits} {e : Effect}

theorem stepRows_insert {row : JobStepRow} (h : db.jobSteps.insert row = some db'.jobSteps)
    (jobId : JobId) :
    stepRows jobId db' =
      if row.jobId = jobId then stepRows jobId db ++ [row] else stepRows jobId db := by
  simp only [stepRows, Table.select, Table.ofRows_eq_some h, filter_append]
  by_cases hj : row.jobId = jobId <;> simp [hj]

theorem stepRows_archive {final : Job} (h : archiveJobRow final db = .ok db') (jobId : JobId) :
    stepRows jobId db' = if jobId = final.id then [] else stepRows jobId db := by
  rw [(archiveJobRow_ok h).2]
  simp only [stepRows, Table.select, Table.delete, filter_filter]
  split
  · next hid =>
    subst hid
    simp
  · next hid =>
    refine filter_congr fun s _ => ?_
    by_cases hs : s.jobId = jobId <;> simp [hs, hid]

/-- **Every effect keeps the shape of every log.** -/
theorem StepLog.of_effect (hfits : e.FitsLimits limits) (h : e.Holds db db') {jobId : JobId}
    (hlog : StepLog limits.clamped jobId db) : StepLog limits.clamped jobId db' := by
  cases e with
  | step row l sized =>
    obtain ⟨rfl, hlen, hzero⟩ := hfits
    obtain ⟨-, hseq, hcount, hbytes, hins, -⟩ := h
    have hrows := stepRows_insert hins jobId
    by_cases hj : row.jobId = jobId
    · subst hj
      rw [if_pos rfl] at hrows
      refine hlog.of_append hrows hseq hlen hcount ?_
      cases sized with
      | true => exact hbytes rfl
      | false =>
        rw [hzero rfl]
        exact hlog.bytes
    · rw [if_neg hj] at hrows
      exact hlog.of_rows hrows
  | archive =>
    have hrows := stepRows_archive h.2.2 jobId
    split at hrows
    · exact StepLog.of_nil hrows
    · exact hlog.of_rows hrows
  | _ =>
    have hsteps : db'.jobSteps = db.jobSteps := by
      grind [Effect.Holds, claimPending, purgeArchivedIdBatch]
    exact hlog.of_rows (by rw [stepRows, hsteps]; rfl)

/-! ## Clients with one set of limits -/

/-- The transaction's step limits are `limits`, and a sleep carries no result. -/
def StoreOp.usesLimits (limits : StepLimits) : StoreOp → Bool
  | recordStepResult _ _ _ l _ _ => l = limits
  | sleepJob step _ _ _ l _ _ => l = limits ∧ step.result = none
  | _ => true

theorem fitsLimits_of_usesLimits {op : StoreOp} (hop : op.usesLimits limits = true)
    (h : op.Effects e) : e.FitsLimits limits := by
  cases e with
  | step =>
    cases op <;> simp [StoreOp.Effects] at h
    case recordStepResult step owner attempt l' ns now =>
      obtain ⟨⟨jobNs, rfl⟩, rfl, rfl⟩ := h
      obtain rfl : l' = limits := of_decide_eq_true hop
      exact ⟨rfl, rfl, fun hf => by cases hf⟩
    case sleepJob step owner attempt wakeAt l' ns now =>
      obtain ⟨⟨jobNs, rfl⟩, rfl, rfl⟩ := h
      obtain ⟨rfl, hnone⟩ := of_decide_eq_true hop
      exact ⟨rfl, rfl, fun _ => by simp [NewJobStep.toRow, hnone]⟩
  | _ => trivial

/-- Clients that all use `limits`, with fresh ids. -/
abbrev stepRules (limits : StepLimits) (codec : MetadataCodec) (τ : Type) :
    Rules storeMachine (storeClients codec) τ where
  mayStart _ _ _ := True
  mayStep db _ op _ := StoreOp.Fresh op db ∧ StoreOp.usesLimits limits op = true

/-- **Every job's committed steps are a gapless log within the limits**, in every state that
clients sharing one set of limits can reach. -/
theorem step_log_shape (limits : StepLimits) (codec : MetadataCodec) {τ : Type} [DecidableEq τ]
    {c : Pool storeMachine τ}
    (h : Pool.Reaches (stepRules limits codec τ) (Pool.idle Db.empty) c) (jobId : JobId) :
    (stepRows jobId c.state).map JobStepRow.seq =
      (List.range (stepRows jobId c.state).length).map Nat.cast ∧
    ((stepRows jobId c.state).map JobStepRow.stepKey).Nodup ∧
    (stepRows jobId c.state).length ≤ limits.clamped.maxSteps ∧
    storedBytes jobId c.state ≤ limits.clamped.maxTotalBytes := by
  have hlog : StepLog limits.clamped jobId c.state := by
    refine Pool.invariant (P := fun db : Db => StepLog limits.clamped jobId db) ?_ ?_ h
    · intro db _ op _ hdb hop
      exact (exec_effects op db).invariant
        (fun e _ _ he hs hP => StepLog.of_effect (fitsLimits_of_usesLimits hop.2 he) hs hP) hdb
    · exact StepLog.of_nil rfl
  refine ⟨hlog.seqs, stepKeys_nodup jobId c.state, hlog.count, ?_⟩
  have hbytes := hlog.bytes
  simp only [stepTotals] at hbytes
  rwa [map_congr_left hlog.lengths] at hbytes

/-- Room for two steps of four bytes each. -/
def sampleLimits : StepLimits := ⟨4, 8, 2⟩

/-- A job commits a step, sleeps, is dequeued again and replays the first step. -/
def sampleSteps : List (Move storeMachine (storeClients plainCodec) Unit) :=
  [.start () (.enqueue ⟨.plain "q" "t", "a", 0⟩), .step () (),
   .start () (.dequeueFrom ["q"] 1 none fun _ => .fifo), .step () (),
   .start () (.recordStepResult ⟨"a", 0, "fetch#0", .run, some [7, 7]⟩ "w" 0 sampleLimits none 2),
   .step () (),
   .start () (.sleepJob ⟨"a", 1, "pause#0", .sleep, none⟩ "w" 0 9 sampleLimits none 3),
   .step () (),
   .start () (.dequeueFrom ["q"] 9 none fun _ => .fifo), .step () (),
   .start () (.recordStepResult ⟨"a", 0, "fetch#0", .run, some [7, 7]⟩ "v" 0 sampleLimits none 9),
   .step () ()]

theorem step_log_shape_sample :
    ∃ c, Pool.Reaches (stepRules sampleLimits plainCodec Unit) (Pool.idle Db.empty) c ∧
      (stepRows "a" c.state).length = 2 ∧
      (stepRows "a" c.state).map JobStepRow.seq = (List.range 2).map Nat.cast ∧
      storedBytes "a" c.state ≤ sampleLimits.clamped.maxTotalBytes := by
  obtain ⟨c, hc, hlen⟩ := Pool.exists_reaches (stepRules sampleLimits plainCodec Unit)
    (Pool.idle Db.empty) sampleSteps (fun c => (stepRows "a" c.state).length = 2) (by decide)
  obtain ⟨hseqs, -, -, hbytes⟩ := step_log_shape sampleLimits plainCodec hc "a"
  exact ⟨c, hc, hlen, hlen ▸ hseqs, hbytes⟩

end Flexiq
