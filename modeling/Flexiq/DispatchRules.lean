import Flexiq.Handling
import Flexiq.Poller

/-!
# Dispatch cycles under a discipline

A cycle dequeues jobs, sheds some of them and decides the others one after the other: a job is
sent, given back, shed or passed over. What a discipline has to say about the jobs that are left,
and about the job at hand, are parameters here (`CycleRules`); the rules walk over the cycle once.
-/

namespace Flexiq

open Prog

variable {σ γ : Type} {cfg : σ → Scheduler} {D : Discipline (schedSig σ) γ} {s : σ} {g : γ}

/-- What a discipline has to allow a dispatcher. `Left claimed g jobs counts`: the jobs are left to
decide, their claims are written or not, and the cycle has these counts. `Mine`: the same with one
job at hand whose claim is written, or was tried. -/
structure CycleRules (cfg : σ → Scheduler) (D : Discipline (schedSig σ) γ) (s : σ)
    (Left : Bool → γ → List Job → Sched.GateCounts → Prop)
    (Mine : Bool → γ → Job → List Job → Sched.GateCounts → Prop) : Prop where
  skip : ∀ {c g job rest counts}, Left c g (job :: rest) counts → Left c g rest counts
  own : ∀ {g job rest counts}, Left true g (job :: rest) counts → Mine true g job rest counts
  pass : ∀ {c g job rest counts}, Mine c g job rest counts → Left c g rest counts
  rollback : ∀ {c g job rest counts}, Mine c g job rest counts → ∀ now delayMs,
    (Sched.rollback cfg s job now delayMs).Follows D g
      fun g' _ => Left c g' rest (counts.release job.taskName job.queue)
  finish : ∀ {c g job rest counts}, Mine c g job rest counts → ∀ now,
    (Sched.finishDispatch cfg s job now counts).Follows D g fun g' r => Left c g' rest r.2
  shed : ∀ {c g job rest counts}, Left c g (job :: rest) counts → ∀ reason,
    (Sched.shedRateLimited cfg s job reason c).Follows D g fun g' _ =>
      Left c g' rest (counts.release job.taskName job.queue) ∧ Left c g' rest counts
  reschedule : ∀ {g job rest counts}, Left false g (job :: rest) counts → ∀ next,
    (attempt s .loop (txn (.reschedule job.id next))).Follows D g fun g' r =>
      Left false g' rest (counts.release job.taskName job.queue) ∧
        (r = none → Left false g' rest counts)
  claim : ∀ {g job rest counts}, Left false g (job :: rest) counts → ∀ now,
    D.Leads g (.store s .loop (.claimExecution job.id (cfg s).claimOwner now))
      (Mine false · job rest counts)
  claimBatch : ∀ {g jobs}, Left false g jobs .empty → ∀ now,
    let claim := SchedOp.store s .loop
      (.claimExecutionBatch (jobs.map Job.id) (cfg s).claimOwner now)
    D.permits g claim ∧ Left false (D.next g claim none) jobs .empty ∧
      (∀ e, Left false (D.next g claim (some (.error e))) jobs .empty) ∧
      ∀ won, Left true (D.next g claim (some (.ok won))) (Sched.wonJobs jobs won) .empty
  drop : ∀ {g front job rest}, Left false g (front ++ job :: rest) .empty → ∀ error metadata,
    (Sched.deadLetter cfg s .loop job error metadata true).Follows D g
      fun g' r => r = some () → Left false g' (front ++ rest) .empty

namespace CycleRules

variable {Left : Bool → γ → List Job → Sched.GateCounts → Prop}
  {Mine : Bool → γ → Job → List Job → Sched.GateCounts → Prop} {job : Job} {rest : List Job}
  {counts : Sched.GateCounts} [D.Steady]

theorem dispatchClaimed (h : CycleRules cfg D s Left Mine) (hg : Left true g (job :: rest) counts)
    (now : Int) :
    (Sched.dispatchClaimed cfg s job now counts).Follows D g fun g' r => Left true g' rest r.2 := by
  refine Follows.quiet (Sched.quietOnly_checkPreClaimGates cfg s job) fun decision => ?_
  rcases decision with _ | _ | _ | _
  · exact h.skip hg
  · exact h.finish (h.own hg) now
  · exact .bind ((h.rollback (h.own hg) now _).mono fun _ _ hg => hg)
  · refine .bind ((h.shed hg _).mono fun g₁ r hg₁ => ?_)
    rcases r with _ | _ <;> exact hg₁.1

theorem gateAndDispatch (h : CycleRules cfg D s Left Mine) (hg : Left false g (job :: rest) counts)
    (now : Int) :
    (Sched.gateAndDispatch cfg s job now counts).Follows D g
      fun g' r => Left false g' rest r.2 := by
  refine Follows.quiet (Sched.quietOnly_checkPreClaimGates cfg s job) fun decision => ?_
  rcases decision with _ | _ | _ | _
  · exact h.skip hg
  · -- the claim is written, lost or failed; the job is at hand in any case
    have hclaim : (Sched.claimForDispatch cfg s job).Follows D g
        fun g' _ => Mine false g' job rest counts := by
      refine Follows.quiet (QuietOnly.ask rfl) fun now => ?_
      refine Follows.bind ((Follows.attempt (Follows.leads (h.claim hg now))).mono fun _ r hg => ?_)
      rcases r with _ | _ | _ <;> exact hg
    refine .bind (hclaim.mono fun g₁ outcome hg₁ => ?_)
    cases outcome with
    | claimed => exact h.finish hg₁ now
    | alreadyClaimed => exact h.pass hg₁
    | errored => exact .bind ((h.rollback hg₁ now _).mono fun _ _ hg => hg)
  · refine Follows.quiet (QuietOnly.ask rfl) fun delay => ?_
    refine Follows.bind ((h.reschedule hg _).mono fun g₁ r hg₁ => ?_)
    rcases r with _ | _
    · exact hg₁.2 rfl
    · exact hg₁.1
  · refine .bind ((h.shed hg _).mono fun g₁ r hg₁ => ?_)
    rcases r with _ | _
    · exact hg₁.2
    · exact hg₁.1

omit [D.Steady] in
/-- The jobs of a batch are decided one after the other. -/
theorem dispatchEach {c : Bool}
    {dispatch : Job → Sched.GateCounts → SchedProg σ (Option Bool × Sched.GateCounts)}
    (hdispatch : ∀ {g job rest counts}, Left c g (job :: rest) counts →
      (dispatch job counts).Follows D g fun g' r => Left c g' rest r.2) (jobs : List Job)
    (counts : Sched.GateCounts) (g : γ) (hg : Left c g jobs counts) :
    (Sched.dispatchEach dispatch jobs counts).Follows D g fun _ _ => True := by
  induction jobs generalizing g counts with
  | nil => trivial
  | cons job rest ih => exact .bind ((hdispatch hg).mono fun g₁ r hg₁ => ih r.2 g₁ hg₁)

section

variable (h : CycleRules cfg D s Left Mine)
include h

theorem claimAndDispatch {jobs : List Job} (hg : Left false g jobs .empty) (now : Int) :
    (Sched.claimAndDispatch cfg s jobs now).Follows D g fun _ _ => True := by
  have heach : ∀ g, Left false g jobs .empty →
      (Sched.dispatchEach (fun job => Sched.gateAndDispatch cfg s job now) jobs .empty).Follows D g
        fun _ _ => True :=
    dispatchEach (fun hg => h.gateAndDispatch hg now) jobs _
  refine Follows.quiet (QuietOnly.ask rfl) fun claimNow => ?_
  obtain ⟨hp, hnone, herror, hok⟩ := h.claimBatch hg claimNow
  refine Follows.bind (Follows.bind (Follows.txn hp (heach _ hnone) fun r _ => ?_))
  rcases r with e | won
  · exact heach _ (herror e)
  · exact dispatchEach (fun hg => h.dispatchClaimed hg now) _ _ _ (hok won)

/-- CoDel sheds some jobs of a batch; the others are left to decide. -/
theorem codelAdmit (now : Int) (front jobs : List Job) (g : γ)
    (hg : Left false g (front ++ jobs) .empty) :
    (Sched.codelAdmit cfg s now jobs).Follows D g fun g' r =>
      ∀ kept ∈ r, Left false g' (front ++ kept) .empty := by
  induction jobs generalizing front g with
  | nil =>
    intro kept hkept
    cases hkept
    exact hg
  | cons job rest ih =>
    -- the rest of the batch, when this job stays
    have hkeep : ∀ k : Option (List Job) → SchedProg σ (Option (List Job)),
        k none = pure none → (∀ kept, k (some kept) = pure (some (job :: kept))) →
        (Sched.codelAdmit cfg s now rest >>= k).Follows D g
          fun g' r => ∀ kept ∈ r, Left false g' (front ++ kept) .empty := by
      intro _ hnone hsome
      have hrest := ih (front ++ [job]) g (by simpa using hg)
      refine .bind (hrest.mono fun g₁ r hg₁ => ?_)
      rcases r with _ | kept
      · rw [hnone]
        exact nofun
      · rw [hsome]
        intro _ hkept'
        cases hkept'
        simpa using hg₁ kept rfl
    unfold Sched.codelAdmit
    split
    · exact hkeep _ rfl fun _ => rfl
    · refine Follows.quiet (QuietOnly.ask rfl) fun drop => ?_
      cases drop with
      | false => exact hkeep _ rfl fun _ => rfl
      | true =>
        refine .bind ((h.drop hg _ _).mono fun g₁ r hg₁ => ?_)
        rcases r with _ | _
        · exact nofun
        · exact ih front _ (hg₁ rfl)

/-- **One dispatch cycle for a single job.** -/
theorem tryDispatch
    (hdequeue : ∀ now queues,
      (storage s .loop (Ops.dequeueFrom now (cfg s).namespace_ (cfg s).dispatchOrders
      queues)).Follows D g fun g' r => ∀ job, r = some (.ok (some job)) →
      Left false g' [job] .empty) :
    (Sched.tryDispatch cfg s).Follows D g fun _ _ => True := by
  refine Follows.quiet (QuietOnly.ask rfl) fun now => ?_
  refine Follows.quiet (Sched.quietOnly_activeQueues cfg s) fun queues => ?_
  refine Follows.quiet (Sched.quietOnly_inFlightRemaining cfg s) fun remaining => ?_
  refine Follows.quiet (QuietOnly.ask rfl) fun capacity => ?_
  split
  · trivial
  · refine .bind (.bind ((hdequeue now queues).mono fun g₁ r hg₁ => ?_))
    rcases r with _ | _ | _ | job
    · trivial
    · trivial
    · trivial
    · refine .bind ((h.codelAdmit now [] [job] g₁ (hg₁ job rfl)).mono fun g₂ kept hg₂ => ?_)
      rcases kept with _ | _ | ⟨_, _⟩
      · trivial
      · trivial
      · exact .bind ((h.gateAndDispatch (hg₂ _ rfl) now).mono fun _ _ _ => trivial)

/-- **One dispatch cycle for a batch.** -/
theorem tryDispatchBatch
    (hdequeue : ∀ now max queues,
      (storage s .loop (Ops.dequeueBatchFrom now (cfg s).namespace_ (cfg s).dispatchOrders max
      queues)).Follows D g fun g' r => ∀ jobs, r = some (.ok jobs) → Left false g' jobs .empty) :
    (Sched.tryDispatchBatch cfg s).Follows D g fun _ _ => True := by
  refine Follows.quiet (QuietOnly.ask rfl) fun now => ?_
  refine Follows.quiet (Sched.quietOnly_activeQueues cfg s) fun queues => ?_
  refine Follows.quiet (QuietOnly.ask rfl) fun capacity => ?_
  refine Follows.quiet (Sched.quietOnly_inFlightRemaining cfg s) fun remaining => ?_
  simp only
  split
  · trivial
  · refine .bind (.bind ((hdequeue now _ queues).mono fun g₁ r hg₁ => ?_))
    rcases r with _ | _ | jobs
    · trivial
    · trivial
    · refine .bind ((h.codelAdmit now [] jobs g₁ (hg₁ jobs rfl)).mono fun g₂ kept hg₂ => ?_)
      rcases kept with _ | kept
      · trivial
      · simp only
        split
        · trivial
        · exact h.claimAndDispatch (hg₂ kept rfl) now

end

end CycleRules

end Flexiq
