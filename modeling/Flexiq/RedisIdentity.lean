import Flexiq.StepExpiry

/-!
# Documents keep their identity

Most operations of the Redis backend read a job's document, change it, and write it back some
commands later; other clients run in between. What may get lost that way is a change. What a job
**is** does not: at any two moments of a run the documents under one id agree on the queue, the
namespace and the unique key (`redis_identity_kept`), because a command only ever writes a
document it read, or the one an id was drawn for.

The runs are those of the modelled operations. The debounced enqueue, the batch forms
`complete_batch` and `claim_execution_batch`, the sweeps `cancel_pending_by_queue`,
`cancel_pending_by_task`, `purge_completed`, `purge_completed_with_ttl` and `archive_old_jobs`, and
`retry_dead` are not among them.
-/

namespace Flexiq.Redis

open List Pool

variable {τ : Type} [DecidableEq τ] {clock : Int} {c c' : Pool redisMachine τ}

theorem drawn_subset (h : Reaches (anyRedisRun τ) c c') : c.state.drawn ⊆ c'.state.drawn := by
  refine Pool.invariant (P := fun st : Store => c.state.drawn ⊆ st.drawn) ?_ (Subset.refl _) h
  intro st _ op env hsub _
  have hdrawn : (redisMachine.exec op env st).2.drawn = op.draws env ++ st.drawn :=
    op.drawn_act env _
  show c.state.drawn ⊆ (redisMachine.exec op env st).2.drawn
  rw [hdrawn]
  exact fun _ hd => mem_append_right _ (hsub hd)

/-- The homes of a run are what its ids were drawn for. -/
theorem home_of_drawn {home : JobId → Origin}
    (h : Reaches (homeRules home (anyRedisRun τ)) (idle (.empty clock)) c) :
    ∀ d ∈ c.state.drawn, home d.1 = d.2 := by
  refine Pool.invariant (P := fun st : Store => ∀ d ∈ st.drawn, home d.1 = d.2) ?_ nofun h
  intro st _ op env hall hr
  have hdrawn : (redisMachine.exec op env st).2.drawn = op.draws env ++ st.drawn :=
    op.drawn_act env _
  show ∀ d ∈ (redisMachine.exec op env st).2.drawn, home d.1 = d.2
  rw [hdrawn, forall_mem_append]
  refine ⟨fun d hd => ?_, hall⟩
  cases op with
  | freshId =>
    cases mem_singleton.1 hd
    exact hr.2
  | _ => cases hd

theorem docs_reachable {home : JobId → Origin}
    (h : Reaches (homeRules home (anyRedisRun τ)) (idle (.empty clock)) c) :
    Docs home c.state.core :=
  (redis_invariant (P := fun _ => True) (fun _ _ _ _ _ _ _ _ _ => trivial) (.empty clock) trivial
    h).1

/-- **Documents keep their identity.** Between two moments of a run of any number of clients, a live
document stays under its own id, and in the queue and the namespace and under the unique key that
the id was drawn for; an archived document is under its own id, and finished. -/
theorem redis_identity_kept (h : Reaches (anyRedisRun τ) (idle (.empty clock)) c)
    (h' : Reaches (anyRedisRun τ) c c') (id : JobId) :
    (∀ job ∈ c.state.jobs id, ∀ job' ∈ c'.state.jobs id,
      job.id = id ∧ job'.id = id ∧ originOf job = originOf job') ∧
    ∀ job ∈ c.state.archived id, job.id = id ∧ job.status.isTerminal = true := by
  obtain ⟨home, hrun'⟩ := exists_home (fun _ _ _ _ hr => hr) rfl (h.trans h')
  have hrun : Reaches (homeRules home (anyRedisRun τ)) (idle (.empty clock)) c :=
    reaches_homeRules h fun d hd => home_of_drawn hrun' d (drawn_subset h' hd)
  have hdocs := docs_reachable hrun
  refine ⟨fun job hjob job' hjob' => ?_, hdocs.archived id⟩
  obtain ⟨hid, hknown⟩ := hdocs.live id job hjob
  obtain ⟨hid', hknown'⟩ := (docs_reachable hrun').live id job' hjob'
  refine ⟨hid, hid', ?_⟩
  rw [hknown, hknown', hid, hid']

/-- A running job is retried. -/
theorem redis_identity_kept_retry :
    ∃ (c c' : Pool redisMachine Unit) (job job' : Job),
      Reaches (anyRedisRun Unit) (idle (.empty 0)) c ∧ Reaches (anyRedisRun Unit) c c' ∧
      c.state.jobs "job" = some job ∧ c'.state.jobs "job" = some job' ∧
      job.retryCount < job'.retryCount ∧ originOf job = originOf job' := by
  obtain ⟨c, c', hc, hc', job, hjob, job', hjob', hlt⟩ := exists_reaches_twice (anyRedisRun Unit)
    (idle (.empty 0)) commitFirstStep (callAtOnce (.retry "job" 1000 none) 2)
    (fun c c' => ∃ job ∈ c.state.jobs "job", ∃ job' ∈ c'.state.jobs "job",
      job.retryCount < job'.retryCount) (by decide +kernel)
  exact ⟨c, c', job, job', hc, hc', hjob, hjob', hlt,
    ((redis_identity_kept hc hc' "job").1 job hjob job' hjob').2.2⟩

end Flexiq.Redis
