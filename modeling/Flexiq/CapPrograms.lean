import Flexiq.AttemptFence
import Flexiq.CapDiscipline

/-!
# Dispatchers keep to their caps

A dispatch cycle decides the jobs it dequeued in order, and carries the counts it read along
(`GateCounts`). What ties those to the tally is `Deciding`: the jobs that are left are among the
undecided ones, and the cached number is at least the tally's, lowered by the undecided jobs the
cycle has already passed over — a job whose rollback failed stays running, and stays undecided for
the tally, although the cycle is done with it.

The main result is `concurrency_cap`: the jobs of a task or queue that are out with workers never
exceed the cap of their namespace's schedulers.
-/

namespace Flexiq

open List (filter_append filter_cons mem_append mem_cons_self mem_filter mem_map mem_map_of_mem
  mem_singleton sublist_append_right sublist_cons_self)

open Prog SchedState Sched

variable {why : Cause}

/-! ## Cached counts -/

/-- The number a cycle has read for the lane. -/
def Lane.cached : Lane → Sched.GateCounts → Option Int
  | task name, counts => counts.taskRunning.lookup name
  | queue name, counts => counts.queueRunning.lookup name

/-- A number that is read is the number of its lane. -/
theorem Lane.cached_task (lane : Lane) (name : String) (n : Int) (counts : Sched.GateCounts) :
    lane.cached { counts with taskRunning := (name, n) :: counts.taskRunning } =
      if lane = .task name then some n else lane.cached counts := by
  cases lane with
  | task name' => by_cases h : name' = name <;> simp [cached, List.lookup_cons, beq_eq_decide, h]
  | queue => simp [cached]

@[inherit_doc cached_task]
theorem Lane.cached_queue (lane : Lane) (name : String) (n : Int) (counts : Sched.GateCounts) :
    lane.cached { counts with queueRunning := (name, n) :: counts.queueRunning } =
      if lane = .queue name then some n else lane.cached counts := by
  cases lane with
  | task => simp [cached]
  | queue name' => by_cases h : name' = name <;> simp [cached, List.lookup_cons, beq_eq_decide, h]

theorem Lane.cached_release (lane : Lane) (counts : Sched.GateCounts) (job : Job) :
    lane.cached (counts.release job.taskName job.queue) =
      if lane.covers job = true then (lane.cached counts).map (· - 1) else lane.cached counts := by
  cases lane with
  | task | queue =>
    simp only [cached, Sched.GateCounts.release, Sched.GateCounts.lookup_decrement, covers,
      decide_eq_true_iff]
    exact if_congr eq_comm rfl rfl

/-! ## Deciding -/

/-- A cycle of a scheduler in namespace `ns'` has the jobs `rest` left to decide, with these
cached counts. -/
structure Deciding (lane : Lane) (ns ns' : Option String) (g : Tally) (rest : List Job)
    (counts : Sched.GateCounts) : Prop where
  nodup : (g.undecided.map Job.id).Nodup
  apart : ∀ job ∈ g.undecided, job.id ∉ g.others
  namespace_ : ∀ job ∈ rest, job.namespace_ = ns'
  others : ∀ job ∈ rest, lane.counts ns job = false → job.id ∈ g.others
  /-- The cycle has passed over `pre`, and its number covers the rest of the tally's. -/
  split : ∃ pre post, g.undecided = pre ++ post ∧ (rest.filter (lane.counts ns)).Sublist post ∧
    (ns' = ns → ∀ n, lane.cached counts = some n → ∃ c, g.count = some c ∧ c - pre.length ≤ n)

namespace Deciding

variable {lane : Lane} {ns ns' : Option String} {g : Tally} {job : Job} {rest : List Job}
  {counts : Sched.GateCounts}

section

variable (h : Deciding lane ns ns' g (job :: rest) counts)
include h

/-- The cycle passes over a job. -/
theorem skip : Deciding lane ns ns' g rest counts := by
  obtain ⟨pre, post, hund, hsub, hcount⟩ := h.split
  refine ⟨h.nodup, h.apart, fun j hj => h.namespace_ j (by simp [hj]),
    fun j hj => h.others j (by simp [hj]), pre, post, hund, ?_, hcount⟩
  exact ((sublist_cons_self job rest).filter _).trans hsub

/-- In the lane's own namespace, a job is counted when its task or queue is the lane's. -/
theorem counts_eq (hns : ns' = ns) : lane.counts ns job = lane.covers job := by
  have hjob : job.namespace_ = ns := (h.namespace_ job (by simp)).trans hns
  simp [Lane.counts, hjob]

/-- Where an undecided job stands in the tally. -/
theorem around (hcounts : lane.counts ns job = true) :
    ∃ pre post, g.undecided = pre ++ job :: post ∧
      (rest.filter (lane.counts ns)).Sublist post ∧
      (ns' = ns → ∀ n, lane.cached counts = some n →
        ∃ c, g.count = some c ∧ c - pre.length ≤ n) := by
  obtain ⟨pre, post, hund, hsub, hcount⟩ := h.split
  rw [filter_cons, if_pos hcounts, List.cons_sublist_iff] at hsub
  obtain ⟨passed, later, rfl, hmem, hsub⟩ := hsub
  obtain ⟨before, after, rfl⟩ := List.append_of_mem hmem
  refine ⟨pre ++ before, after ++ later, by simp [hund], hsub.trans (sublist_append_right _ _),
    fun hns n hn => ?_⟩
  obtain ⟨c, hc, hle⟩ := hcount hns n hn
  refine ⟨c, hc, ?_⟩
  rw [List.length_append]
  omega

theorem cached_release (hns : ns' = ns) :
    lane.cached (counts.release job.taskName job.queue) =
      if lane.counts ns job = true then (lane.cached counts).map (· - 1)
      else lane.cached counts := by
  rw [lane.cached_release, h.counts_eq hns]

/-- A job that is not the lane's is not in the tally's list. -/
theorem giveBack_other (hcounts : lane.counts ns job = false) : g.giveBack job.id = g := by
  rw [Tally.giveBack, if_neg]
  intro hmem
  obtain ⟨j, hj, heq⟩ := mem_map.1 hmem
  exact h.apart j hj (heq ▸ h.others job (by simp) hcounts)

/-- The cycle gives a job back, but the job stays where it is. -/
theorem release : Deciding lane ns ns' g rest (counts.release job.taskName job.queue) := by
  have hskip := h.skip
  refine ⟨h.nodup, h.apart, hskip.namespace_, hskip.others, ?_⟩
  by_cases hcounts : lane.counts ns job = true
  · obtain ⟨pre, post, hund, hsub, hcount⟩ := h.around hcounts
    refine ⟨pre ++ [job], post, by simp [hund], hsub, fun hns n hn => ?_⟩
    rw [h.cached_release hns, if_pos hcounts] at hn
    obtain ⟨m, hm, rfl⟩ := Option.map_eq_some_iff.1 hn
    obtain ⟨c, hc, hle⟩ := hcount hns m hm
    refine ⟨c, hc, ?_⟩
    rw [List.length_append, List.length_singleton]
    omega
  · obtain ⟨pre, post, hund, hsub, hcount⟩ := hskip.split
    refine ⟨pre, post, hund, hsub, fun hns n hn => hcount hns n ?_⟩
    rwa [h.cached_release hns, if_neg hcounts] at hn

end

/-- The cycle gives a job back, and the store has it. Whether the cycle lowers its number for it or
not, the number still covers the tally's. -/
theorem giveBack (h : Deciding lane ns ns' g (job :: rest) counts) :
    Deciding lane ns ns' (g.giveBack job.id) rest (counts.release job.taskName job.queue) ∧
      Deciding lane ns ns' (g.giveBack job.id) rest counts := by
  by_cases hcounts : lane.counts ns job = true
  · obtain ⟨pre, post, hund, hsub, hcount⟩ := h.around hcounts
    have hsplit : (pre ++ post).Sublist g.undecided := by
      rw [hund]
      exact (List.Sublist.refl pre).append (sublist_cons_self job post)
    rw [Tally.giveBack_split hund h.nodup]
    have hskip := h.skip
    have hdecide : ∀ counts', (ns' = ns → ∀ n, lane.cached counts' = some n →
        ∃ m, lane.cached counts = some m ∧ m - 1 ≤ n) →
        Deciding lane ns ns'
          { g with undecided := pre ++ post, count := g.count.map (· - 1) } rest counts' := by
      intro _ hle
      refine ⟨h.nodup.sublist (hsplit.map Job.id), fun j hj => h.apart j (hsplit.subset hj),
        hskip.namespace_, hskip.others, pre, post, rfl, hsub, fun hns n hn => ?_⟩
      obtain ⟨m, hm, hmn⟩ := hle hns n hn
      obtain ⟨c, hc, hcm⟩ := hcount hns m hm
      refine ⟨c - 1, by simp [hc], ?_⟩
      omega
    refine ⟨hdecide _ fun hns n hn => ?_, hdecide _ fun _ n hn => ⟨n, hn, by omega⟩⟩
    rw [h.cached_release hns, if_pos hcounts] at hn
    obtain ⟨m, hm, rfl⟩ := Option.map_eq_some_iff.1 hn
    exact ⟨m, hm, le_refl _⟩
  · rw [h.giveBack_other (by simpa using hcounts)]
    exact ⟨h.release, h.skip⟩

/-- The count lets the cycle send the job, and it goes on with the rest. -/
theorem send {cap : Int} (h : Deciding lane ns ns' g (job :: rest) counts)
    (hcounts : lane.counts ns job = true) {n : Int} (hns : ns' = ns)
    (hn : lane.cached counts = some n) (hle : n ≤ cap) :
    g.MaySend cap job ∧ Deciding lane ns ns' (g.send job.id) rest counts := by
  obtain ⟨pre, post, hund, hsub, hcount⟩ := h.around hcounts
  obtain ⟨c, hc, hcn⟩ := hcount hns n hn
  have hsplit : post.Sublist g.undecided := by
    rw [hund]
    exact (sublist_cons_self job post).trans (sublist_append_right pre _)
  refine ⟨⟨by simp [hund], c, hc, ?_⟩, ?_⟩
  · rw [Tally.ahead_split hund h.nodup]
    omega
  · rw [Tally.send_split hund h.nodup]
    refine ⟨h.nodup.sublist (hsplit.map Job.id), fun j hj => h.apart j (hsplit.subset hj),
      h.skip.namespace_, h.skip.others, [], post, rfl, hsub, fun _ m hm => ?_⟩
    cases hn.symm.trans hm
    refine ⟨c - pre.length, by simp [hc], ?_⟩
    simp only [List.length_nil]
    omega

section

variable (h : Deciding lane ns ns' g rest counts)
include h

variable {counts' : Sched.GateCounts}

theorem recount (hsame : ns' = ns → lane.cached counts' = lane.cached counts) :
    Deciding lane ns ns' g rest counts' := by
  obtain ⟨pre, post, hund, hsub, hcount⟩ := h.split
  refine ⟨h.nodup, h.apart, h.namespace_, h.others, pre, post, hund, hsub, fun hns n hn => ?_⟩
  exact hcount hns n (hsame hns ▸ hn)

theorem load {n : Int} (hn : lane.cached counts' = some n) :
    Deciding lane ns ns' { g with count := some n } rest counts' := by
  obtain ⟨pre, post, hund, hsub, -⟩ := h.split
  refine ⟨h.nodup, h.apart, h.namespace_, h.others, pre, post, hund, hsub, fun _ m hm => ?_⟩
  cases hn.symm.trans hm
  exact ⟨n, rfl, by omega⟩

theorem sublist {rest' : List Job} (hsub : rest'.Sublist rest) :
    Deciding lane ns ns' g rest' counts := by
  obtain ⟨pre, post, hund, hpost, hcount⟩ := h.split
  exact ⟨h.nodup, h.apart, fun j hj => h.namespace_ j (hsub.subset hj),
    fun j hj => h.others j (hsub.subset hj), pre, post, hund, (hsub.filter _).trans hpost, hcount⟩

/-- Before anything is counted, the cycle dequeues more jobs. -/
theorem take (hnone : lane.cached counts = none) {batch : List Job}
    (hnodup : (batch.map Job.id).Nodup) (hnew : ∀ j ∈ batch, j.namespace_ = ns' ∧ g.New lane ns j) :
    Deciding lane ns ns' (g.take lane ns batch) (rest ++ batch) counts := by
  obtain ⟨pre, post, hund, hsub, -⟩ := h.split
  refine ⟨?_, fun j hj => ?_, fun j hj => ?_, fun j hj hcounts => ?_, [], _, rfl, ?_,
    fun _ n hn => by rw [hnone] at hn; cases hn⟩
  · simp only [Tally.take, List.map_append]
    refine List.nodup_append.2 ⟨h.nodup, hnodup.sublist (List.filter_sublist.map _), ?_⟩
    rintro _ hid _ hid' rfl
    obtain ⟨j, hj, rfl⟩ := mem_map.1 hid'
    exact (hnew j (mem_filter.1 hj).1).2.1 hid
  · -- a job of the lane and another one of the same batch are different jobs
    simp only [Tally.take, mem_append, mem_map, mem_filter, not_or, not_exists,
      not_and] at hj ⊢
    obtain hj | ⟨hj, hcounts⟩ := hj
    · refine ⟨h.apart j hj, fun j' hj' heq => (hnew j' hj'.1).2.1 ?_⟩
      exact heq ▸ mem_map_of_mem hj
    · refine ⟨(hnew j hj).2.2 hcounts, fun j' hj' heq => ?_⟩
      cases List.inj_on_of_nodup_map hnodup hj'.1 hj heq
      simp [hcounts] at hj'
  · obtain hj | hj := mem_append.1 hj
    · exact h.namespace_ j hj
    · exact (hnew j hj).1
  · obtain hj | hj := mem_append.1 hj
    · exact List.mem_append_left _ (h.others j hj hcounts)
    · refine List.mem_append_right _ (mem_map_of_mem (mem_filter.2 ⟨hj, ?_⟩))
      simp [hcounts]
  · rw [filter_append]
    refine List.Sublist.append (hsub.trans ?_) (List.Sublist.refl _)
    rw [hund]
    exact sublist_append_right pre post

end

/-- Before anything is counted, the cycle gives back one of its jobs. -/
theorem giveBack_middle {front : List Job}
    (h : Deciding lane ns ns' g (front ++ job :: rest) counts) (hnone : lane.cached counts = none) :
    Deciding lane ns ns' (g.giveBack job.id) (front ++ rest) counts := by
  have hfewer : (front ++ rest).Sublist (front ++ job :: rest) :=
    (List.Sublist.refl front).append (sublist_cons_self job rest)
  have hless := h.sublist hfewer
  by_cases hcounts : lane.counts ns job = true
  · obtain ⟨pre, post, hund, hsub, -⟩ := h.split
    rw [filter_append, filter_cons, if_pos hcounts] at hsub
    have hall : (front.filter (lane.counts ns) ++ job :: rest.filter (lane.counts ns)).Sublist
        g.undecided := by
      rw [hund]
      exact hsub.trans (sublist_append_right pre post)
    have hmem : job.id ∈ g.undecided.map Job.id := mem_map_of_mem (hall.subset (by simp))
    -- the other jobs of the cycle have other ids
    have hnodup := h.nodup.sublist (hall.map Job.id)
    obtain ⟨hfront, hrest⟩ := Tally.ne_of_nodup (g := ⟨_, [], [], none⟩) rfl hnodup
    have hkeep : (front.filter (lane.counts ns) ++ rest.filter (lane.counts ns)).Sublist
        (g.undecided.filter fun j => j.id ≠ job.id) := by
      have hfilter := hall.filter fun j => j.id ≠ job.id
      rwa [filter_append, filter_cons, if_neg (by simp),
        List.filter_eq_self.2 fun j hj => decide_eq_true (hfront j hj),
        List.filter_eq_self.2 fun j hj => decide_eq_true (hrest j hj)] at hfilter
    rw [Tally.giveBack, if_pos hmem]
    refine ⟨h.nodup.sublist (List.filter_sublist.map _),
      fun j hj => h.apart j (mem_filter.1 hj).1, hless.namespace_, hless.others, [], _, rfl, ?_,
      fun _ n hn => by rw [hnone] at hn; cases hn⟩
    rwa [filter_append]
  · have hother : lane.counts ns job = false := by simpa using hcounts
    have hsame : g.giveBack job.id = g := by
      rw [Tally.giveBack, if_neg]
      intro hmem
      obtain ⟨j, hj, heq⟩ := mem_map.1 hmem
      exact h.apart j hj (heq ▸ h.others job (by simp) hother)
    rw [hsame]
    exact hless

end Deciding

namespace Cap

section

variable {σ α β : Type} {cfg : σ → Scheduler} {lane : Lane} {ns : Option String} {cap : Int}

/-! ## Rules -/

instance : (capDiscipline σ lane ns cap).Steady where
  quiet g op hop := by
    cases op with
    | store s why op =>
      have hgentle : g.permitsStore why op := by
        cases op <;> first | exact rfl | cases hop
      refine ⟨hgentle, fun r => ?_⟩
      rcases r with _ | r
      · rfl
      · cases op <;> first | rfl | cases hop
    | client op => cases hop
    | _ => first | exact ⟨trivial, fun _ => rfl⟩ | cases hop

variable {s : σ} {g : Tally} {job : Job} {id : JobId}

/-- A transaction that leaves the tally as it is. -/
theorem leads_steady {op : StoreOp} (hp : g.permitsStore why op)
    (hnext : ∀ r, g.nextStore lane ns why op r = g) :
    (capDiscipline σ lane ns cap).Leads g (.store s why op) (· = g) := by
  refine ⟨hp, fun r => ?_⟩
  rcases r with _ | r
  · rfl
  · exact hnext r

/-! ## Claims and dead letters -/

theorem follows_unclaim (s : σ) (why : Cause) (id : JobId) (ns' : Option String) (g : Tally) :
    (storage s why (Ops.completeExecution id ns')).Follows (capDiscipline σ lane ns cap) g
      fun g' _ => g' = g :=
  follows_completeExecution (R := (· = g)) rfl (leads_steady rfl fun _ => rfl) ns'

/-- Dead-lettering a job: nothing happened, or the transaction ran. -/
theorem follows_moved (h : g.MaySettle why [job.id]) {error : String} {metadata : Option String}
    {shed : Bool} :
    (Sched.deadLetter cfg s why job error metadata shed).Follows (capDiscipline σ lane ns cap) g
      fun g' r => g' = (if why = .loop then g.giveBack job.id else g) ∨ r = none ∧ g' = g := by
  refine Follows.quiet (QuietOnly.ask rfl) fun dlqId => ?_
  refine Follows.quiet (QuietOnly.ask rfl) fun now => ?_
  refine Follows.bind (Follows.guarded_bind (Follows.txn h (.inr ⟨rfl, rfl⟩) fun r _ => ?_))
  rcases r with _ | _
  · exact .inr ⟨rfl, rfl⟩
  · refine (follows_cascadeCancel (R := fun g' => g' = if why = .loop then g.giveBack job.id else g)
      rfl (fun ids _ => leads_steady rfl fun _ => rfl) _).mono fun g' _ hg => .inl hg

/-! ## Handling results -/

/-- The thread speaks for the job: it was sent, or a reaper takes it over. -/
def Speaks (g : Tally) (why : Cause) (id : JobId) : Prop := why ≠ .loop ∧ g.MaySettle why [id]

/-- **A thread settles the job it speaks for** without a change to the tally. -/
theorem Speaks.rules (h : Speaks g why id) :
    ResultRules cfg (capDiscipline σ lane ns cap) s why id g (· = g) where
  stay := rfl
  retry _ _ := leads_steady trivial fun _ => rfl
  release := leads_steady rfl fun _ => rfl
  deadLetter _ job hjob error metadata := by
    cases hjob job rfl
    refine (follows_moved h.2).mono fun g' _ hg => ?_
    rw [if_neg h.1] at hg
    exact hg.elim (fun hg => hg) fun hg => hg.2
  complete _ _ _ := leads_steady h fun _ => rfl
  markCancelled _ _ := leads_steady h fun _ => rfl
  after := by
    rintro _ rfl
    exact leads_steady rfl fun _ => rfl

theorem follows_release :
    (Sched.authorizeFinished cfg s why id).Follows (capDiscipline σ lane ns cap) g
      fun g' _ => g' = g :=
  follows_authorizeFinished (R := (· = g)) trivial fun _ _ => rfl

/-- **Handling a result**, a timeout or a rescue leaves the tally as it is. -/
theorem Speaks.handle {r : JobResult} (h : Speaks g why r.jobId) :
    (Sched.handleResult cfg s why r).Follows (capDiscipline σ lane ns cap) g
      fun g' _ => g' = g := by
  refine follows_handleResult follows_release (fun _ h => h) ?_
  rintro _ rfl
  exact follows_settleResult h.rules

/-! ## Handling a batch of results -/

theorem speaks_results (h : id ∈ g.known) (es : List Execution) : Speaks g (.results es) id :=
  ⟨by simp, by simpa [Tally.MaySettle] using h⟩

theorem follows_drainResults (s : σ) (rs : List (Int × JobResult))
    (h : ∀ p ∈ rs, p.2.jobId ∈ g.known) :
    (Sched.drainResults cfg s rs).Follows (capDiscipline σ lane ns cap) g fun g' drained =>
      g' = g ∧ ∀ f ∈ Sched.finished drained, f.completion.jobId ∈ g.known := by
  induction rs with
  | nil => exact ⟨rfl, by simp [finished]⟩
  | cons p rest ih =>
    obtain ⟨k, r⟩ := p
    have hfirst : r.jobId ∈ g.known := h (k, r) (by simp)
    have hrest := ih fun p hp => h p (by simp [hp])
    -- a result that is handled at once
    have hother : (handleResult cfg s (.results [⟨r.jobId, k⟩]) r >>= fun outcome => do
        return Sum.inl outcome :: (← drainResults cfg s rest)).Follows
          (capDiscipline σ lane ns cap) g fun g' drained =>
            g' = g ∧ ∀ f ∈ finished drained, f.completion.jobId ∈ g.known := by
      refine .bind ((speaks_results hfirst _).handle.mono fun g₁ _ hg₁ => ?_)
      subst hg₁
      exact .bind (hrest.mono fun _ _ hg => hg)
    cases r with
    | success =>
      refine .bind (follows_release.mono fun g₁ authorized hg₁ => ?_)
      subst hg₁
      refine .bind (hrest.mono fun g₂ drained hg₂ => ⟨hg₂.1, fun f hf => ?_⟩)
      cases authorized with
      | false => exact hg₂.2 f hf
      | true =>
        obtain rfl | hf := List.mem_cons.1 hf
        · exact hfirst
        · exact hg₂.2 f hf
    | failure | cancelled => exact hother

theorem follows_finalizeEach (s : σ) (drained : List (Option ResultOutcome ⊕ Sched.Finished))
    (h : ∀ f ∈ Sched.finished drained, f.completion.jobId ∈ g.known) :
    (Sched.finalizeEach cfg s drained).Follows (capDiscipline σ lane ns cap) g fun _ _ => True := by
  induction drained with
  | nil => trivial
  | cons d rest ih =>
    cases d with
    | inl => exact .bind ((ih h).mono fun _ _ _ => trivial)
    | inr f =>
      have hfirst : f.completion.jobId ∈ g.known := h f mem_cons_self
      refine .bind ((follows_finalizeSuccess (speaks_results hfirst _).rules).mono
        fun g₁ _ hg₁ => ?_)
      subst hg₁
      exact Follows.bind ((ih fun f' hf' => h f' (List.mem_cons_of_mem f hf')).mono
        fun _ _ _ => trivial)

theorem follows_handleResults (s : σ) (rs : List (Int × JobResult))
    (h : ∀ p ∈ rs, p.2.jobId ∈ g.known) :
    (Sched.handleResults cfg s rs).Follows (capDiscipline σ lane ns cap) g fun _ _ => True := by
  refine .bind ((follows_drainResults s rs h).mono fun g₁ drained hg₁ => ?_)
  obtain ⟨rfl, hdrained⟩ := hg₁
  have heach : (finalizeEach cfg s drained).Follows (capDiscipline σ lane ns cap) g₁
      fun _ _ => True := follows_finalizeEach s drained hdrained
  simp only
  split
  · trivial
  · refine Follows.quiet (QuietOnly.ask rfl) fun now => ?_
    refine Follows.bind (Follows.bind (Follows.txn ⟨by simp, fun id hid => ?_⟩ heach fun r _ => ?_))
    · obtain ⟨_, hc, rfl⟩ := mem_map.1 hid
      obtain ⟨f, hf, rfl⟩ := mem_map.1 hc
      exact hdrained f hf
    · rcases r with _ | _
      · exact heach
      · trivial

/-! ## Sweeps -/

theorem follows_rescueOrphan (s : σ) (job : Job) (owner : String) (g : Tally) :
    (Sched.rescue cfg s job owner).Follows (capDiscipline σ lane ns cap) g fun g' _ => g' = g := by
  refine follows_rescue (R := (· = g)) fun now => ⟨leads_steady trivial fun _ => rfl, trivial, ?_⟩
  intro _
  exact Speaks.handle ⟨by simp, trivial⟩

theorem follows_recoverOrphanedJobs (s : σ) (now : Int) (g : Tally) :
    (Sched.recoverOrphanedJobs cfg s now).Follows (capDiscipline σ lane ns cap) g
      fun _ _ => True := by
  refine Follows.quiet (QuietOnly.ask rfl) fun alive => ?_
  rcases alive with _ | _
  · trivial
  · refine Follows.bind (Follows.txn rfl trivial fun orphans _ => ?_)
    refine (Follows.forEach (fun g' : Tally => g' = g) rfl fun o _ g' hg' => ?_).mono
      fun _ _ _ => trivial
    exact (follows_rescueOrphan s o.1 o.2 g').mono fun _ _ hg => hg.trans hg'

theorem follows_sweep (s : σ) (g : Tally) :
    (Sched.reapStale cfg s).Follows (capDiscipline σ lane ns cap) g fun _ _ => True := by
  refine follows_reapStale (R := fun _ => True) ?_ ?_ ?_ (fun job g _ => ?_)
    (fun now g _ => follows_recoverOrphanedJobs s now g) trivial
  iterate 3 exact fun _ _ => leads_steady rfl fun _ => rfl
  have hspeaks : Speaks g (.reap ⟨job.id, job.retryCount⟩) (timeoutResult job).jobId :=
    ⟨by simp, trivial⟩
  exact hspeaks.handle.mono fun _ _ _ => trivial

/-! ## Dispatching one job -/

theorem Deciding.maySettle {ns' : Option String} {rest : List Job} {counts : Sched.GateCounts}
    (h : Deciding lane ns ns' g (job :: rest) counts) : g.MaySettle .loop [job.id] := by
  intro _ hid
  cases mem_singleton.1 hid
  by_cases hcounts : lane.counts ns job = true
  · obtain ⟨_, _, hund, -⟩ := h.around hcounts
    exact .inl (Tally.mem_of_split hund)
  · exact .inr (h.others job mem_cons_self (by simpa using hcounts))

section

variable {s : σ} {job : Job} {rest : List Job} {counts : Sched.GateCounts} {g : Tally}

section

variable (h : Deciding lane ns (cfg s).namespace_ g (job :: rest) counts)
include h

/-- The job is given back, or the attempt failed and it stays undecided. The cycle has lowered its
counts for it. -/
theorem follows_reschedule (next : Int) :
    (attempt s .loop (txn (.reschedule job.id next))).Follows (capDiscipline σ lane ns cap) g
      fun g' r => Deciding lane ns (cfg s).namespace_ g' rest
        (counts.release job.taskName job.queue) ∧
        (r = none → Deciding lane ns (cfg s).namespace_ g' rest counts) := by
  refine Follows.bind (Follows.txn ⟨rfl, Deciding.maySettle h⟩ ⟨h.release, fun _ => h.skip⟩
    fun r _ => ?_)
  rcases r with _ | _
  · exact ⟨h.release, fun _ => h.skip⟩
  · exact ⟨h.giveBack.1, fun _ => h.giveBack.2⟩

theorem follows_rollback (now delayMs : Int) :
    (Sched.rollback cfg s job now delayMs).Follows (capDiscipline σ lane ns cap) g
      fun g' _ => Deciding lane ns (cfg s).namespace_ g' rest
        (counts.release job.taskName job.queue) := by
  refine Follows.quiet (QuietOnly.ask rfl) fun delay => ?_
  have hback : (rollbackClaimAndReschedule cfg s job.id (now + delay)).Follows
      (capDiscipline σ lane ns cap) g fun g' _ => Deciding lane ns (cfg s).namespace_ g' rest
        (counts.release job.taskName job.queue) := by
    refine .bind ((follows_unclaim s .loop job.id _ g).mono fun g₁ r hg₁ => ?_)
    subst hg₁
    rcases r with _ | _
    · exact h.release
    · exact (follows_reschedule h _).mono fun _ _ hg => hg.1
  refine .bind (hback.mono fun g₁ r hg₁ => ?_)
  rcases r with _ | _ <;> exact hg₁

/-- Shedding a job: where it succeeds, the cycle may lower its counts for it. -/
theorem follows_shedRateLimited (reason : String) (claimed : Bool) :
    (Sched.shedRateLimited cfg s job reason claimed).Follows (capDiscipline σ lane ns cap) g
      fun g' _ => Deciding lane ns (cfg s).namespace_ g' rest
        (counts.release job.taskName job.queue) ∧
        Deciding lane ns (cfg s).namespace_ g' rest counts := by
  have hdead : (Sched.deadLetter cfg s .loop job reason (some Sched.rateLimitShedMetadata)
      true).Follows (capDiscipline σ lane ns cap) g fun g' _ =>
        Deciding lane ns (cfg s).namespace_ g' rest (counts.release job.taskName job.queue) ∧
          Deciding lane ns (cfg s).namespace_ g' rest counts := by
    refine (follows_moved (Deciding.maySettle h)).mono fun g₁ r hg₁ => ?_
    rw [if_pos rfl] at hg₁
    obtain rfl | ⟨-, rfl⟩ := hg₁
    · exact h.giveBack
    · exact ⟨h.release, h.skip⟩
  cases claimed with
  | false => exact hdead
  | true =>
    refine .bind ((follows_unclaim s .loop job.id _ g).mono fun g₁ _ hg₁ => ?_)
    subst hg₁
    exact hdead

end

/-- The running jobs of a lane, counted once a cycle: another lane's number stays as it was. -/
theorem follows_cachedRunning {l : Lane} {read : SchedProg σ (Option Nat)}
    {keep : Int → Sched.GateCounts} (h : Deciding lane ns (cfg s).namespace_ g rest counts)
    (hread : ∀ R : Tally → Option Nat → Prop, R g none →
      (∀ n : Nat, R (if lane = l ∧ (cfg s).namespace_ = ns then
        { g with count := some (n : Int) } else g) (some n)) →
      read.Follows (capDiscipline σ lane ns cap) g R)
    (hkeep : ∀ n, lane.cached (keep n) = if lane = l then some n else lane.cached counts) :
    (Sched.cachedRunning (l.cached counts) read keep counts).Follows
      (capDiscipline σ lane ns cap) g fun g' r =>
        Deciding lane ns (cfg s).namespace_ g' rest r.2 ∧
          (∀ n, r.1 = some n → lane = l → lane.cached r.2 = some n) ∧
          (lane ≠ l → lane.cached r.2 = lane.cached counts) := by
  unfold cachedRunning
  split
  · next n hn =>
    refine ⟨h, fun m hm hlane => ?_, fun _ => rfl⟩
    cases hm
    exact hlane ▸ hn
  · refine .bind (hread _ ⟨h, nofun, fun _ => rfl⟩ fun n => ⟨?_, fun m hm hlane => ?_, ?_⟩)
    · split
      · next hlane => exact h.load ((hkeep n).trans (if_pos hlane.1))
      · next hlane => exact h.recount fun hns => (hkeep n).trans (if_neg fun h => hlane ⟨h, hns⟩)
    · cases hm
      exact (hkeep n).trans (if_pos hlane)
    · exact fun hlane => (hkeep n).trans (if_neg hlane)

/-- The number the cycle goes by for the job's lane is within the cap. -/
def Admits (lane : Lane) (ns : Option String) (cap : Int) (job : Job)
    (counts : Sched.GateCounts) : Prop :=
  lane.counts ns job = true → ∃ n, lane.cached counts = some n ∧ n ≤ cap

section

variable (hlimit : ∀ s, (cfg s).namespace_ = ns → lane.limit (cfg s) = some cap)
include hlimit

section

variable (h : Deciding lane ns (cfg s).namespace_ g (job :: rest) counts)
include h

/-- The cap of a lane: if it is the one in question, its number is then within the cap. -/
theorem follows_cap {l : Lane} {cached : SchedProg σ (Option Int × Sched.GateCounts)}
    (hcached : cached.Follows (capDiscipline σ lane ns cap) g fun g' r =>
      Deciding lane ns (cfg s).namespace_ g' (job :: rest) r.2 ∧ (∀ n, r.1 = some n → lane = l →
      lane.cached r.2 = some n) ∧ (lane ≠ l → lane.cached r.2 = lane.cached counts)) :
    (Sched.cap (l.limit (cfg s)) cached counts).Follows (capDiscipline σ lane ns cap) g
      fun g' r => Deciding lane ns (cfg s).namespace_ g' (job :: rest) r.2 ∧
        (r.1 = some true → lane = l → Admits lane ns cap job r.2) ∧
        (lane ≠ l → lane.cached r.2 = lane.cached counts) := by
  -- the scheduler has a cap for the lane
  have hcap : lane.counts ns job = true → lane.limit (cfg s) = some cap := by
    intro hcounts
    simp only [Lane.counts, Bool.and_eq_true, decide_eq_true_iff] at hcounts
    exact hlimit s ((h.namespace_ job mem_cons_self).symm.trans hcounts.2)
  unfold Sched.cap
  split
  · next hnone =>
    refine ⟨h, fun _ hlane hcounts => ?_, fun _ => rfl⟩
    cases (hlane ▸ hcap hcounts).symm.trans hnone
  · next _ hmax =>
    refine .bind (hcached.mono fun g₁ r hg₁ => ?_)
    obtain ⟨_, _⟩ := r
    refine ⟨hg₁.1, fun htrue hlane hcounts => ?_, hg₁.2.2⟩
    obtain ⟨m, hm, hle⟩ := Option.map_eq_some_iff.1 htrue
    cases (hlane ▸ hcap hcounts).symm.trans hmax
    exact ⟨m, hg₁.2.1 m hm hlane, of_decide_eq_true hle⟩

theorem follows_checkPostClaimConcurrency :
    (Sched.checkPostClaimConcurrency cfg s job counts).Follows (capDiscipline σ lane ns cap) g
      fun g' r => Deciding lane ns (cfg s).namespace_ g' (job :: rest) r.2 ∧
        (r.1 = some true → Admits lane ns cap job r.2) := by
  unfold checkPostClaimConcurrency
  rw [queueCap_eq_cap]
  refine .bind (.mono (follows_cap hlimit h
    (follows_cachedRunning (l := .queue job.queue) h ?_ ?_)) fun g₁ r hg₁ => ?_)
  · exact fun R hnone hsome => Follows.txn rfl hnone fun n _ => hsome n
  · exact fun n => lane.cached_queue job.queue n counts
  obtain ⟨queueOk, counts₁⟩ := r
  rcases queueOk with _ | _ | _
  · exact ⟨hg₁.1, nofun⟩
  · exact ⟨hg₁.1, nofun⟩
  · dsimp only
    rw [taskCap_eq_cap]
    refine .bind (.mono (follows_cap hlimit hg₁.1
      (follows_cachedRunning (l := .task job.taskName) hg₁.1 ?_ ?_)) fun g₂ r hg₂ => ?_)
    · exact fun R hnone hsome => Follows.txn rfl hnone fun n _ => hsome n
    · exact fun n => lane.cached_task job.taskName n counts₁
    obtain ⟨taskOk, _⟩ := r
    rcases taskOk with _ | _ | _
    · exact ⟨hg₂.1, nofun⟩
    · exact ⟨hg₂.1, nofun⟩
    · refine Follows.quiet (quietOnly_bulkhead cfg s job) fun _ => ⟨hg₂.1, fun _ hcounts => ?_⟩
      -- each lane is checked by its own gate
      by_cases htask : lane = .task job.taskName
      · exact hg₂.2.1 rfl htask hcounts
      · have hqueue : lane = .queue job.queue := by
          cases lane <;> simp_all [Lane.counts, Lane.covers]
        rw [hg₂.2.2 htask]
        exact hg₁.2.1 rfl hqueue hcounts

theorem follows_finishDispatch (now : Int) :
    (Sched.finishDispatch cfg s job now counts).Follows (capDiscipline σ lane ns cap) g
      fun g' r => Deciding lane ns (cfg s).namespace_ g' rest r.2 := by
  refine .bind ((follows_checkPostClaimConcurrency hlimit h).mono fun g₁ r hg₁ => ?_)
  obtain ⟨r, counts₁⟩ := r
  obtain ⟨hdec, hadmits⟩ := hg₁
  have hback : ∀ delayMs, (rollback cfg s job now delayMs >>= fun r =>
      return (r, counts₁.release job.taskName job.queue)).Follows (capDiscipline σ lane ns cap) g₁
        fun g' r => Deciding lane ns (cfg s).namespace_ g' rest r.2 :=
    fun delayMs => .bind ((follows_rollback hdec now delayMs).mono fun _ _ hg => hg)
  rcases r with _ | _ | _
  · exact hdec.skip
  · exact hback _
  · refine .bind (.perform trivial fun _ _ => ?_)
    by_cases hcounts : lane.counts ns job = true
    · obtain ⟨_, hn, hle⟩ := hadmits rfl hcounts
      have hns : (cfg s).namespace_ = ns := by
        have hjob := hdec.namespace_ job mem_cons_self
        simp only [Lane.counts, Bool.and_eq_true, decide_eq_true_iff] at hcounts
        exact hjob.symm.trans hcounts.2
      obtain ⟨hmay, hsend⟩ := hdec.send hcounts hns hn hle
      refine .bind (.perform ?_ fun accepted _ => ?_)
      · simpa only [capDiscipline, if_pos hcounts] using hmay
      · cases accepted with
        | true =>
          have hnext : (capDiscipline σ lane ns cap).next g₁ (.trySend s job) true =
              g₁.send job.id := if_pos hcounts
          exact hnext.symm ▸ hsend
        | false => exact .bind (.perform trivial fun _ _ => hback _)
    · refine .bind (.perform ?_ fun accepted _ => ?_)
      · have hother := hdec.others job mem_cons_self (by simpa using hcounts)
        simpa only [capDiscipline, if_neg hcounts] using hother
      · cases accepted with
        | true =>
          have hnext : (capDiscipline σ lane ns cap).next g₁ (.trySend s job) true = g₁ :=
            if_neg hcounts
          exact hnext.symm ▸ hdec.skip
        | false => exact .bind (.perform trivial fun _ _ => hback _)

end

end

end

/-! ## Cycles -/

theorem cached_empty : lane.cached .empty = none := by
  cases lane <;> rfl

/-- **Dispatchers keep to the cap**, whatever becomes of the job at hand. -/
theorem cycleRules (hlimit : ∀ s, (cfg s).namespace_ = ns → lane.limit (cfg s) = some cap) :
    CycleRules cfg (capDiscipline σ lane ns cap) s
      (fun _ g jobs counts => Deciding lane ns (cfg s).namespace_ g jobs counts)
      fun _ g job rest counts => Deciding lane ns (cfg s).namespace_ g (job :: rest) counts where
  skip h := h.skip
  own h := h
  pass h := h.skip
  rollback h now delayMs := follows_rollback h now delayMs
  finish h now := follows_finishDispatch hlimit h now
  shed h reason := follows_shedRateLimited h reason _
  reschedule h next := follows_reschedule h next
  claim h now := by
    refine ⟨trivial, fun r => ?_⟩
    rcases r with _ | _ <;> exact h
  claimBatch h now := ⟨trivial, h, fun _ => h, fun won => h.sublist (sublist_wonJobs _ won)⟩
  drop h error metadata := by
    have hmine := Deciding.maySettle (h.sublist (sublist_append_right _ _))
    refine (follows_moved hmine).mono fun g₁ r hg₁ hr => ?_
    obtain rfl | ⟨hnone, -⟩ := hg₁
    · exact h.giveBack_middle cached_empty
    · cases hnone.symm.trans hr

theorem deciding_nil {ns' : Option String} (hund : g.undecided = []) :
    Deciding lane ns ns' g [] .empty :=
  ⟨by simp [hund], by simp [hund], by simp,
    by simp, [], [], by simp [hund], by simp, fun _ n hn => by
    rw [cached_empty] at hn; cases hn⟩

theorem follows_dequeueFrom (s : σ) (now : Int) (orders : String → DispatchOrder)
    (queues : List String) (hund : g.undecided = []) (hcount : g.count = none) :
    (storage s .loop (Ops.dequeueFrom now (cfg s).namespace_ orders queues)).Follows
      (capDiscipline σ lane ns cap) g fun g' r =>
        ∀ job, r = some (.ok (some job)) → Deciding lane ns (cfg s).namespace_ g' [job] .empty := by
  induction queues with
  | nil => exact fun job hjob => by cases hjob
  | cons queue rest ih =>
    refine Follows.guarded_bind (Follows.txn hcount (fun job hjob => by cases hjob) fun r hr => ?_)
    rcases r with _ | _ | job
    · exact fun job hjob => by cases hjob
    · exact ih
    · intro _ hjob'
      cases hjob'
      refine (deciding_nil hund).take cached_empty (List.nodup_singleton _) fun j hj => ?_
      cases mem_singleton.1 hj
      exact hr

theorem follows_dequeueBatchFrom (s : σ) (now : Int) (orders : String → DispatchOrder) (max : Nat)
    (queues : List String) (before : List Job) (g : Tally) (hcount : g.count = none)
    (h : Deciding lane ns (cfg s).namespace_ g before .empty) :
    (storage s .loop (Ops.dequeueBatchFrom now (cfg s).namespace_ orders max queues)).Follows
      (capDiscipline σ lane ns cap) g fun g' r =>
        ∀ jobs, r = some (.ok jobs) →
          Deciding lane ns (cfg s).namespace_ g' (before ++ jobs) .empty := by
  have hnil : ∀ jobs, (some (.ok []) : Option (Except QueueError (List Job))) = some (.ok jobs) →
      Deciding lane ns (cfg s).namespace_ g (before ++ jobs) .empty := by
    intro jobs hjobs
    cases hjobs
    simpa using h
  induction queues generalizing g max before with
  | nil => cases max <;> exact hnil
  | cons queue rest ih =>
    cases max with
    | zero => exact hnil
    | succ =>
      refine Follows.guarded_bind (Follows.txn hcount (nofun)
        fun r hr => ?_)
      rcases r with e | batch
      · exact nofun
      · have htake := h.take cached_empty hr.1 hr.2
        refine .guarded_bind ((ih _ (before ++ batch) (g.take lane ns batch) hcount htake
          fun jobs hjobs => ?_).mono fun g₁ r hg₁ => ?_)
        · cases hjobs
          simpa using htake
        rcases r with _ | _ | more
        · exact nofun
        · exact nofun
        · intro _ hjobs
          cases hjobs
          simpa using hg₁ more rfl

/-! ## Every call -/

def resultIds : Sched.Call σ → List JobId
  | .handleResult _ _ r => [r.jobId]
  | .handleResults _ rs => rs.map fun p => p.2.jobId
  | _ => []

/-- **Every call of a scheduler, and every enqueue, keeps to the discipline.** -/
theorem follows_call (hlimit : ∀ s, (cfg s).namespace_ = ns → lane.limit (cfg s) = some cap)
    {codec : MetadataCodec} (call : Sched.Call σ) (h : ∀ c, call = .client c → c.isEnqueue = true) :
    (call.prog cfg codec).Follows (capDiscipline σ lane ns cap)
      { Tally.empty with known := resultIds call } fun _ _ => True := by
  cases call with
  | client c =>
    have hcalls := (calls_of_isEnqueue (h c rfl) codec).guarded (T := schedSig σ)
      (f := .client) (g := fun _ r => some r)
      (Q := fun op => ∃ o, o.gentle = true ∧ op = .client o)
      fun o ho => ⟨o, gentle_of_enqueues ho, rfl⟩
    refine .bind ((hcalls.follows ?_).mono fun _ _ _ => trivial)
    rintro _ ⟨_, ho, rfl⟩
    exact ⟨ho, fun _ => rfl⟩
  | handleResult s k r =>
    have hspeaks := speaks_results (g := { Tally.empty with known := [r.jobId] })
      mem_cons_self [⟨r.jobId, k⟩]
    exact .bind (hspeaks.handle.mono fun _ _ _ => trivial)
  | handleResults s rs =>
    have hknown : ∀ p ∈ rs, p.2.jobId ∈ rs.map fun p => p.2.jobId := fun p hp => mem_map_of_mem hp
    exact .bind (follows_handleResults s rs hknown)
  | reapStale s => exact follows_sweep s _
  | recoverOrphanedJobs s now => exact follows_recoverOrphanedJobs s now _
  | tryDispatch s =>
    exact (cycleRules hlimit).tryDispatch fun now queues =>
      follows_dequeueFrom s now _ queues rfl rfl
  | tryDispatchBatch s =>
    exact (cycleRules hlimit).tryDispatchBatch fun now max queues =>
      follows_dequeueBatchFrom s now _ max queues [] _ rfl (deciding_nil rfl)
  | stop => exact .perform trivial fun _ _ => trivial

end

end Cap

/-! ## Runs -/

section

variable {σ τ : Type} [DecidableEq σ] [DecidableEq τ] (cfg : σ → Scheduler) (codec : MetadataCodec)

/-- Any number of schedulers work on one store, with the results of the runs they sent, while
clients enqueue jobs under new ids. No reaper and no retry acts on a job satisfying `p`. -/
abbrev capRules (τ : Type) (p : Job → Bool) :
    Rules (schedMachine σ) (schedClients cfg codec) τ where
  mayStart st _ call := Sched.Call.Genuine st call
  mayStep st _ op _ := SchedOp.NeverUsed st op ∧ SchedOp.Undisturbed p st op

variable {cfg codec}

theorem cap_sound {lane : Lane} {ns : Option String} {cap : Int}
    (hlimit : ∀ s, (cfg s).namespace_ = ns → lane.limit (cfg s) = some cap) :
    Pool.Sound (capRules cfg codec τ (lane.counts ns)) (capDiscipline σ lane ns cap)
      (Capped lane ns cap) where
  start st G t call hinv _ hcall := by
    have hknown : Cap.resultIds call ⊆ sentIds st := by
      -- a result is genuine: its run was sent
      have hsent : ∀ {s id k}, (s, (⟨id, k⟩ : Execution)) ∈ runs st →
          id ∈ sentIds st := by
        intro _ id _ hmem
        obtain ⟨p, hp, heq⟩ := mem_map.1 hmem
        have hid : p.2.id = id := congrArg (fun q => q.2.job) heq
        exact hid ▸ mem_map_of_mem hp
      intro _ hid
      cases call with
      | handleResult =>
        cases mem_singleton.1 hid
        exact hsent hcall
      | handleResults =>
        obtain ⟨p, hp, rfl⟩ := mem_map.1 hid
        exact hsent (hcall p hp)
      | _ => cases hid
    have hstart := (hinv.weaken (Tally.empty_le cap (G t))).know (t := t) hknown
    rw [Function.update_self, Function.update_idem] at hstart
    refine ⟨_, hstart, Cap.follows_call hlimit call fun c hc => ?_⟩
    subst hc
    exact hcall
  step st G t op w hinv hperm hstep := hinv.step w hperm hstep.1 hstep.2

/-- **Caps hold across schedulers**: when every scheduler of a namespace has the cap `m` for a task
or a queue, at no time are more than `m` of the namespace's jobs of that task or queue out with
workers. -/
theorem concurrency_cap {lane : Lane} {ns : Option String} {m : Int}
    (hlimit : ∀ s, (cfg s).namespace_ = ns → lane.limit (cfg s) = some m) {db : Db}
    {c : Pool (schedMachine σ) τ}
    (h : Pool.Reaches (capRules cfg codec τ (lane.counts ns)) (Pool.idle (SchedState.init db)) c) :
    (SchedState.handed c.state (lane.counts ns) : Int) ≤ max m 0 := by
  have hidle : Pool.Certified (M := schedMachine σ) (capDiscipline σ lane ns m)
      (Capped lane ns m) (.idle (init db) : Pool (schedMachine σ) τ)
      fun _ => .empty :=
    .idle (.init lane ns m db) fun _ => trivial
  obtain ⟨_, hG⟩ := (cap_sound hlimit).reachable hidle h
  have hle := hG.inv.within.admitted_le
  omega

/-! ## Two namespaces -/

variable (cfg codec) in
/-- The same, when every call succeeds. -/
abbrev calmCapRules (τ : Type) (p : Job → Bool) :
    Rules (schedMachine σ) (schedClients cfg codec) τ where
  mayStart st _ call := Sched.Call.Genuine st call
  mayStep st _ op w := (SchedOp.NeverUsed st op ∧ SchedOp.Undisturbed p st op) ∧
    World.fault w = false

end

/-- Two schedulers, one in each of two namespaces, that run at most one job of any task at a
time. -/
def tenantScheduler (s : Bool) : Scheduler :=
  { plainScheduler (if s then "v" else "w") with
    namespace_ := some (if s then "x" else "y")
    taskConfigs := fun _ => some ⟨false, .defer, false, false, some 1, none⟩ }

/-- A job is enqueued in the namespace of a scheduler, and dispatched. -/
def tenantDispatch (s : Bool) (id : JobId) :
    List (Move (schedMachine Bool) (schedClients tenantScheduler plainCodec) Unit) :=
  [.start () (.client (.enqueue
    ⟨{ NewJob.plain "q" "t" with namespace_ := (tenantScheduler s).namespace_ }, id, 0⟩))] ++
  List.replicate 1 (.step () World.calm) ++ [.start () (.tryDispatch s)] ++
  List.replicate 9 (.step () { World.calm with number := 1 })

/-- One of the schedulers has a job out, which is all its cap allows. -/
theorem concurrency_cap_sample :
    (∀ s, (tenantScheduler s).namespace_ = some "x" →
      (Lane.task "t").limit (tenantScheduler s) = some 1) ∧
    ∃ c : Pool (schedMachine Bool) Unit,
      Pool.Reaches (capRules tenantScheduler plainCodec Unit ((Lane.task "t").counts (some "x")))
        (Pool.idle (SchedState.init Db.empty)) c ∧
      SchedState.handed c.state ((Lane.task "t").counts (some "x")) = 1 ∧
      (SchedState.handed c.state ((Lane.task "t").counts (some "x")) : Int) ≤ max 1 0 := by
  have hlimit : ∀ s, (tenantScheduler s).namespace_ = some "x" →
      (Lane.task "t").limit (tenantScheduler s) = some 1 := fun _ _ => rfl
  refine ⟨hlimit, Pool.exists_reaches_and (tenantDispatch true "a" ++ tenantDispatch false "b") ?_
    fun c hc => concurrency_cap hlimit hc⟩
  decide +kernel

/-- The cap is one for each namespace: two schedulers of different namespaces have two jobs of the
task out. -/
theorem concurrency_cap_tenants :
    (∀ s, (Lane.task "t").limit (tenantScheduler s) = some 1) ∧
    ¬ ∀ c : Pool (schedMachine Bool) Unit,
      Pool.Reaches (calmCapRules tenantScheduler plainCodec Unit (Lane.task "t").covers)
        (Pool.idle (SchedState.init Db.empty)) c →
      (SchedState.handed c.state (Lane.task "t").covers : Int) ≤ max 1 0 := by
  refine ⟨fun _ => rfl, fun hall => ?_⟩
  obtain ⟨c, hc, htwo⟩ := Pool.exists_reaches
    (calmCapRules tenantScheduler plainCodec Unit (Lane.task "t").covers)
    (.idle (init .empty)) (tenantDispatch true "a" ++ tenantDispatch false "b")
    (fun c => handed c.state (Lane.task "t").covers = 2)
    (by decide +kernel)
  have hle := hall c hc
  rw [htwo] at hle
  omega

end Flexiq
