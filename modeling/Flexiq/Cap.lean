import Flexiq.Budget
import Flexiq.TenureDiscipline

/-!
# Concurrency caps

A task or a queue may have a cap on how many of its jobs are out with workers at a time, across
all schedulers of a namespace. A dispatcher enforces it with the protocol of `Budget`: it dequeues
jobs, which makes them running, counts the running jobs of the task or queue once, and decides its
jobs one by one against that number.

This file ties the two together. A thread's ghost value, its **tally**, lists the jobs it dequeued
and has not decided; `Capped` says that these and the jobs that were sent are different running
jobs, and that the budget is kept.
-/

namespace Flexiq

open Function List Table Nat SchedState

/-! ## What a cap is about -/

/-- What a cap is set for. -/
inductive Lane where
  | task (name : String)
  | queue (name : String)
  deriving DecidableEq

namespace Lane

/-- The job is of the task, or in the queue. -/
def covers : Lane → Job → Bool
  | task name, job => job.taskName = name
  | queue name, job => job.queue = name

def limit : Lane → Scheduler → Option Int
  | task name, cfg => (cfg.taskConfigs name).bind TaskConfig.maxConcurrent
  | queue name, cfg => (cfg.queueConfigs name).bind QueueConfig.maxConcurrent

/-- The job is one of a namespace's jobs of the task or queue. -/
def counts (lane : Lane) (ns : Option String) (job : Job) : Bool :=
  lane.covers job && job.namespace_ = ns

theorem covers_congr (lane : Lane) {row row' : Job} (h : row'.SameRun row) :
    lane.covers row' = lane.covers row := by
  cases lane with
  | task => simp only [covers, h.taskName]
  | queue => simp only [covers, h.queue]

theorem counts_congr (lane : Lane) (ns : Option String) {row row' : Job} (h : row'.SameRun row) :
    lane.counts ns row' = lane.counts ns row := by
  simp only [counts, lane.covers_congr h, h.namespace_]

end Lane

namespace SchedState

variable {σ : Type}

/-- The jobs that were handed to workers. -/
def sentIds (st : SchedState σ) : List JobId := st.sent.map fun p => p.2.id

/-- How many of the jobs satisfying `p` were handed to a worker and are not finished. -/
def handed (st : SchedState σ) (p : Job → Bool) : Nat :=
  st.db.jobs.count fun row => p row ∧ row.status = .running ∧ row.id ∈ st.sentIds

theorem mem_handed {st : SchedState σ} {p : Job → Bool} {row : Job} :
    decide (p row = true ∧ row.status = .running ∧ row.id ∈ st.sentIds) = true ↔
      p row = true ∧ row.status = .running ∧ row.id ∈ st.sentIds := decide_eq_true_iff

theorem handed_le {st st' : SchedState σ} {p : Job → Bool}
    (h : ∀ {k row'}, st'.db.jobs.find k = some row' → p row' = true → row'.status = .running →
      k ∈ st'.sentIds → ∃ row, st.db.jobs.find k = some row ∧ p row = true ∧
        row.status = .running ∧ k ∈ st.sentIds) : st'.handed p ≤ st.handed p := by
  refine count_le_count fun {k row'} hrow' hp => ?_
  obtain ⟨hpr, hrun, hsent⟩ := mem_handed.1 hp
  have hid : row'.id = k := find_key hrow'
  obtain ⟨row, hrow, hp', hrun', hsent'⟩ := h hrow' hpr hrun (hid ▸ hsent)
  have hid' : row.id = k := find_key hrow
  exact ⟨row, hrow, mem_handed.2 ⟨hp', hrun', hid' ▸ hsent'⟩⟩

theorem handed_send (st : SchedState σ) (s : σ) (job : Job) (p : Job → Bool) :
    SchedState.handed { st with sent := (s, job) :: st.sent } p ≤ st.handed p + 1 := by
  let st' : SchedState σ := { st with sent := (s, job) :: st.sent }
  let ks := (st'.db.jobs.select fun row =>
    p row ∧ row.status = .running ∧ row.id ∈ st'.sentIds).map jobsSchema.key
  have hnodup : ks.Nodup := nodup_select_key _ _
  have hle : (ks.erase job.id).length ≤ st.handed p := by
    refine length_le_count (hnodup.erase _) fun k hk => ?_
    obtain ⟨hne, hmem⟩ := (List.Nodup.mem_erase_iff hnodup).1 hk
    obtain ⟨row, hrow, hp⟩ := mem_select_key.1 hmem
    obtain ⟨hpr, hrun, hsent⟩ := mem_handed.1 hp
    have hid : row.id = k := find_key hrow
    refine ⟨row, hrow, mem_handed.2 ⟨hpr, hrun, ?_⟩⟩
    obtain heq | hsent := mem_cons.1 hsent
    · exact absurd (hid.symm.trans heq) hne
    · exact hsent
  have hlen : st'.handed p = ks.length := by simp only [handed, Table.count, ks, length_map]
  rw [length_erase] at hle
  change st'.handed p ≤ _
  split at hle <;> omega

end SchedState

/-! ## Ghost values -/

/-- What a thread has dequeued and knows. -/
structure Tally where
  /-- Jobs of the lane that it dequeued and has not decided, in the order it decides them. -/
  undecided : List Job
  others : List JobId
  /-- Jobs it knows to have been sent. -/
  known : List JobId
  /-- Its count of the lane's running jobs, lowered for each job it gave back. -/
  count : Option Int

namespace Tally

/-- A thread that has dequeued nothing. -/
def empty : Tally := ⟨[], [], [], none⟩

def stake (g : Tally) : Stake := ⟨g.undecided.length, g.count⟩

/-- The thread dequeues jobs. -/
def take (lane : Lane) (ns : Option String) (g : Tally) (jobs : List Job) : Tally :=
  { g with
    undecided := g.undecided ++ jobs.filter (lane.counts ns)
    others := g.others ++ (jobs.filter fun job => !lane.counts ns job).map Job.id }

/-- The thread puts a job back in its queue, or dead-letters it. -/
def giveBack (g : Tally) (id : JobId) : Tally :=
  if id ∈ g.undecided.map Job.id then
    { g with
      undecided := g.undecided.filter fun job => job.id ≠ id
      count := g.count.map (· - 1) }
  else g

def ahead (g : Tally) (id : JobId) : List Job := g.undecided.takeWhile fun job => job.id ≠ id

def send (g : Tally) (id : JobId) : Tally :=
  if id ∈ g.undecided.map Job.id then
    { g with
      undecided := (g.undecided.dropWhile fun job => job.id ≠ id).tail
      count := g.count.map (· - (g.ahead id).length) }
  else g

section

variable {g : Tally} {pre post : List Job} {job : Job}

section

variable (hsplit : g.undecided = pre ++ job :: post)
include hsplit

/-- In a list of different jobs, the jobs before one of them have other ids. -/
theorem ne_of_nodup (hnodup : (g.undecided.map Job.id).Nodup) :
    (∀ j ∈ pre, j.id ≠ job.id) ∧ ∀ j ∈ post, j.id ≠ job.id := by
  rw [hsplit, map_append, map_cons, nodup_append, nodup_cons] at hnodup
  refine ⟨fun j hj heq => ?_, fun j hj heq => ?_⟩
  · exact hnodup.2.2 j.id (mem_map_of_mem hj) job.id mem_cons_self heq
  · exact hnodup.2.1.1 (heq ▸ mem_map_of_mem hj)

theorem mem_of_split : job.id ∈ g.undecided.map Job.id := by
  rw [hsplit]
  simp

section

variable (hnodup : (g.undecided.map Job.id).Nodup)
include hnodup

theorem giveBack_split :
    g.giveBack job.id = { g with undecided := pre ++ post, count := g.count.map (· - 1) } := by
  obtain ⟨hpre, hpost⟩ := ne_of_nodup hsplit hnodup
  rw [giveBack, if_pos (mem_of_split hsplit), hsplit, filter_append, filter_cons,
    if_neg (by simp), filter_eq_self.2 fun j hj => decide_eq_true (hpre j hj),
    filter_eq_self.2 fun j hj => decide_eq_true (hpost j hj)]

theorem ahead_split : g.ahead job.id = pre := by
  obtain ⟨hpre, -⟩ := ne_of_nodup hsplit hnodup
  rw [ahead, hsplit, takeWhile_append_of_pos fun j hj => decide_eq_true (hpre j hj)]
  simp

theorem send_split :
    g.send job.id = { g with undecided := post, count := g.count.map (· - pre.length) } := by
  obtain ⟨hpre, -⟩ := ne_of_nodup hsplit hnodup
  rw [send, if_pos (mem_of_split hsplit), ahead_split hsplit hnodup, hsplit,
    dropWhile_append_of_pos fun j hj => decide_eq_true (hpre j hj)]
  simp

end

end

end

/-- The first tally has no more jobs, knowledge and room than the second. -/
structure Le (cap : Int) (g' g : Tally) : Prop where
  undecided : g'.undecided.Sublist g.undecided
  others : g'.others ⊆ g.others
  known : g'.known ⊆ g.known
  room : g'.stake.room cap ≤ g.stake.room cap

theorem empty_le (cap : Int) (g : Tally) : empty.Le cap g :=
  ⟨nil_sublist _, by simp [empty], by simp [empty], zero_le _⟩

theorem giveBack_le (cap : Int) {g : Tally} (hnodup : (g.undecided.map Job.id).Nodup)
    (id : JobId) : (g.giveBack id).Le cap g := by
  by_cases hid : id ∈ g.undecided.map Job.id
  · obtain ⟨job, hjob, rfl⟩ := mem_map.1 hid
    obtain ⟨pre, post, hsplit⟩ := append_of_mem hjob
    rw [giveBack_split hsplit hnodup]
    refine ⟨?_, fun _ h => h, fun _ h => h, ?_⟩
    · rw [hsplit]
      exact (List.Sublist.refl pre).append (sublist_cons_self job post)
    · have hlen : g.stake = ⟨(pre ++ post).length + 1, g.count⟩ := by
        simp only [stake, hsplit, length_append, length_cons, add_assoc]
      rw [hlen]
      exact Stake.room_giveBack cap _ g.count
  · rw [giveBack, if_neg hid]
    exact ⟨List.Sublist.refl _, fun _ h => h, fun _ h => h, le_refl _⟩

end Tally

/-! ## The invariant -/

/-- What a transaction does to rows: outside `touched`, running rows stay, and a live row that is
not new was live before as the same run, pending or with the same status. -/
structure Spares (touched new : List JobId) (db db' : Db) : Prop where
  running : ∀ {k row}, k ∉ touched → db.jobs.find k = some row → row.status = .running →
    db'.jobs.find k = some row
  origin : ∀ {k row'}, k ∉ touched → db'.jobs.find k = some row' → k ∈ new ∨
    ∃ row, db.jobs.find k = some row ∧ row'.SameRun row ∧
      (row'.status = row.status ∨ row.status = .pending)

theorem Shift.spares {touched new : List JobId} {db db' : Db} (h : Shift touched new db db') :
    Spares touched new db db' := ⟨h.running, h.origin⟩

theorem Claims.spares {ids : List JobId} {previous : Option String} {worker : String}
    {db db' : Db} (h : Claims ids previous worker db db') : Spares [] [] db db' := by
  have hj : db'.jobs = db.jobs := by rw [h.rest]
  refine ⟨fun _ hrow _ => by rwa [hj],
    fun {k row'} _ hrow => Or.inr ⟨row', ?_, .refl _, Or.inl rfl⟩⟩
  rwa [hj] at hrow

section

variable {σ τ : Type} {lane : Lane} {ns : Option String} {cap : Int}
variable {t : τ} {job : Job}

/-- Undecided jobs and sent jobs of the lane are different running jobs, and the budget is
kept. -/
structure Capped (lane : Lane) (ns : Option String) (cap : Int) (st : SchedState σ)
    (G : τ → Tally) : Prop where
  undecided : ∀ t, ∀ job ∈ (G t).undecided, job.id ∉ st.sentIds ∧
    ∃ row, st.db.jobs.find job.id = some row ∧ row.status = .running ∧ lane.counts ns row = true
  once : ∀ t u, ∀ job ∈ (G t).undecided, ∀ job' ∈ (G u).undecided, job.id = job'.id → t = u
  nodup : ∀ t, ((G t).undecided.map Job.id).Nodup
  others : ∀ t, ∀ id ∈ (G t).others, st.db.Has id ∧
    ∀ row, st.db.jobs.find id = some row → lane.counts ns row = false
  known : ∀ t, (G t).known ⊆ st.sentIds
  sent : ∀ id ∈ st.sentIds, ∀ row, st.db.jobs.find id = some row → lane.counts ns row = true →
    row.status = .running
  within : Within cap (st.handed (lane.counts ns)) fun t => (G t).stake

namespace Capped

variable {st : SchedState σ} {G : τ → Tally}

theorem init (lane : Lane) (ns : Option String) (cap : Int) (db : Db) :
    Capped lane ns cap (SchedState.init db : SchedState σ) fun _ : τ => Tally.empty where
  undecided _ _ h := by cases h
  once _ _ _ h := by cases h
  nodup _ := nodup_nil
  others _ _ h := by cases h
  known _ := nil_subset _
  sent _ h := by cases h
  within := by
    have hzero : (SchedState.init db : SchedState σ).handed (lane.counts ns) = 0 := by
      refine count_eq_zero.2 fun row _ => decide_eq_false ?_
      rintro ⟨-, -, hsent⟩
      cases hsent
    rw [hzero]
    exact Within.init cap

theorem not_others (h : Capped lane ns cap st G) {u : τ} (hjob : job ∈ (G t).undecided) :
    job.id ∉ (G u).others := by
  intro hmem
  obtain ⟨-, row, hrow, -, hcounts⟩ := h.undecided t job hjob
  have hnot := (h.others u _ hmem).2 row hrow
  rw [hcounts] at hnot
  cases hnot

/-- **Transactions.** Undecided jobs are not touched, and a touched row stays in its lane and is not
one of a sent job that the lane counts. -/
theorem spares (h : Capped lane ns cap st G) {touched new : List JobId} {db' : Db}
    (hs : Spares touched new st.db db') (hhas : ∀ {k}, st.db.Has k → db'.Has k)
    (hnew : ∀ k ∈ new, k ∉ st.sentIds ∧ ¬ st.db.Has k)
    (hfree : ∀ t, ∀ job ∈ (G t).undecided, job.id ∉ touched)
    (htouched : ∀ k ∈ touched, ∀ row', db'.jobs.find k = some row' →
      (∃ row, st.db.jobs.find k = some row ∧ lane.counts ns row' = lane.counts ns row) ∧
        (k ∈ st.sentIds → lane.counts ns row' = false)) :
    Capped lane ns cap { st with db := db' } G := by
  -- a sent job that the lane counts was one before
  have hsent : ∀ k row', db'.jobs.find k = some row' → k ∈ st.sentIds →
      lane.counts ns row' = true → row'.status = .running ∧ ∃ row, st.db.jobs.find k = some row ∧
        lane.counts ns row = true ∧ row.status = .running := by
    intro k row' hrow' hsent hcounts
    by_cases ht : k ∈ touched
    · grind
    · have := hs.origin ht hrow'
      grind [Capped, Lane.counts_congr]
  refine { h with
    undecided := ?_
    others := ?_
    sent := ?_
    within := h.within.mono (handed_le ?_) }
  · intro t job hjob
    obtain ⟨hsent, row, hrow, hrun, hcounts⟩ := h.undecided t job hjob
    exact ⟨hsent, row, hs.running (hfree t job hjob) hrow hrun, hrun, hcounts⟩
  · intro t id hid
    refine ⟨hhas (h.others t id hid).1, fun row' hrow' => ?_⟩
    by_cases ht : id ∈ touched
    · grind [Capped]
    · have := hs.origin ht hrow'
      grind [Capped, Lane.counts_congr]
  · exact fun id hid row' hrow' hcounts => (hsent id row' hrow' hid hcounts).1
  · intro k row' hrow' hcounts _ hmem
    obtain ⟨-, row, hrow, hold, hrun⟩ := hsent k row' hrow' hmem hcounts
    exact ⟨row, hrow, hold, hrun, hmem⟩

variable [DecidableEq τ]

theorem stake_update (G : τ → Tally) (t : τ) (g : Tally) :
    (fun u => (update G t g u).stake) = update (fun u => (G u).stake) t g.stake := by
  funext u
  by_cases hu : u = t
  · subst hu
    simp
  · simp [update_of_ne hu]

section

variable (h : Capped lane ns cap st G)
include h

theorem weaken {g : Tally} (hle : g.Le cap (G t)) : Capped lane ns cap st (update G t g) := by
  have hsub : ∀ u, (update G t g u).undecided.Sublist (G u).undecided := by
    grind [update_apply, Tally.Le]
  refine ⟨fun u job hjob => h.undecided u job ((hsub u).subset hjob), ?_,
    fun u => (h.nodup u).sublist ((hsub u).map Job.id), ?_, ?_, h.sent, ?_⟩
  · exact fun u v job hjob job' hjob' =>
      h.once u v job ((hsub u).subset hjob) job' ((hsub v).subset hjob')
  · grind [Capped, update_apply, Tally.Le]
  · grind [Capped, update_apply, Tally.Le]
  · rw [stake_update]
    exact h.within.update t (Nat.add_le_add_left hle.room _)

/-- **Dequeuing** jobs before anything is counted. The jobs are running, nobody has them, and none
that the lane counts was sent. -/
theorem acquire {jobs : List Job} (hcount : (G t).count = none) (hnodup : (jobs.map Job.id).Nodup)
    (hrow : ∀ job ∈ jobs, st.db.jobs.find job.id = some job ∧ job.status = .running)
    (hsent : ∀ job ∈ jobs, lane.counts ns job = true → job.id ∉ st.sentIds)
    (hfree : ∀ job ∈ jobs, ∀ u, ∀ job' ∈ (G u).undecided, job'.id ≠ job.id) :
    Capped lane ns cap st (update G t ((G t).take lane ns jobs)) := by
  -- an undecided job afterwards is an earlier one, or a new one of this thread
  have hcases : ∀ u, ∀ job ∈ (update G t ((G t).take lane ns jobs) u).undecided,
      job ∈ (G u).undecided ∨ u = t ∧ job ∈ jobs ∧ lane.counts ns job = true := by
    grind [update_apply, Tally.take]
  refine { h with
    undecided := by grind [Capped]
    once := by grind [Capped]
    nodup := fun u => ?_
    others := by grind [Capped, update_apply, Tally.take, Db.Has]
    known := by grind [Capped, update_apply, Tally.take]
    within := ?_ }
  · by_cases hu : u = t
    · subst hu
      rw [update_self]
      simp only [Tally.take, map_append]
      refine nodup_append.2 ⟨h.nodup u, hnodup.sublist (filter_sublist.map _), ?_⟩
      rintro _ hid _ hid' rfl
      obtain ⟨job, hjob, hid⟩ := mem_map.1 hid
      obtain ⟨job', hjob', rfl⟩ := mem_map.1 hid'
      exact hfree job' (mem_filter.1 hjob').1 u job hjob hid
    · rw [update_of_ne hu]
      exact h.nodup u
  · rw [stake_update]
    refine h.within.update t (Nat.add_le_add_left ?_ _)
    -- there is no room before the count
    have hroom : ((G t).take lane ns jobs).stake.room cap = 0 := by
      simp only [Tally.stake, Tally.take, hcount, Stake.room_none]
    rw [hroom]
    exact zero_le _

/-- **Counting.** The number covers every running job that the lane counts. -/
theorem load {n : Nat}
    (hn : st.db.jobs.count (fun row => lane.counts ns row ∧ row.status = .running) ≤ n) :
    Capped lane ns cap st (update G t { G t with count := some n }) := by
  refine { h with
    undecided := by grind [Capped, update_apply]
    once := by grind [Capped, update_apply]
    nodup := by grind [Capped, update_apply]
    others := by grind [Capped, update_apply]
    known := by grind [Capped, update_apply]
    within := ?_ }
  rw [stake_update]
  refine h.within.load fun F => ?_
  -- jobs that were sent and jobs that are undecided are different running jobs
  let handed := (st.db.jobs.select fun row => lane.counts ns row ∧ row.status = .running ∧
    row.id ∈ st.sentIds).map jobsSchema.key
  let undecided := F.toList.flatMap fun u => (G u).undecided.map Job.id
  have hnodup : (handed ++ undecided).Nodup := by
    refine nodup_append.2 ⟨nodup_select_key _ _, ?_, ?_⟩
    · refine nodup_flatMap.2 ⟨fun u _ => h.nodup u, ?_⟩
      refine F.nodup_toList.imp fun {u v} hne => ?_
      intro id hid hid'
      obtain ⟨job, hjob, rfl⟩ := mem_map.1 hid
      obtain ⟨job', hjob', heq⟩ := mem_map.1 hid'
      exact hne (h.once u v job hjob job' hjob' heq.symm)
    · rintro id hid _ hid' rfl
      obtain ⟨row, hrow, hp⟩ := mem_select_key.1 hid
      obtain ⟨-, -, hsent⟩ := mem_handed.1 hp
      have hrid : row.id = id := find_key hrow
      obtain ⟨u, -, hu⟩ := mem_flatMap.1 hid'
      obtain ⟨job, hjob, rfl⟩ := mem_map.1 hu
      exact (h.undecided u job hjob).1 (hrid ▸ hsent)
  have hle : (handed ++ undecided).length ≤ n := by
    refine le_trans (length_le_count hnodup fun id hid => ?_) hn
    obtain hid | hid := mem_append.1 hid
    · obtain ⟨row, hrow, hp⟩ := mem_select_key.1 hid
      obtain ⟨hcounts, hrun, -⟩ := mem_handed.1 hp
      exact ⟨row, hrow, decide_eq_true ⟨hcounts, hrun⟩⟩
    · obtain ⟨u, -, hu⟩ := mem_flatMap.1 hid
      obtain ⟨job, hjob, rfl⟩ := mem_map.1 hu
      obtain ⟨-, row, hrow, hrun, hcounts⟩ := h.undecided u job hjob
      exact ⟨row, hrow, decide_eq_true ⟨hcounts, hrun⟩⟩
  have hlen : (handed ++ undecided).length =
      st.handed (lane.counts ns) + ∑ u ∈ F, (G u).stake.undecided := by
    rw [length_append, length_map, length_flatMap]
    simp only [length_map, Finset.sum_map_toList]
    rfl
  rw [hlen] at hle
  exact_mod_cast hle

theorem know {ids : List JobId} (hids : ids ⊆ st.sentIds) :
    Capped lane ns cap st (update G t { G t with known := ids }) := by
  refine { h with
    undecided := by grind [Capped, update_apply]
    once := by grind [Capped, update_apply]
    nodup := by grind [Capped, update_apply]
    others := by grind [Capped, update_apply]
    known := by grind [Capped, update_apply]
    within := ?_ }
  rw [stake_update]
  exact h.within.update t le_rfl

end

omit [DecidableEq τ] in
/-- Sent jobs that the lane counts are still running when one more is sent. -/
theorem sent_cons (h : Capped lane ns cap st G)
    (hrow : ∀ row, st.db.jobs.find job.id = some row → lane.counts ns row = true →
      row.status = .running)
    (s : σ) :
    ∀ id ∈ SchedState.sentIds { st with sent := (s, job) :: st.sent }, ∀ row,
      st.db.jobs.find id = some row → lane.counts ns row = true → row.status = .running := by
  intro id hid row hfind hcounts
  obtain rfl | hid := mem_cons.1 hid
  · exact hrow row hfind hcounts
  · exact h.sent id hid row hfind hcounts

omit [DecidableEq τ] in
/-- **Sending** a job of another lane. -/
theorem send_other (h : Capped lane ns cap st G) (hjob : job.id ∈ (G t).others) (s : σ) :
    Capped lane ns cap { st with sent := (s, job) :: st.sent } G := by
  have hnot := (h.others t _ hjob).2
  refine ⟨fun u j hj => ?_, h.once, h.nodup, h.others,
    fun u => List.Subset.trans (h.known u) (subset_cons_self _ _),
    h.sent_cons (fun row hrow hcounts => ?_) s, ?_⟩
  · refine ⟨fun hmem => ?_, (h.undecided u j hj).2⟩
    obtain heq | hmem := mem_cons.1 hmem
    · have hid : j.id = job.id := heq
      exact h.not_others hj (hid ▸ hjob)
    · exact (h.undecided u j hj).1 hmem
  · rw [hnot row hrow] at hcounts
    cases hcounts
  · refine h.within.mono (handed_le fun {k row} hrow hcounts hrun hmem => ?_)
    obtain rfl | hmem := mem_cons.1 hmem
    · rw [hnot row hrow] at hcounts
      cases hcounts
    · exact ⟨row, hrow, hcounts, hrun, hmem⟩

/-- **Sending** an undecided job, when the count allows it. -/
theorem send (h : Capped lane ns cap st G) {c : Int} (hjob : job ∈ (G t).undecided)
    (hcount : (G t).count = some c) (hle : c - ((G t).ahead job.id).length ≤ cap) (s : σ) :
    Capped lane ns cap { st with sent := (s, job) :: st.sent }
      (update G t ((G t).send job.id)) := by
  obtain ⟨pre, post, hsplit⟩ := append_of_mem hjob
  obtain ⟨hpre, hpost⟩ := Tally.ne_of_nodup hsplit (h.nodup t)
  rw [Tally.ahead_split hsplit (h.nodup t)] at hle
  rw [Tally.send_split hsplit (h.nodup t)]
  let g : Tally :=
    { G t with undecided := post, count := (G t).count.map fun x => x - (pre.length : Int) }
  -- what is left of the thread's list comes after the job
  have hsub : ∀ u, (update G t g u).undecided.Sublist (G u).undecided := by
    intro u
    by_cases hu : u = t
    · subst hu
      rw [update_self, hsplit]
      exact (sublist_cons_self job post).trans (sublist_append_right pre _)
    · rw [update_of_ne hu]
  have hsub' := fun u => (hsub u).subset
  have hne : ∀ u, ∀ j ∈ (update G t g u).undecided, j.id ≠ job.id := by grind [Capped, update_apply]
  refine ⟨by grind [Capped, sentIds], by grind [Capped],
    fun u => (h.nodup u).sublist ((hsub u).map Job.id), by grind [Capped, update_apply],
    by grind [Capped, update_apply, sentIds],
    h.sent_cons (by grind [Capped]) s, ?_⟩
  · rw [stake_update]
    refine h.within.update t ?_
    have hold : (G t).stake = ⟨pre.length + 1 + post.length, some c⟩ := by
      simp only [Tally.stake, hsplit, hcount, length_append, length_cons,
        Stake.mk.injEq, and_true]
      omega
    have hnew : g.stake = ⟨post.length, some (c - pre.length)⟩ := by
      simp only [Tally.stake, g, hcount, Option.map_some]
    have hroom := Stake.room_admit hle post.length
    have hhanded := st.handed_send s job (lane.counts ns)
    change _ + g.stake.room cap ≤ _ + (G t).stake.room cap
    rw [hold, hnew]
    omega

end Capped

end

end Flexiq
