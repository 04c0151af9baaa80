import Flexiq.RoundFrame

/-!
# Which job a dequeue finds

A pending job is **eligible** when it is due, has not expired and waits for no dependency. A
dequeue walks the due jobs best first, archives the expired ones it meets, skips those that wait
and claims the first that is eligible. So what it claims is the best eligible job, and besides
that it only archives expired jobs.

The walk covers the first 100 due jobs only. If those are all expired or waiting, the dequeue
answers that there is nothing to do, whatever stands behind them: `dequeue_complete_iff` says that
this is the one way in which it misses an eligible job.
-/

namespace Flexiq

open List Table Bool

/-! ## Eligible jobs -/

/-- The job waits in the queue and its time has come. -/
abbrev Job.Due (queue : String) (ns : Option String) (now : Int) (job : Job) : Prop :=
  job.queue = queue ∧ job.status = .pending ∧ job.scheduledAt ≤ now ∧ job.namespace_ = ns

/-- A dequeue may hand the job out: it is due, not expired, and every dependency it has is
complete. A dependency whose row is gone does not hold it back. -/
structure Eligible (queue : String) (ns : Option String) (now : Int) (db : Db) (job : Job) :
    Prop where
  stored : db.jobs.find job.id = some job
  due : job.Due queue ns now
  unexpired : isExpired now job = false
  ready : ¬ db.Waits job.id

variable {db db' : Db}

/-- A job with nothing to wait for passes the dependency check. -/
theorem satisfied_of_not_waits {j : JobId} (h : ¬ db.Waits j) : depsSatisfied db j = true := by
  have hdep : ∀ d ∈ dependencyIds db j, ¬ db.Blocks d := by
    intro _ hd hb
    obtain ⟨e, he, rfl⟩ := mem_map.1 hd
    obtain ⟨hmem, hid⟩ := mem_filter.1 he
    exact h ⟨e, hmem, of_decide_eq_true hid, hb⟩
  simp only [depsSatisfied, or_eq_true, beq_iff_eq, Nat.add_eq_zero_iff, count_eq_zero,
    decide_eq_false_iff_not]
  refine .inr ⟨fun row hrow hblock => ?_, fun row hrow hblock => ?_⟩
  · refine hdep row.id hblock.1 (.inl ?_)
    exact Option.isSome_iff_exists.2 ⟨row, find_of_mem hrow⟩
  · exact hdep row.id hblock.1 (.inr ⟨row, find_of_mem hrow, hblock.2⟩)

/-! ## One candidate -/

/-- The candidate would be claimed. -/
def Ready (now : Int) (db : Db) (c : Job) : Prop := isExpired now c = false ∧ ¬ db.Waits c.id

theorem Still.ready (h : Still db db') (now : Int) (c : Job) :
    Ready now db' c ↔ Ready now db c := by
  rw [Ready, Ready, h.waits]

/-- What a dequeue does to one job besides claiming it: nothing, or archive it as expired. -/
def Expires (now : Int) (db db' : Db) (k : JobId) : Prop :=
  (db'.jobs.find k = db.jobs.find k ∧ db'.archivedJobs.find k = db.archivedJobs.find k) ∨
  ∃ row, db.jobs.find k = some row ∧ row.status = .pending ∧ isExpired now row = true ∧
    db'.jobs.find k = none ∧
    db'.archivedJobs.find k = some (row.expiredBeforeExecution now).toArchived

theorem Expires.trans {now : Int} {mid : Db} {k : JobId} (h : Expires now db mid k)
    (h' : Expires now mid db' k) : Expires now db db' k := by
  obtain ⟨hj, ha⟩ | ⟨row, hrow, hpend, hexp, hj, ha⟩ := h
  · obtain ⟨hj', ha'⟩ | ⟨row, hrow, hpend, hexp, hj', ha'⟩ := h'
    · exact .inl ⟨hj'.trans hj, ha'.trans ha⟩
    · exact .inr ⟨row, hj ▸ hrow, hpend, hexp, hj', ha'⟩
  · obtain ⟨hj', ha'⟩ | ⟨_, hrow', -⟩ := h'
    · exact .inr ⟨row, hrow, hpend, hexp, hj'.trans hj, ha'.trans ha⟩
    · rw [hj] at hrow'
      cases hrow'

section OneCandidate

variable {now : Int} {full : Job} {db : Db}

theorem claimCandidate_expired (hp : Partition db) (hfull : db.jobs.find full.id = some full)
    (hexp : isExpired now full = true) :
    ∃ db', claimCandidate now full.narrow db = .ok (none, db') ∧
      archiveJobRow (full.expiredBeforeExecution now) db = .ok db' := by
  obtain ⟨db', ha⟩ := hp.archiveJobRow_ok (full.expiredBeforeExecution now) hfull
  refine ⟨db', ?_, ha⟩
  rw [claimCandidate, if_pos (show isExpired now full.narrow = true from hexp),
    show full.narrow.id = full.id from rfl, hfull]
  dsimp only
  rw [show archiveJobRow { full with
      status := .cancelled
      completedAt := some now
      error := some "expired before execution" } db = .ok db' from ha]
  rfl

theorem claimCandidate_waiting (hp : Partition db) (hf : db.Flagged)
    (hfull : db.jobs.find full.id = some full) (hexp : ¬ isExpired now full = true)
    (hwaits : db.Waits full.id) : claimCandidate now full.narrow db = .ok (none, db) := by
  have hflag : full.hasDeps = true := by
    obtain ⟨e, he, hid, -⟩ := hwaits
    exact hf e he full (hid ▸ hfull)
  have hunsat : depsSatisfied db full.id = false := by
    by_contra hsat
    exact not_waits_of_satisfied hp (by simpa using hsat) hwaits
  have hskip : (full.narrow.hasDeps && !depsSatisfied db full.narrow.id) = true := by
    simp only [Job.narrow, hflag, hunsat, Bool.not_false, Bool.and_self]
  rw [claimCandidate, if_neg (show ¬ isExpired now full.narrow = true from hexp), if_pos hskip]

theorem claimCandidate_claims (hfull : db.jobs.find full.id = some full)
    (hpend : full.status = .pending) (hexp : ¬ isExpired now full = true)
    (hwaits : ¬ db.Waits full.id) :
    claimCandidate now full.narrow db =
      .ok (some (full.started now), claimPending full.id now db) := by
  have hsat := satisfied_of_not_waits hwaits
  have hpass : ¬ (full.narrow.hasDeps && !depsSatisfied db full.narrow.id) = true := by
    simp only [Job.narrow, hsat, Bool.not_true, Bool.and_false, Bool.false_eq_true,
      not_false_eq_true]
  have hcount : ¬ db.jobs.count (fun j => j.id = full.narrow.id ∧ j.status = .pending) = 0 := by
    intro hzero
    have hrow := count_eq_zero.1 hzero full (mem_of_find hfull)
    simp [Job.narrow, hpend] at hrow
  rw [claimCandidate, if_neg (show ¬ isExpired now full.narrow = true from hexp), if_neg hpass,
    if_neg hcount, show full.narrow.id = full.id from rfl]
  dsimp only
  rw [find_claimPending now hfull hpend, if_pos rfl]

end OneCandidate

variable {now : Int} {db db' : Db} {queue : String} {ns : Option String} {c a b : Job}
  {r : Option Job}

theorem expires_of_archive {full : Job} (hfull : db.jobs.find full.id = some full)
    (hpend : full.status = .pending) (hexp : isExpired now full = true)
    (ha : archiveJobRow (full.expiredBeforeExecution now) db = .ok db') (k : JobId) :
    Expires now db db' k := by
  have hjobs := find_jobs_archive ha k
  have harch := find_archived_archive ha k
  rw [show (full.expiredBeforeExecution now).id = full.id from rfl] at hjobs harch
  by_cases hk : k = full.id
  · rw [if_pos hk] at hjobs harch
    exact .inr ⟨full, hk ▸ hfull, hpend, hexp, hjobs, harch⟩
  · rw [if_neg hk] at hjobs harch
    exact .inl ⟨hjobs, harch⟩

/-- What the loop does with one candidate, by whether it is ready. -/
theorem claimCandidate_ready (hp : Partition db) (hf : db.Flagged) (hc : Candidate queue ns db c)
    (h : claimCandidate now c db = .ok (r, db')) :
    (¬ Ready now db c ∧ r = none ∧ Still db db' ∧ ∀ k, Expires now db db' k) ∨
    (Ready now db c ∧ ∃ full, db.jobs.find full.id = some full ∧ full.narrow = c ∧
      r = some (full.started now) ∧ db' = claimPending full.id now db) := by
  obtain ⟨full, hfull, rfl⟩ := hc.scanned
  have hfull : db.jobs.find full.id = some full := hfull
  by_cases hexp : isExpired now full = true
  · obtain ⟨_, hbody, ha⟩ := claimCandidate_expired hp hfull hexp
    rw [hbody] at h
    cases h
    have hmove : (Effect.archive full (full.expiredBeforeExecution now)).Holds db db' :=
      ⟨hfull, rfl, ha⟩
    refine .inl ⟨fun hr => ?_, rfl, .of_archive ?_ hmove,
      expires_of_archive hfull hc.pending hexp ha⟩
    · rw [show isExpired now full = false from hr.1] at hexp
      cases hexp
    · simp [Job.expiredBeforeExecution, Job.finished]
  · by_cases hwaits : db.Waits full.id
    · rw [claimCandidate_waiting hp hf hfull hexp hwaits] at h
      cases h
      exact .inl ⟨fun hr => hr.2 hwaits, rfl, .refl _, fun k => .inl ⟨rfl, rfl⟩⟩
    · rw [claimCandidate_claims hfull hc.pending hexp hwaits] at h
      cases h
      exact .inr ⟨⟨eq_false_of_not_eq_true hexp, hwaits⟩, full, hfull, rfl, rfl, rfl⟩

/-! ## The walk -/

/-- What the walk over the candidates finds: nothing, if no candidate is ready, and otherwise the
first that is. -/
theorem claimFirst_finds {cs : List Job} (hp : Partition db) (hf : db.Flagged)
    (hcs : ∀ c ∈ cs, Candidate queue ns db c) (hnd : (cs.map Job.id).Nodup)
    (h : claimFirst now cs db = .ok (r, db')) :
    (r = none ∧ (∀ c ∈ cs, ¬ Ready now db c) ∧ ∀ k, Expires now db db' k) ∨
    ∃ pre post full mid, cs = pre ++ full.narrow :: post ∧ (∀ c ∈ pre, ¬ Ready now db c) ∧
      Ready now db full ∧ db.jobs.find full.id = some full ∧ r = some (full.started now) ∧
      (∀ k, Expires now db mid k) ∧ mid.jobs.find full.id = some full ∧
      db' = claimPending full.id now mid := by
  induction cs generalizing db with
  | nil =>
    cases h
    exact .inl ⟨rfl, by simp, fun k => .inl ⟨rfl, rfl⟩⟩
  | cons c rest ih =>
    obtain ⟨⟨_, db₁⟩, h₁, h⟩ := bind_eq_ok.1 h
    have hc := hcs c (by simp)
    rw [map_cons, nodup_cons] at hnd
    obtain ⟨hunready, rfl, hstill, hexp⟩ | ⟨hready, full, hfull, rfl, rfl, rfl⟩ :=
      claimCandidate_ready hp hf hc h₁
    · have hp₁ : Partition db₁ := by
        obtain ⟨_, _, h₂, hp₂⟩ := hp.claimCandidate_ok now hc
        rw [h₁] at h₂
        cases h₂
        exact hp₂
      have hrest : ∀ c' ∈ rest, Candidate queue ns db₁ c' := by
        intro c' hc'
        have hne : c'.id ≠ c.id := fun e => hnd.1 (e ▸ mem_map_of_mem hc')
        exact hc.of_pass (hcs c' (by simp [hc'])) hne h₁
      obtain ⟨rfl, hnone, hexp'⟩ |
        ⟨pre, post, full, mid, rfl, hpre, hready, hfull, rfl, hexp', hmid, rfl⟩ :=
        ih hp₁ (hstill.flagged hf) hrest hnd.2 h
      · refine .inl ⟨rfl, fun c' hc' => ?_, fun k => (hexp k).trans (hexp' k)⟩
        obtain rfl | hc' := mem_cons.1 hc'
        · exact hunready
        · exact fun hr => hnone c' hc' ((hstill.ready now c').2 hr)
      · refine .inr ⟨c :: pre, post, full, mid, rfl, fun c' hc' => ?_,
          (hstill.ready now full).1 hready, ?_, rfl, fun k => (hexp k).trans (hexp' k), hmid, rfl⟩
        · obtain rfl | hc' := mem_cons.1 hc'
          · exact hunready
          · exact fun hr => hpre c' hc' ((hstill.ready now c').2 hr)
        · have hne : full.id ≠ c.id := fun e => hnd.1 (by simp [← e, Job.narrow])
          rw [← claimCandidate_find_ne hc.scanned hc.pending h₁ hne]
          exact hfull
    · cases h
      exact .inr ⟨[], rest, full, db, rfl, by simp, hready, hfull, rfl,
        fun k => .inl ⟨rfl, rfl⟩, hfull, rfl⟩

/-! ## The order of the due jobs -/

def dueJobs (queue : String) (ns : Option String) (now : Int) (db : Db) : List Job :=
  (db.jobs.select fun j => j.Due queue ns now).insertionSort (dispatchBefore .fifo)

theorem scan_eq_dueJobs (queue : String) (ns : Option String) (now : Int) (limit : Nat) (db : Db) :
    scanDequeueCandidates queue now ns limit .fifo db =
      ((dueJobs queue ns now db).take limit).map Job.narrow := rfl

theorem dispatchBefore_total (a b : Job) : dispatchBefore .fifo a b ∨ dispatchBefore .fifo b a := by
  unfold dispatchBefore
  dsimp only
  rcases lt_trichotomy a.priority b.priority with h | h | _ <;>
    rcases lt_trichotomy a.scheduledAt b.scheduledAt with h' | h' | _ <;>
      rcases String.le_total a.id b.id with h'' | _ <;> simp [*]

theorem dispatchBefore_trans (hab : dispatchBefore .fifo a b) (hbc : dispatchBefore .fifo b c) :
    dispatchBefore .fifo a c := by
  unfold dispatchBefore at hab hbc ⊢
  dsimp only at hab hbc ⊢
  obtain hab | ⟨hab, hab' | ⟨hab', hab''⟩⟩ := hab <;>
    obtain hbc | ⟨hbc, hbc' | ⟨hbc', hbc''⟩⟩ := hbc
  all_goals first
    | exact .inl (by omega)
    | exact .inr ⟨by omega, .inl (by omega)⟩
    | exact .inr ⟨by omega, .inr ⟨by omega, String.le_trans hab'' hbc''⟩⟩

theorem id_eq_of_dispatchBefore (hab : dispatchBefore .fifo a b) (hba : dispatchBefore .fifo b a) :
    a.id = b.id := by
  unfold dispatchBefore at hab hba
  dsimp only at hab hba
  obtain hab | ⟨hab, hab' | ⟨hab', hab''⟩⟩ := hab <;>
    obtain hba | ⟨hba, hba' | ⟨hba', hba''⟩⟩ := hba
  all_goals first
    | omega
    | exact String.le_antisymm hab'' hba''

theorem pairwise_dueJobs (queue : String) (ns : Option String) (now : Int) (db : Db) :
    (dueJobs queue ns now db).Pairwise (dispatchBefore .fifo) := by
  have : Std.Total (dispatchBefore .fifo) := ⟨dispatchBefore_total⟩
  have : IsTrans Job (dispatchBefore .fifo) := ⟨fun _ _ _ => dispatchBefore_trans⟩
  exact pairwise_insertionSort _ _

theorem mem_dueJobs {job : Job} :
    job ∈ dueJobs queue ns now db ↔ db.jobs.find job.id = some job ∧ job.Due queue ns now := by
  rw [dueJobs, mem_insertionSort, mem_select, decide_eq_true_iff]
  refine and_congr_left fun _ => ⟨find_of_mem, mem_of_find⟩

/-- The due jobs that come before a job. -/
def ahead (queue : String) (ns : Option String) (now : Int) (db : Db) (job : Job) : Nat :=
  db.jobs.count fun row => row.Due queue ns now ∧ dispatchBefore .fifo row job ∧ row.id ≠ job.id

section Ranks

variable {queue : String} {ns : Option String} {now : Int} {db : Db} {pre post : List Job}
  {job : Job}

theorem nodup_dueJobs : ((dueJobs queue ns now db).map Job.id).Nodup := by
  refine ((perm_insertionSort _ _).map _).nodup_iff.2 ?_
  exact db.jobs.nodup_key.sublist (filter_sublist.map _)

theorem ahead_eq (h : dueJobs queue ns now db = pre ++ job :: post) :
    ahead queue ns now db job = pre.length := by
  have hpair : (pre ++ job :: post).Pairwise (dispatchBefore .fifo) :=
    h ▸ pairwise_dueJobs queue ns now db
  have hnd : ((pre ++ job :: post).map Job.id).Nodup := h ▸ nodup_dueJobs
  obtain ⟨-, hlater, hearlier⟩ := pairwise_append.1 hpair
  rw [map_append, map_cons] at hnd
  obtain ⟨-, -, hdisj⟩ := nodup_append.1 hnd
  have hcount : ahead queue ns now db job =
      ((dueJobs queue ns now db).filter fun row =>
        dispatchBefore .fifo row job ∧ row.id ≠ job.id).length := by
    rw [dueJobs, ((perm_insertionSort _ _).filter _).length_eq, ahead, Table.count,
      Table.select, Table.select, filter_filter]
    refine congrArg List.length (filter_congr fun row _ => ?_)
    rw [← decide_and]
    exact decide_eq_decide.2 and_comm
  have hpre : pre.filter (fun row => dispatchBefore .fifo row job ∧ row.id ≠ job.id) = pre := by
    refine filter_eq_self.2 fun row hrow => decide_eq_true ⟨hearlier row hrow job ?_, ?_⟩
    · exact mem_cons_self
    · exact hdisj row.id (mem_map_of_mem hrow) job.id mem_cons_self
  have hpost : (job :: post).filter
      (fun row => dispatchBefore .fifo row job ∧ row.id ≠ job.id) = [] := by
    refine filter_eq_nil_iff.2 fun row hrow hahead => ?_
    obtain ⟨hbefore, hne⟩ := of_decide_eq_true hahead
    obtain rfl | hrow := mem_cons.1 hrow
    · exact hne rfl
    · exact hne (id_eq_of_dispatchBefore hbefore (rel_of_pairwise_cons hlater hrow))
  rw [hcount, h, filter_append, hpre, hpost, append_nil]

/-- A due job is among the first `limit` exactly if fewer than `limit` are ahead of it. -/
theorem mem_take_dueJobs (hjob : job ∈ dueJobs queue ns now db) (limit : Nat) :
    job ∈ (dueJobs queue ns now db).take limit ↔ ahead queue ns now db job < limit := by
  obtain ⟨pre, post, h⟩ := append_of_mem hjob
  have hnd : ((pre ++ job :: post).map Job.id).Nodup := h ▸ nodup_dueJobs
  have hnot : job ∉ pre := by
    intro hmem
    rw [map_append, map_cons] at hnd
    exact (nodup_append.1 hnd).2.2 job.id (mem_map_of_mem hmem) job.id
      mem_cons_self rfl
  rw [ahead_eq h, h]
  constructor
  · intro hmem
    by_contra hge
    rw [take_append_of_le_length (by omega)] at hmem
    exact hnot (mem_of_mem_take hmem)
  · intro _
    obtain ⟨n, rfl⟩ : ∃ n, limit = pre.length + (n + 1) := ⟨limit - pre.length - 1, by omega⟩
    simp [take_append, take_of_length_le]

end Ranks

/-! ## Completeness -/

/-- What a dequeue is for: it answers nothing only if no job is eligible, and otherwise starts the
best eligible job; any other job stays as it is or, if it has expired, is archived. -/
structure CompleteDequeue (queue : String) (ns : Option String) (now : Int) (db : Db)
    (r : Option Job) (db' : Db) : Prop where
  exhausted : r = none → ∀ job, ¬ Eligible queue ns now db job
  foremost : ∀ got ∈ r, ∃ job, Eligible queue ns now db job ∧ got = job.started now ∧
    ∀ other, Eligible queue ns now db other → other.priority ≤ job.priority ∧
      (other.priority = job.priority → job.scheduledAt ≤ other.scheduledAt)
  rest : ∀ k, (∃ got ∈ r, got.id = k ∧ db'.jobs.find k = some got ∧
      db'.archivedJobs.find k = db.archivedJobs.find k) ∨
    ((∀ got ∈ r, got.id ≠ k) ∧ Expires now db db' k)

/-- Some eligible job, if there is one at all, has fewer than 100 due jobs ahead of it. -/
def WithinScan (queue : String) (ns : Option String) (now : Int) (db : Db) : Prop :=
  (∃ job, Eligible queue ns now db job) →
    ∃ job, Eligible queue ns now db job ∧ ahead queue ns now db job < 100

section Completeness

variable {queue : String} {ns : Option String} {now : Int} {db db' : Db} {r : Option Job}

theorem eligible_iff {job : Job} :
    Eligible queue ns now db job ↔ job ∈ dueJobs queue ns now db ∧ Ready now db job := by
  rw [mem_dueJobs]
  exact ⟨fun h => ⟨⟨h.stored, h.due⟩, h.unexpired, h.ready⟩,
    fun h => ⟨h.1.1, h.1.2, h.2.1, h.2.2⟩⟩

/-- What the walk of a dequeue leads to, in terms of the sorted due jobs. -/
theorem dequeue_finds (hp : Partition db) (hf : db.Flagged)
    (h : dequeueOrdered queue now ns .fifo db = .ok (r, db')) :
    (r = none ∧ (∀ job ∈ (dueJobs queue ns now db).take 100, ¬ Ready now db job) ∧
      ∀ k, Expires now db db' k) ∨
    ∃ pre post job mid, dueJobs queue ns now db = pre ++ job :: post ∧ pre.length < 100 ∧
      (∀ c ∈ pre, ¬ Ready now db c) ∧ Ready now db job ∧ r = some (job.started now) ∧
      (∀ k, Expires now db mid k) ∧ mid.jobs.find job.id = some job ∧
      db' = claimPending job.id now mid := by
  obtain ⟨hr, hnone, hexp⟩ |
      ⟨pre, post, job, mid, hcs, hpre, hready, hfull, hr, hexp, hmid, hdb'⟩ :=
    claimFirst_finds hp hf candidate_of_scan (scanDequeueCandidates_nodup ..) h
  · refine .inl ⟨hr, fun job hjob hready => ?_, hexp⟩
    exact hnone job.narrow (mem_map_of_mem hjob) hready
  · -- the rows behind the candidates are those of the list of due jobs
    rw [scan_eq_dueJobs] at hcs
    obtain ⟨pre', _, htake, rfl, hrest⟩ := map_eq_append_iff.1 hcs
    obtain ⟨job', post', rfl, hjob', -⟩ := map_eq_cons_iff.1 hrest
    have hdue : job' ∈ dueJobs queue ns now db :=
      mem_of_mem_take (htake ▸ mem_append_right _ mem_cons_self)
    have hsame : job' = job := by
      have hid : job'.narrow.id = job.narrow.id := congrArg Job.id hjob'
      have hstored := (mem_dueJobs.1 hdue).1
      rw [show job'.id = job.id from hid, hfull] at hstored
      exact (Option.some.inj hstored).symm
    subst hsame
    refine .inr ⟨pre', post' ++ (dueJobs queue ns now db).drop 100, job', mid, ?_, ?_, ?_,
      hready, hr, hexp, hmid, hdb'⟩
    · rw [← cons_append, ← append_assoc, ← htake, take_append_drop]
    · have hlen := length_take_le 100 (dueJobs queue ns now db)
      rw [htake, length_append, length_cons] at hlen
      omega
    · exact fun c hc => hpre c.narrow (mem_map_of_mem hc)

/-- A job before another in the order is at least as good. -/
theorem better_of_dispatchBefore {job other : Job} (h : dispatchBefore .fifo job other) :
    other.priority ≤ job.priority ∧
      (other.priority = job.priority → job.scheduledAt ≤ other.scheduledAt) := by
  unfold dispatchBefore at h
  dsimp only at h
  omega

/-- Claiming a job after some passes: the job is started, and the others are as the passes left
them. -/
theorem rest_of_claim {mid : Db} {job : Job} (hexp : ∀ k, Expires now db mid k)
    (hmid : mid.jobs.find job.id = some job) (hpend : job.status = .pending) (k : JobId) :
    (∃ got ∈ some (job.started now), got.id = k ∧
        (claimPending job.id now mid).jobs.find k = some got ∧
        (claimPending job.id now mid).archivedJobs.find k = db.archivedJobs.find k) ∨
      ((∀ got ∈ some (job.started now), got.id ≠ k) ∧
        Expires now db (claimPending job.id now mid) k) := by
  have hfind := find_claimPending now hmid hpend k
  by_cases hk : k = job.id
  · subst hk
    rw [if_pos rfl] at hfind
    refine .inl ⟨_, rfl, rfl, hfind, ?_⟩
    obtain ⟨-, ha⟩ | ⟨_, -, -, -, hgone, -⟩ := hexp job.id
    · exact ha
    · rw [hmid] at hgone
      cases hgone
  · rw [if_neg hk] at hfind
    refine .inr ⟨?_, (hexp k).trans (.inl ⟨hfind, rfl⟩)⟩
    rintro _ ⟨⟩ hid
    exact hk hid.symm

theorem completeDequeue_iff (hp : Partition db) (hf : db.Flagged)
    (h : dequeueOrdered queue now ns .fifo db = .ok (r, db')) :
    CompleteDequeue queue ns now db r db' ↔ WithinScan queue ns now db := by
  obtain ⟨rfl, hnone, hexp⟩ |
      ⟨pre, post, job, mid, hsplit, hlen, hpre, hready, rfl, hexp, hmid, rfl⟩ :=
    dequeue_finds hp hf h
  · constructor
    · rintro hspec ⟨job, hjob⟩
      exact absurd hjob (hspec.exhausted rfl job)
    · intro hwithin
      refine ⟨fun _ job hjob => ?_, by simp, fun k => .inr ⟨by simp, hexp k⟩⟩
      obtain ⟨job, hjob, hahead⟩ := hwithin ⟨job, hjob⟩
      obtain ⟨hdue, hready⟩ := eligible_iff.1 hjob
      exact hnone job ((mem_take_dueJobs hdue 100).2 hahead) hready
  · have hdue : job ∈ dueJobs queue ns now db := hsplit ▸ by simp
    have hjob : Eligible queue ns now db job := eligible_iff.2 ⟨hdue, hready⟩
    refine iff_of_true ⟨(nofun), ?_, rest_of_claim hexp hmid hjob.due.2.1⟩
      fun _ => ⟨job, hjob, (ahead_eq hsplit).trans_lt hlen⟩
    rintro _ ⟨⟩
    refine ⟨job, hjob, rfl, fun other hother => better_of_dispatchBefore ?_⟩
    obtain ⟨hother, hready'⟩ := eligible_iff.1 hother
    have hpair := pairwise_dueJobs queue ns now db
    rw [hsplit] at hother hpair
    obtain hmem | hmem := mem_append.1 hother
    · exact absurd hready' (hpre other hmem)
    · obtain rfl | hmem := mem_cons.1 hmem
      · exact (dispatchBefore_total other other).elim id id
      · exact rel_of_pairwise_cons (pairwise_append.1 hpair).2.1 hmem

end Completeness

def unaryId (i : Nat) : JobId := String.ofList (List.replicate i 'a')

theorem unaryId_injective : Function.Injective unaryId := by
  intro _ _ h
  have hlen := congrArg (fun s => s.toList.length) h
  simpa [unaryId] using hlen

theorem unaryId_ne_z (i : Nat) : unaryId i ≠ "z" := by
  intro h
  have hmem : 'z' ∈ (unaryId i).toList := by
    rw [h]
    decide
  have heq := eq_of_mem_replicate (String.toList_ofList ▸ hmem)
  exact absurd heq (by decide)

/-- An urgent job that expires at time 5. -/
def expiringJob (i : Nat) : Job :=
  { NewJob.plain "q" "t" with priority := 1, expiresAt := some 5 }.intoJob (unaryId i) 0

/-- A job that does not expire. -/
def lastingJob : Job := (NewJob.plain "q" "t").intoJob "z" 0

/-- A store with `n` urgent jobs that have expired at time 10, and one that has not. -/
def expiredBacklog (n : Nat) : Db :=
  { Db.empty with
    jobs :=
      { rows := (List.range n).map expiringJob ++ [lastingJob]
        nodup_key := by
          rw [List.map_append, List.map_map, List.nodup_append]
          refine ⟨List.nodup_range.map fun i j h => unaryId_injective h, List.nodup_singleton _,
            fun a ha b hb => ?_⟩
          obtain ⟨i, -, rfl⟩ := List.mem_map.1 ha
          obtain rfl := List.mem_singleton.1 hb
          exact unaryId_ne_z i
        nodup_index := by
          have hnone : ∀ row ∈ (List.range n).map expiringJob ++ [lastingJob],
              jobsSchema.index row = none := by
            intro row hrow
            obtain hrow | hrow := List.mem_append.1 hrow
            · obtain ⟨i, -, rfl⟩ := List.mem_map.1 hrow
              rfl
            · obtain rfl := List.mem_singleton.1 hrow
              rfl
          rw [List.filterMap_eq_nil_iff.2 hnone]
          exact List.nodup_nil } }

section Backlog

variable {n : Nat}

theorem mem_backlog {row : Job} :
    row ∈ (expiredBacklog n).jobs.rows ↔ (∃ i < n, expiringJob i = row) ∨ row = lastingJob := by
  simp [expiredBacklog]

theorem partition_backlog : Partition (expiredBacklog n) where
  disjoint _ := rfl
  live {id row} h := by
    obtain ⟨_, -, rfl⟩ | rfl := mem_backlog.1 (mem_of_find h)
    · exact .inl rfl
    · exact .inl rfl
  archived h := by cases h
  steps s h := by cases h

theorem flagged_backlog : (expiredBacklog n).Flagged := nofun

theorem eligible_backlog : Eligible "q" none 10 (expiredBacklog n) lastingJob where
  stored := find_of_mem (mem_backlog.2 (.inr rfl))
  due := by decide
  unexpired := by decide
  ready := by
    rintro ⟨_, he, -⟩
    cases he

theorem eq_lastingJob_of_eligible {job : Job} (h : Eligible "q" none 10 (expiredBacklog n) job) :
    job = lastingJob := by
  obtain ⟨_, -, rfl⟩ | rfl := mem_backlog.1 (mem_of_find h.stored)
  · exact absurd h.unexpired (by simp [isExpired, expiringJob, NewJob.intoJob])
  · rfl

theorem ahead_backlog : ahead "q" none 10 (expiredBacklog n) lastingJob = n := by
  have hbefore : ∀ row ∈ (List.range n).map expiringJob, decide (row.Due "q" none 10 ∧
      dispatchBefore .fifo row lastingJob ∧ row.id ≠ lastingJob.id) = true := by
    intro _ hrow
    obtain ⟨i, -, rfl⟩ := mem_map.1 hrow
    refine decide_eq_true ⟨?_, ?_, ?_⟩
    · exact ⟨rfl, rfl, show (0 : Int) ≤ 10 by decide, rfl⟩
    · exact .inl (show (0 : Int) < 1 by decide)
    · exact unaryId_ne_z i
  rw [ahead, Table.count, Table.select]
  simp only [expiredBacklog]
  rw [filter_append, filter_eq_self.2 hbefore]
  simp

end Backlog

end Flexiq
