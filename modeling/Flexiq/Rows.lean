import Flexiq.Partition

/-!
# What transactions do to running jobs

Much of the scheduler's reasoning is about one running job: who may touch its row, which attempt
the row is at, who holds its claim. This file says once what a transaction does to the rows and
claims of jobs **outside** the ones it names (`Shift`), and what the transactions that are asked
for a particular job do to that one.

Nothing here depends on who calls: the facts are read off the effects of each transaction.
-/

namespace Flexiq

open List Option Table StoreOp

variable {e : Effect} {op : StoreOp} {k : JobId} {now : Int} {queue : String} {ns : Option String}
  {job : Job}
variable {order : DispatchOrder}

/-- The first row is the second job at the same attempt, perhaps in another status. -/
structure Job.SameRun (row' row : Job) : Prop where
  retryCount : row'.retryCount = row.retryCount
  taskName : row'.taskName = row.taskName
  queue : row'.queue = row.queue
  namespace_ : row'.namespace_ = row.namespace_

theorem Job.SameRun.refl (row : Job) : row.SameRun row := ⟨rfl, rfl, rfl, rfl⟩

theorem Job.SameRun.trans {a b c : Job} (h : a.SameRun b) (h' : b.SameRun c) : a.SameRun c :=
  ⟨h.retryCount.trans h'.retryCount, h.taskName.trans h'.taskName, h.queue.trans h'.queue,
    h.namespace_.trans h'.namespace_⟩

/-- From one state to the other, every job outside `touched` keeps its run: a running row is left
alone, a row that is live afterwards is at the attempt it was at before or belongs to one of the
`new` jobs, and no claim is written. -/
structure Shift (touched new : List JobId) (db db' : Db) : Prop where
  running : ∀ {k row}, k ∉ touched → db.jobs.find k = some row → row.status = .running →
    db'.jobs.find k = some row
  origin : ∀ {k row'}, k ∉ touched → db'.jobs.find k = some row' → k ∈ new ∨
    ∃ row, db.jobs.find k = some row ∧ row'.SameRun row ∧
      (row'.status = row.status ∨ row.status = .pending)
  owner : ∀ k, db'.owner k = none ∨ db'.owner k = db.owner k

namespace Shift

variable {touched new : List JobId} {db mid db' : Db}

theorem refl (touched new : List JobId) (db : Db) : Shift touched new db db where
  running _ h _ := h
  origin {_ row'} _ h := .inr ⟨row', h, .refl _, .inl rfl⟩
  owner _ := .inr rfl

theorem trans (h : Shift touched new db mid) (h' : Shift touched new mid db') :
    Shift touched new db db' where
  running ht hrow hs := h'.running ht (h.running ht hrow hs) hs
  origin {k row''} ht hrow := by
    obtain hnew | ⟨_, hrow', hc', hs'⟩ := h'.origin ht hrow
    · exact .inl hnew
    obtain hnew | ⟨row, hrow, hc, hs⟩ := h.origin ht hrow'
    · exact .inl hnew
    refine .inr ⟨row, hrow, hc'.trans hc, ?_⟩
    obtain hs' | hs' := hs'
    · obtain hs | hs := hs
      · exact .inl (hs'.trans hs)
      · exact .inr hs
    · obtain hs | hs := hs
      · exact .inr (hs.symm.trans hs')
      · exact .inr hs
  owner k := by
    obtain h' | h' := h'.owner k
    · exact .inl h'
    · rw [h']
      exact h.owner k

end Shift

/-! ## Effects -/

/-- The effect leaves the runs of jobs outside `touched` alone. -/
def Effect.Within (touched new : List JobId) : Effect → Prop
  | insert jobs => ∀ e ∈ jobs, e.1.id ∈ new
  | edit row row' =>
    row.id ∈ touched ∨
      row.status = .pending ∧ row'.status = .pending ∧ row'.SameRun row
  | archive row _ => row.id ∈ touched ∨ row.status = .pending
  | claim _ _ _ | purge _ => False
  | _ => True

theorem Shift.of_effect {touched new : List JobId} {db db' : Db} (he : e.Within touched new)
    (h : e.Holds db db') : Shift touched new db db' where
  running {k row} ht hrow hs := by
    have hid : row.id = k := find_key hrow
    obtain hsame | ⟨now, rfl, hpend, -⟩ | ⟨row', rfl, -⟩ | ⟨_, rfl, -⟩ := fate_of_row h hrow
    · exact hsame
    · rw [hpend] at hs
      cases hs
    all_goals grind [Effect.Within]
  origin {k row'} ht hrow' := by
    obtain hsame | ⟨_, rfl, entry, hmem, -, rfl⟩ | ⟨row, rfl, hrow, ⟨_, rfl, hpend, rfl⟩ | rfl⟩ :=
      row_of_effect h hrow'
    · exact .inr ⟨row', hsame, .refl _, .inl rfl⟩
    · exact .inl (he entry hmem)
    · exact .inr ⟨row, hrow, ⟨rfl, rfl, rfl, rfl⟩, .inr hpend⟩
    · obtain ht' | ⟨hpend, -, hrun⟩ := he
      · exact absurd ht' ht
      · exact .inr ⟨row, hrow, hrun, .inr hpend⟩
  owner k := by
    obtain hsame | ⟨hnone, -⟩ | ⟨_, _, rfl, -⟩ := owner_of_effect h k
    · exact .inr hsame
    · exact .inl hnone
    · exact he.elim

theorem Shift.exec {touched : List JobId} (db : Db)
    (hop : ∀ e, op.Effects e → e.Within touched op.newIds) :
    Shift touched op.newIds db (op.exec db).2 :=
  (exec_effects op db).invariant (P := Shift touched op.newIds db)
    (fun e _ _ he h hmid => hmid.trans (.of_effect (hop e he) h)) (.refl ..)

/-! ## Transactions that name no running job -/

/-- Transactions that leave every running job alone and write no claim. -/
def StoreOp.gentle : StoreOp → Bool
  | enqueue _ | enqueueBatch _ | enqueueDebounced _ _ _ | enqueueUnique _ | enqueueUniqueBatch _
  | activeWithKey _ | dequeue _ _ _ _ | dequeueBatch _ _ _ _ _ | dependents _
  | cascadeArchive _ _ _ _ _ | getJob _ _ | authorizeAttempt _ _ _ _ | deleteClaim _
  | purgeExecutionClaims _ | archivePending _ _ | reapStaleJobs _ _ | reapOrphanedJobs _ _
  | countRunningByTask _ _ | countRunningByQueue _ _ | recordError _ _ _ _ | recordMetric _ => true
  | _ => false

theorem StoreOp.within_of_gentle (h : op.gentle = true) (he : op.Effects e) :
    e.Within [] op.newIds := by
  -- what an enqueue inserts is a new job of the transaction
  have hins : ∀ jobs, e = .insert jobs → e.Within [] op.newIds := by
    rintro _ rfl
    exact he.insert_newIds
  cases op <;> simp only [gentle, Bool.false_eq_true] at h
  case enqueue | enqueueBatch | enqueueUnique => exact hins _ he
  case enqueueUniqueBatch =>
    obtain ⟨_, -, hd⟩ := he
    exact hins _ hd
  case enqueueDebounced =>
    obtain hd | ⟨row, _, _, hpend, rfl⟩ := he
    · exact hins _ hd
    · exact .inr ⟨hpend, hpend, ⟨rfl, rfl, rfl, rfl⟩⟩
  case dequeue | dequeueBatch =>
    obtain ⟨row, hpend, -, -, rfl | rfl⟩ := he
    · trivial
    · exact .inr hpend
  case cascadeArchive =>
    obtain ⟨row, -, hpend, rfl⟩ := he
    exact .inr hpend
  case archivePending =>
    obtain ⟨_, hpend, rfl⟩ := he
    exact .inr hpend
  case deleteClaim | purgeExecutionClaims | recordError | recordMetric =>
    rw [show e = _ from he]
    trivial
  case activeWithKey | dependents | getJob | authorizeAttempt | reapStaleJobs |
      reapOrphanedJobs | countRunningByTask | countRunningByQueue => exact he.elim

theorem Shift.gentle (h : op.gentle = true) (db : Db) : Shift [] op.newIds db (op.exec db).2 :=
  .exec db fun _ he => within_of_gentle h he

/-! ## Transactions that end a run -/

def StoreOp.ends : StoreOp → List JobId
  | complete id _ _ _ | markCancelled id _ _ => [id]
  | completeBatch cs _ _ => cs.map JobCompletion.jobId
  | deadLetter job _ _ _ _ _ _ => [job.id]
  | _ => []

/-- The transaction ends runs. -/
def StoreOp.isEnding : StoreOp → Bool
  | complete _ _ _ _ | markCancelled _ _ _ | completeBatch _ _ _ | deadLetter _ _ _ _ _ _ _ => true
  | _ => false

theorem StoreOp.within_of_isEnding (h : op.isEnding = true) (he : op.Effects e) :
    e.Within op.ends op.newIds ∧ ∀ row row', e ≠ .edit row row' := by
  cases op <;> simp only [isEnding, Bool.false_eq_true] at h
  case complete =>
    obtain ⟨row, hid, -, -, rfl⟩ := he
    exact ⟨.inl (by simp [ends, hid]), by simp⟩
  case completeBatch =>
    obtain rfl | ⟨_, hc, row, hid, -, -, rfl⟩ := he
    · exact ⟨trivial, by simp⟩
    · exact ⟨.inl (hid ▸ mem_map_of_mem hc), by simp⟩
  case markCancelled =>
    obtain ⟨row, hid, -, rfl⟩ := he
    exact ⟨.inl (by simp [ends, hid]), by simp⟩
  case deadLetter =>
    obtain rfl | ⟨_, hid, rfl⟩ := he
    · exact ⟨trivial, by simp⟩
    · exact ⟨.inl (by simp [ends, hid]), by simp⟩

theorem Shift.ending (h : op.isEnding = true) (db : Db) : Shift op.ends [] db (op.exec db).2 := by
  have hnew : op.newIds = [] := by cases op <;> first | rfl | cases h
  exact hnew ▸ .exec db fun e he => (within_of_isEnding h he).1

/-- A run that was ended leaves neither a row nor a claim; one that was not keeps its row. -/
theorem ending_gone (h : op.isEnding = true) (db : Db) (k : JobId) :
    (op.exec db).2.jobs.find k = db.jobs.find k ∨
      (op.exec db).2.jobs.find k = none ∧ (op.exec db).2.owner k = none := by
  refine (exec_effects op db).invariant (P := fun mid => mid.jobs.find k = db.jobs.find k ∨
    mid.jobs.find k = none ∧ mid.owner k = none) ?_ (.inl rfl)
  intro e _ mid' he hstep hmid
  obtain ⟨-, hedit⟩ := within_of_isEnding h he
  cases e with
  | archive =>
    rw [find_jobs_archive hstep.2.2, owner_archive hstep.2.2]
    split
    · exact .inr ⟨rfl, rfl⟩
    · exact hmid
  | edit row row' => exact absurd rfl (hedit row row')
  | deadLetter => rw [hstep.2]; exact hmid
  | diagnostics => rw [show mid' = _ from hstep]; exact hmid
  | _ => cases op <;> simp [StoreOp.Effects, isEnding] at h he

/-- The jobs whose run a transaction really ended. -/
def StoreOp.ended (op : StoreOp) (db : Db) : List JobId :=
  op.ends.filter fun k => (op.exec db).2.jobs.find k ≠ db.jobs.find k

theorem StoreOp.ended_subset (op : StoreOp) (db : Db) : op.ended db ⊆ op.ends :=
  filter_subset_self _

open StoreOp (dequeue dequeueBatch)

variable {db db' mid : Db} {row' : Job} {worker : String} {id : JobId} {max : Nat}

theorem ended_gone (h : op.isEnding = true) (hk : k ∈ op.ended db) :
    (op.exec db).2.jobs.find k = none ∧ (op.exec db).2.owner k = none := by
  obtain hsame | hgone := ending_gone h db k
  · exact absurd hsame (of_decide_eq_true (mem_filter.1 hk).2)
  · exact hgone

/-- Ending runs touches no other job. -/
theorem Shift.ended (h : op.isEnding = true) (db : Db) :
    Shift (op.ended db) [] db (op.exec db).2 := by
  have hall := Shift.ending h db
  have hsame : ∀ {k}, k ∉ op.ended db → k ∈ op.ends →
      (op.exec db).2.jobs.find k = db.jobs.find k := by
    intro k hk hmem
    by_contra hne
    exact hk (mem_filter.2 ⟨hmem, decide_eq_true hne⟩)
  refine ⟨fun {k row} hk hrow hrun => ?_, fun {k row'} hk hrow => ?_, hall.owner⟩
  · by_cases hmem : k ∈ op.ends
    · rwa [hsame hk hmem]
    · exact hall.running hmem hrow hrun
  · by_cases hmem : k ∈ op.ends
    · rw [hsame hk hmem] at hrow
      exact .inr ⟨row', hrow, .refl _, .inl rfl⟩
    · exact hall.origin hmem hrow

/-! ## Back to pending -/

theorem Shift.of_edit {row : Job} (h : (Effect.edit row row').Holds db db') :
    Shift [row.id] [] db db' :=
  .of_effect (e := .edit row row') (.inl (mem_singleton.2 rfl)) h

theorem owner_deleteClaim (id k : JobId) (db : Db) :
    (deleteClaim id db).owner k = if k = id then none else db.owner k := by
  simp only [Db.owner, deleteClaim]
  rw [find_delete]
  rcases hf : db.executionClaims.find k with _ | c
  · simp
  · have hc : c.jobId = k := find_key hf
    by_cases hk : k = id
    · simp [hc, hk]
    · simp [hc, hk]

/-- **A retry** puts the row of its job back to pending one attempt later, without a claim; one
that fails changes nothing. -/
theorem retry_shift (id : JobId) (next : Int) (ns : Option String) (db : Db) :
    ((StoreOp.retry id next ns).exec db).2 = db ∧
      (∃ e, ((StoreOp.retry id next ns).exec db).1 = .error e) ∨
    ((StoreOp.retry id next ns).exec db).1 = .ok () ∧
      Shift [id] [] db ((StoreOp.retry id next ns).exec db).2 ∧
      ((StoreOp.retry id next ns).exec db).2.owner id = none ∧
      ∃ row, db.jobs.find id = some row ∧
        ((StoreOp.retry id next ns).exec db).2.jobs.find id =
          some { row.backToPending next with retryCount := row.retryCount + 1 } := by
  simp only [exec]
  obtain ⟨e, -, hw⟩ | ⟨_, _, hbody, hw⟩ := writeTransaction_cases (Flexiq.retry id next ns) db
  · rw [hw]
    exact .inl ⟨rfl, e, rfl⟩
  · rw [hw]
    obtain ⟨row, _, rfl, -, hedit, rfl⟩ := retry_ok hbody
    refine .inr ⟨rfl, ?_, ?_, row, hedit.1, ?_⟩
    · exact (Shift.of_edit hedit).trans (.of_effect (e := .unclaim) trivial (deleteClaim_holds _ _))
    · rw [owner_deleteClaim, if_pos rfl]
    · exact (hedit.2.1 row.id).trans (if_pos rfl)

/-- **A reschedule** puts the row of its job back to pending at the same attempt; one that fails
changes nothing. -/
theorem reschedule_shift (id : JobId) (next : Int) (db : Db) :
    ((StoreOp.reschedule id next).exec db).2 = db ∧
      (∃ e, ((StoreOp.reschedule id next).exec db).1 = .error e) ∨
    ((StoreOp.reschedule id next).exec db).1 = .ok () ∧
      Shift [id] [] db ((StoreOp.reschedule id next).exec db).2 ∧
      ∃ row, db.jobs.find id = some row ∧
        ((StoreOp.reschedule id next).exec db).2.jobs.find id = some (row.backToPending next) := by
  simp only [exec]
  obtain ⟨e, -, hw⟩ | ⟨_, _, hbody, hw⟩ := writeTransaction_cases (Flexiq.reschedule id next) db
  · rw [hw]
    exact .inl ⟨rfl, e, rfl⟩
  · rw [hw]
    obtain ⟨row, rfl, hedit⟩ := reschedule_ok hbody
    exact .inr ⟨rfl, .of_edit hedit, row, hedit.1, (hedit.2.1 row.id).trans (if_pos rfl)⟩

/-! ## Claims -/

/-- From one state to the other only claims are written: those of `ids` that had owner `previous`
now belong to `worker`. -/
structure Claims (ids : List JobId) (previous : Option String) (worker : String) (db db' : Db) :
    Prop where
  rest : db' = { db with executionClaims := db'.executionClaims }
  owner : ∀ k, db'.owner k = db.owner k ∨
    k ∈ ids ∧ db.owner k = previous ∧ db'.owner k = some worker

theorem Claims.exec {ids : List JobId} {previous : Option String} (db : Db)
    (hop : ∀ e, op.Effects e → ∃ id ∈ ids, e = .claim id previous worker) :
    Claims ids previous worker db (op.exec db).2 := by
  refine (exec_effects op db).invariant (P := Claims ids previous worker db) ?_
    ⟨rfl, fun _ => .inl rfl⟩
  intro e _ _ he h hmid
  obtain ⟨id, hid, rfl⟩ := hop e he
  obtain ⟨hbefore, hafter, hrest⟩ := h
  refine ⟨by rw [hrest, hmid.rest], fun k => ?_⟩
  rw [hafter]
  by_cases hk : k = id
  · subst hk
    rw [if_pos rfl]
    obtain hsame | ⟨-, hfirst, -⟩ := hmid.owner k
    · exact .inr ⟨hid, hsame ▸ hbefore, rfl⟩
    · exact .inr ⟨hid, hfirst, rfl⟩
  · rw [if_neg hk]
    exact hmid.owner k

/-- A transfer that reports success found the claim it was asked for, and moved it. -/
theorem owner_of_reclaim {expected : String}
    (h : ((StoreOp.reclaimExecution id expected worker now).exec db).1 = .ok true) :
    db.owner id = some expected ∧
      ((StoreOp.reclaimExecution id expected worker now).exec db).2.owner id = some worker := by
  have hcount : decide (db.executionClaims.count (transferable id expected) ≠ 0) = true :=
    Except.ok.inj h
  by_cases hex : ∃ c ∈ db.executionClaims.rows, transferable id expected c = true
  · obtain ⟨c, hc, hmatch⟩ := hex
    obtain ⟨hid, howner⟩ := of_decide_eq_true hmatch
    have hfind : db.executionClaims.find id = some c := hid ▸ find_of_mem hc
    refine ⟨by rw [Db.owner, hfind, map_some, howner], ?_⟩
    simp only [exec, writeTransaction, reclaimExecution, Db.owner]
    rw [find_update, find_map_updated hc hmatch
      (fun c' hc' => (of_decide_eq_true hc').1.trans hid.symm), executionClaimsSchema_key, hid,
      if_pos rfl]
    rfl
  · refine absurd (count_eq_zero.2 fun c hc => ?_) (of_decide_eq_true hcount)
    by_contra hmatch
    exact hex ⟨c, hc, by simpa using hmatch⟩

/-! ## Answers -/

theorem jobInNamespace_self (ns : Option String) : jobInNamespace ns ns = true := by
  cases ns <;> simp [jobInNamespace]

/-- A job the store hands out is the pending job it was, now running. -/
structure HandedOut (ns : Option String) (db db' : Db) (job : Job) : Prop where
  before : ∃ row, db.jobs.find job.id = some row ∧ row.status = .pending
  after : db'.jobs.find job.id = some job ∧ job.status = .running
  namespace_eq : job.namespace_ = ns

/-- One pass of the dequeue loop that claims its candidate hands it out. -/
theorem handedOut_of_claim {c : Job} (hc : Candidate queue ns db c)
    (h : claimCandidate now c db = .ok (some job, db')) :
    job.id = c.id ∧ HandedOut ns db db' job := by
  obtain ⟨full, -, rfl, hcase⟩ := claimCandidate_cases hc.scanned hc.pending h
  obtain ⟨hr, -⟩ | ⟨hr, -⟩ | ⟨hr, hrow, hpend, -, rfl⟩ := hcase
  · cases hr
  · cases hr
  · cases hr
    refine ⟨rfl, ⟨full, hrow, hpend⟩, ⟨?_, rfl⟩, hc.namespace_eq⟩
    exact (find_claimPending now hrow hpend _).trans (if_pos rfl)

/-- Later passes over other candidates leave a handed-out job as it is. -/
theorem HandedOut.shift {new : List JobId} (h : HandedOut ns db mid job)
    (hs : Shift [] new mid db') : HandedOut ns db db' job :=
  ⟨h.before, ⟨hs.running (by simp) h.after.1 h.after.2, h.after.2⟩, h.namespace_eq⟩

theorem within_dequeue (he : dequeueEffects queue now ns e) : e.Within [] [] := by
  obtain ⟨_, hpend, -, -, rfl | rfl⟩ := he
  · trivial
  · exact .inr hpend

theorem Shift.of_dequeue (h : Effects (dequeueEffects queue now ns) db db') : Shift [] [] db db' :=
  h.invariant (P := Shift [] [] db)
    (fun _ _ _ he hs hmid => hmid.trans (.of_effect (within_dequeue he) hs)) (.refl ..)

/-- A job that is handed out after some passes was pending before them. -/
theorem HandedOut.of_shift (hs : Shift [] [] db mid) (h : HandedOut ns mid db' job) :
    HandedOut ns db db' job := by
  obtain ⟨_, hrow', hpend'⟩ := h.before
  obtain hnew | ⟨row, hrow, -, hst⟩ := hs.origin (by simp) hrow'
  · exact absurd hnew (by simp)
  · refine ⟨⟨row, hrow, ?_⟩, h.after, h.namespace_eq⟩
    obtain hst | hst := hst
    · exact hst.symm.trans hpend'
    · exact hst

/-- The jobs a dequeue loop claims are handed out, and are different jobs. -/
theorem Walk.handedOut {cs claimed : List Job} (h : Walk queue ns now cs db claimed db') :
    (claimed.map Job.id).Sublist (cs.map Job.id) ∧ ∀ job ∈ claimed, HandedOut ns db db' job := by
  induction h with
  | stop => simp
  | @pass c rest claimed db mid db' r hc h hwalk ih =>
    obtain ⟨hsub, hall⟩ := ih
    have hshift := Shift.of_dequeue (claimCandidate_effects hc h)
    cases r with
    | some =>
      obtain ⟨hid, hfirst⟩ := handedOut_of_claim hc h
      refine ⟨by simpa [hid] using hsub, fun job hjob => ?_⟩
      obtain rfl | hjob := mem_cons.1 hjob
      · exact hfirst.shift (.of_dequeue hwalk.effects)
      · exact (hall job hjob).of_shift hshift
    | none => exact ⟨hsub.cons _, fun job hjob => (hall job hjob).of_shift hshift⟩

theorem exec_dequeue_walk {r : Option Job} (h : ((dequeue queue now ns order).exec db).1 = .ok r) :
    Walk queue ns now (scanDequeueCandidates queue now ns 100 order db) db r.toList
      ((dequeue queue now ns order).exec db).2 :=
  dequeueOrdered_walk (writeTransaction_body h)

theorem exec_dequeueBatch_walk {r : List Job}
    (h : ((dequeueBatch queue now ns max order).exec db).1 = .ok r) :
    Walk queue ns now (scanDequeueCandidates queue now ns (min (max * 4) 400) order db) db r
      ((dequeueBatch queue now ns max order).exec db).2 :=
  dequeueBatchOrdered_walk (writeTransaction_body h)

/-- What a dequeue answers: a job it handed out. -/
theorem dequeue_handedOut (h : ((dequeue queue now ns order).exec db).1 = .ok (some job)) :
    HandedOut ns db ((dequeue queue now ns order).exec db).2 job :=
  (exec_dequeue_walk h).handedOut.2 job mem_cons_self

/-- What a batch dequeue answers: different jobs it handed out. -/
theorem dequeueBatch_handedOut {jobs : List Job}
    (h : ((dequeueBatch queue now ns max order).exec db).1 = .ok jobs) :
    (jobs.map Job.id).Nodup ∧ ∀ job ∈ jobs,
      HandedOut ns db ((dequeueBatch queue now ns max order).exec db).2 job := by
  obtain ⟨hsub, hall⟩ := (exec_dequeueBatch_walk h).handedOut
  exact ⟨hsub.nodup (scanDequeueCandidates_nodup ..), hall⟩

/-- What a sweep for orphans answers: running jobs at their attempt, each with the worker that
holds its claim, which is not a live one. -/
theorem orphans_spec {live : List String} {o : Job × String} (h : o ∈ reapOrphanedJobs live ns db) :
    db.owner o.1.id = some o.2 ∧ o.2 ∉ live ∧
      ∃ row, db.jobs.find o.1.id = some row ∧ row.retryCount = o.1.retryCount := by
  unfold reapOrphanedJobs at h
  split at h
  · cases h
  · obtain ⟨row, hrow, rfl⟩ := mem_map.1 h
    obtain ⟨hmem, hp⟩ := mem_select.1 hrow
    obtain ⟨hid, -, -⟩ := of_decide_eq_true hp
    obtain ⟨c, hc, hjob⟩ := mem_map.1 hid
    obtain ⟨hclaim, hdead⟩ := mem_select.1 hc
    have hfind : db.executionClaims.find row.id = some c := hjob ▸ find_of_mem hclaim
    have howner : claimOwner db row.id = c.workerId := by
      rw [claimOwner, hfind]
      rfl
    refine ⟨?_, ?_, row, find_of_mem hmem, rfl⟩
    · change (db.executionClaims.find row.id).map _ = _
      rw [hfind, howner]
      rfl
    · rw [howner]
      exact of_decide_eq_true hdead

theorem getJob_id (h : getJob id ns db = some job) : job.id = id := by
  unfold getJob at h
  split at h
  · next _ hrow =>
    split at h
    · cases h
      exact find_key hrow
    · cases h
  · exact find_key (filter_eq_some_iff.1 h).1

/-! ## Histories of a job -/

/-- A row that is live afterwards and is not a new job's was live before, with no more retries. -/
theorem retryCount_le (hk : k ∉ op.newIds) (h : (op.exec db).2.jobs.find k = some row') :
    ∃ row, db.jobs.find k = some row ∧ row.retryCount ≤ row'.retryCount := by
  refine (exec_effects op db).invariant (P := fun mid => ∀ row', mid.jobs.find k = some row' →
    ∃ row, db.jobs.find k = some row ∧ row.retryCount ≤ row'.retryCount) ?_
    (fun row hrow => ⟨row, hrow, le_refl _⟩) row' h
  intro _ _ _ he hstep hmid row' hrow'
  obtain hsame | ⟨_, rfl, entry, hmem, -, rfl⟩ | ⟨row, -, hrow, ⟨_, -, -, rfl⟩ | rfl⟩ :=
    row_of_effect hstep hrow'
  · exact hmid row' hsame
  · exact absurd (he.insert_newIds entry hmem) hk
  · exact hmid row hrow
  · obtain ⟨first, hfirst, hle⟩ := hmid row hrow
    exact ⟨first, hfirst, hle.trans he.sane.2.2.2⟩

/-- The job is live or archived. -/
def Db.Has (db : Db) (k : JobId) : Prop :=
  (db.jobs.find k).isSome = true ∨ (db.archivedJobs.find k).isSome = true

theorem Db.Has.exec (hop : ∀ p, op ≠ .purgeArchived p) (h : db.Has k) : (op.exec db).2.Has k := by
  refine (exec_effects op db).invariant (P := fun mid => mid.Has k) ?_ h
  intro _ _ _ he hstep hmid
  obtain hlive | harch := hmid
  · obtain ⟨_, hrow⟩ := isSome_iff_exists.1 hlive
    grind [Db.Has, fate_of_row hstep hrow]
  · obtain ⟨_, hr⟩ := isSome_iff_exists.1 harch
    obtain hsame | ⟨_, rfl⟩ := fate_of_archived hstep hr
    · exact .inr (by rw [hsame]; rfl)
    · cases op <;> simp [StoreOp.Effects] at he
      exact absurd rfl (hop _)

end Flexiq
