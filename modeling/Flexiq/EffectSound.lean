import Flexiq.Effect

/-!
# Every transaction has the effects it declares

`exec_effects`: the state a transaction leaves is reached from the state it found by a
sequence of the effects `StoreOp.Effects` lists for it. One lemma for each body, assembled
at the end.
-/

namespace Flexiq

open Effect (claim edit insert)

open List Option Table Effects

variable {db db' : Db} {rows : List Job} {ns jobNs : Option String} {deps : List JobId}
  {job row c : Job} {id jobId : JobId} {p : Job → Bool} {f : Job → Job}
  {queue error owner : String} {now next attempt : Int} {step : NewJobStep} {limits : StepLimits}
  {a : Unit} {jobs : List (Job × List JobId)} {r : Option Job}
variable {order : DispatchOrder} {cs claimed : List Job} {wakeAt : Int}
variable {A : Effect → Prop} {depId : JobId} {t : Table jobsSchema} {key stepKey workerId : String}
  {options : DebounceOptions} {limit max committed : Nat} {ids : List JobId} {reassert : Bool}
  {u : Unit} {o : SleepOutcome}

/-- A transaction has the effects that its body has when it succeeds; when it fails it has
none. -/
theorem Effects.of_body {α : Type} {body : Txn α}
    (h : ∀ a db', body db = .ok (a, db') → Effects A db db') :
    Effects A db (writeTransaction body db).2 := by
  obtain ⟨_, -, hw⟩ | ⟨a, db', hb, hw⟩ := writeTransaction_cases body db
  · rw [hw]
    exact refl db
  · rw [hw]
    exact h a db' hb

/-! ## Inserts -/

theorem insertJobRow_ok (h : insertJobRow row db = .ok db') :
    db.jobs.insert row = some db'.jobs ∧ db' = { db with jobs := db'.jobs } := by
  unfold insertJobRow at h
  rcases hi : db.jobs.insert row with _ | _
  · rw [hi] at h
    cases h
  · rw [hi] at h
    cases h
    exact ⟨rfl, rfl⟩

/-- Inserting rows one by one: they were all new, and each is found afterwards. -/
theorem insertJobRows_ok (h : insertJobRows rows db = .ok db') :
    (∀ r ∈ rows, db.jobs.find r.id = none) ∧
    (∀ k, db'.jobs.find k = (rows.find? fun j => j.id = k).or (db.jobs.find k)) ∧
    db' = { db with jobs := db'.jobs } := by
  induction rows generalizing db with
  | nil =>
    cases h
    exact ⟨by simp, fun k => rfl, rfl⟩
  | cons row rest ih =>
    obtain ⟨_, h₁, h⟩ := bind_eq_ok.1 h
    obtain ⟨hins, hdb₁⟩ := insertJobRow_ok h₁
    obtain ⟨hnew, hfind, hdb'⟩ := ih h
    have hfind₁ := find_insert hins
    refine ⟨?_, fun k => ?_, ?_⟩
    · intro r hr
      rcases mem_cons.1 hr with rfl | hr
      · exact find_of_insert hins
      · have hr₁ := hnew r hr
        rw [hfind₁] at hr₁
        split at hr₁
        · cases hr₁
        · exact hr₁
    · rw [hfind, hfind₁, List.find?_cons]
      by_cases hk : row.id = k
      · -- the first row is found unless a later one has its key, which the table refuses
        subst hk
        have hnone : (rest.find? fun j => j.id = row.id) = none := by
          rw [List.find?_eq_none]
          intro r hr hid
          have hr₁ := hnew r hr
          rw [hfind₁, of_decide_eq_true hid] at hr₁
          simp at hr₁
        simp [hnone]
      · have hk' : ¬k = row.id := fun e => hk e.symm
        simp [hk, hk']
    · rw [hdb', hdb₁]

theorem insertBatchDependencyRows_eq (jobs : List (Job × List JobId)) (db : Db) :
    insertBatchDependencyRows jobs db =
      { db with jobDependencies := db.jobDependencies ++ dependencyRows jobs } := by
  induction jobs generalizing db with
  | nil => simp [insertBatchDependencyRows, dependencyRows]
  | cons e rest ih =>
    obtain ⟨_, _⟩ := e
    simp only [insertBatchDependencyRows, ih, insertDependencyRows, dependencyRows,
      flatMap_cons, append_assoc]

theorem validateDependency_ok (h : validateDependency depId ns db = .ok ()) :
    (db.jobs.find depId).isSome ∨ (db.archivedJobs.find depId).isSome := by
  unfold validateDependency at h
  rcases hf : db.jobs.find depId with _ | _
  · rw [hf] at h
    rcases ha : db.archivedJobs.find depId with _ | _
    · rw [ha] at h
      cases h
    · exact .inr rfl
  · exact .inl rfl

theorem validateDependencies_ok (h : validateDependencies ns deps db = .ok ()) :
    ∀ id ∈ deps, (db.jobs.find id).isSome ∨ (db.archivedJobs.find id).isSome := by
  induction deps with
  | nil => simp
  | cons depId rest ih =>
    obtain ⟨_, h₁, h₂⟩ := bind_eq_ok.1 h
    intro id hid
    rcases mem_cons.1 hid with rfl | hid
    · exact validateDependency_ok h₁
    · exact ih h₂ id hid

theorem insertWithDependencies_holds (h : insertWithDependencies job deps db = .ok db') :
    (insert [(job, deps)]).Holds db db' := by
  obtain ⟨_, hv, h⟩ := bind_eq_ok.1 h
  obtain ⟨_, hi, h⟩ := bind_eq_ok.1 h
  cases h
  obtain ⟨hins, hdb₁⟩ := insertJobRow_ok hi
  refine ⟨?_, ?_, fun k => ?_, ?_⟩
  · intro e he id hid
    cases mem_singleton.1 he
    exact .inr (validateDependencies_ok hv id hid)
  · intro e he
    cases mem_singleton.1 he
    exact find_of_insert hins
  · have hfind := find_insert hins k
    rw [jobsSchema_key] at hfind
    by_cases hk : job.id = k
    · simp [insertDependencyRows, hfind, hk]
    · have hk' : ¬k = job.id := fun e => hk e.symm
      simp [insertDependencyRows, hfind, hk, hk']
  · rw [hdb₁]
    simp [insertDependencyRows, dependencyRows]

theorem enqueue_effects {a : Job} (h : enqueue job deps db = .ok (a, db')) :
    (insert [(job, deps)]).Holds db db' := by
  obtain ⟨_, hi, h⟩ := bind_eq_ok.1 h
  cases h
  exact insertWithDependencies_holds hi

/-! ## Batches -/

theorem batchNamespace_some (h : batchNamespace jobs id = some ns) : ∃ e ∈ jobs, e.1.id = id := by
  obtain ⟨e, he, -⟩ := map_eq_some_iff.1 h
  have hid := List.find?_some he
  exact ⟨e, mem_reverse.1 (mem_of_find?_eq_some he), of_decide_eq_true hid⟩

theorem validateBatchDependency_ok (h : validateBatchDependency jobs ns depId db = .ok ()) :
    KnownDependency db jobs depId := by
  unfold validateBatchDependency at h
  rcases hb : batchNamespace jobs depId with _ | _
  · rw [hb] at h
    exact .inr (validateDependency_ok h)
  · exact .inl (batchNamespace_some hb)

theorem validateBatchMember_ok (h : validateBatchMember jobs ns deps db = .ok ()) :
    ∀ id ∈ deps, KnownDependency db jobs id := by
  induction deps with
  | nil => simp
  | cons depId rest ih =>
    obtain ⟨_, h₁, h₂⟩ := bind_eq_ok.1 h
    intro id hid
    rcases mem_cons.1 hid with rfl | hid
    · exact validateBatchDependency_ok h₁
    · exact ih h₂ id hid

theorem validateBatch_ok {members : List (Job × List JobId)}
    (h : validateBatch jobs members db = .ok ()) :
    ∀ e ∈ members, ∀ id ∈ e.2, KnownDependency db jobs id := by
  induction members with
  | nil => simp
  | cons e rest ih =>
    obtain ⟨_, h₁, h₂⟩ := bind_eq_ok.1 h
    intro e' he'
    rcases mem_cons.1 he' with rfl | he'
    · exact validateBatchMember_ok h₁
    · exact ih h₂ e' he'

theorem enqueueBatch_effects {a : List Job} (h : enqueueBatch jobs db = .ok (a, db')) :
    (insert jobs).Holds db db' := by
  obtain ⟨_, hv, h⟩ := bind_eq_ok.1 h
  obtain ⟨_, hi, h⟩ := bind_eq_ok.1 h
  cases h
  obtain ⟨hnew, hfind, hdb₁⟩ := insertJobRows_ok hi
  rw [insertBatchDependencyRows_eq]
  refine ⟨validateBatch_ok hv, fun e he => hnew e.1 (mem_map_of_mem he), hfind, ?_⟩
  rw [hdb₁]

theorem enqueueUnique_effects {a : Job} (h : enqueueUnique job deps db = .ok (a, db')) :
    Effects (· = .insert [(job, deps)]) db db' := by
  unfold enqueueUnique at h
  split at h
  · cases h
    exact refl _
  · exact single rfl (enqueue_effects h)

theorem enqueueUniqueBatch_effects {a : List Job} (h : enqueueUniqueBatch jobs db = .ok (a, db')) :
    Effects (fun e => ∃ j ∈ jobs, e = .insert [j]) db db' := by
  induction jobs generalizing db a with
  | nil =>
    cases h
    exact refl _
  | cons e rest ih =>
    obtain ⟨⟨_, _⟩, h₁, h⟩ := bind_eq_ok.1 h
    obtain ⟨⟨_, _⟩, h₂, h⟩ := bind_eq_ok.1 h
    cases h
    refine trans ((enqueueUnique_effects h₁).mono ?_) ((ih h₂).mono ?_)
    · rintro _ rfl
      exact ⟨e, by simp, rfl⟩
    · rintro _ ⟨j, hj, rfl⟩
      exact ⟨j, by simp [hj], rfl⟩

/-! ## Edits of one row -/

/-- An update that keeps keys and only touches the row `row` edits that row. -/
theorem edit_of_update (h : Table.Preserves jobsSchema p f) (hrow : row ∈ db.jobs.rows)
    (hp : p row = true) (honly : ∀ j, p j = true → j.id = row.id) :
    (edit row (f row)).Holds db { db with jobs := db.jobs.update p f h } := by
  refine ⟨find_of_mem hrow, fun k => ?_, rfl⟩
  rw [find_update]
  exact find_map_updated hrow hp honly k

/-- The same for an update that a constraint could have refused. -/
theorem edit_of_tryUpdate {jobs : Table jobsSchema} (h : db.jobs.tryUpdate p f = some jobs)
    (hrow : row ∈ db.jobs.rows) (hp : p row = true) (hkey : ∀ j, (f j).id = j.id)
    (honly : ∀ j, p j = true → j.id = row.id) : (edit row (f row)).Holds db { db with jobs } := by
  refine ⟨find_of_mem hrow, fun k => ?_, rfl⟩
  rw [find_tryUpdate (fun j _ => hkey j) h]
  exact find_map_updated hrow hp honly k

/-- A nonzero count has a row behind it. -/
theorem exists_of_count_ne_zero (h : t.count p ≠ 0) : ∃ row ∈ t.rows, p row = true := by
  by_contra hne
  exact h (count_eq_zero.2 fun r hr => by
    by_contra hp
    exact hne ⟨r, hr, by simpa using hp⟩)

/-- An update of the rows of one id edits the live row of that id, if it is hit. -/
theorem update_effects (h : Table.Preserves jobsSchema p f) (honly : ∀ j, p j = true → j.id = id)
    (hA : ∀ row, p row = true → A (.edit row (f row))) :
    Effects A db { db with jobs := db.jobs.update p f h } := by
  by_cases hcount : db.jobs.count p = 0
  · rw [update_eq_self h (count_eq_zero.1 hcount)]
    exact refl _
  · obtain ⟨row, hrow, hp⟩ := exists_of_count_ne_zero hcount
    exact single (hA row hp)
      (edit_of_update h hrow hp fun j hj => (honly j hj).trans (honly row hp).symm)

theorem slideDebounced_effects {target : JobId} {deadline : Int} {payload : Option Bytes}
    (hrow : db.jobs.find target = some row) :
    (edit row
      { row with scheduledAt := deadline, payload := payload.getD row.payload }).Holds db
        (slideDebounced target deadline payload db) := by
  have hid : row.id = target := find_key hrow
  exact edit_of_update (f := fun j =>
      { j with scheduledAt := deadline, payload := payload.getD j.payload })
    (fun _ _ => ⟨rfl, .inl rfl⟩) (mem_of_find hrow) (by simp [hid])
    fun j hj => (of_decide_eq_true hj).trans hid.symm

/-- **What a debounced enqueue does**: insert its job, or slide the pending job it found. -/
theorem enqueueDebounced_cases {a : Job}
    (h : enqueueDebounced job deps key options db = .ok (a, db')) :
    (insert [(job, deps)]).Holds db db' ∨
    ∃ pending row payload, findDebounceTarget job.namespace_ key db = some pending ∧
      row.id = pending.id ∧ row.status = .pending ∧
      (edit row { row with
        scheduledAt := min job.scheduledAt (saturatingAdd pending.createdAt options.maxWaitMs),
        payload := payload }).Holds db db' := by
  unfold enqueueDebounced at h
  rcases hf : findDebounceTarget job.namespace_ key db with _ | pending
  · rw [hf] at h
    exact .inl (enqueue_effects h)
  · rw [hf] at h
    dsimp only at h
    split at h
    · next row _ =>
      cases h
      -- the candidate is a live row, so the slide edits it
      have hlive : ∃ r, db.jobs.find pending.id = some r ∧ r.status = .pending := by
        have hm : pending ∈ debounceCandidates job.namespace_ key db := mem_of_find?_eq_some hf
        obtain ⟨r, hr, rfl⟩ := mem_map.1 hm
        have hr' := mem_of_mem_take hr
        rw [mem_insertionSort] at hr'
        obtain ⟨hmem, hsel⟩ := mem_select.1 hr'
        exact ⟨r, find_of_mem hmem, (of_decide_eq_true hsel).2.1⟩
      obtain ⟨r, hr, hpend⟩ := hlive
      exact .inr ⟨pending, r, _, rfl, find_key hr, hpend, slideDebounced_effects hr⟩
    · cases h

theorem enqueueDebounced_effects {a : Job}
    (h : enqueueDebounced job deps key options db = .ok (a, db')) :
    Effects (fun e => e = .insert [(job, deps)] ∨ ∃ row deadline payload, row.status = .pending ∧
      e = .edit row { row with scheduledAt := deadline, payload := payload }) db db' := by
  obtain hins | ⟨_, row, _, -, -, hpend, hedit⟩ := enqueueDebounced_cases h
  · exact single (.inl rfl) hins
  · exact single (.inr ⟨row, _, _, hpend, rfl⟩) hedit

/-! ## Dequeue -/

/-- A candidate of a scan, still live as it was scanned. -/
def Scanned (db : Db) (c : Job) : Prop := ∃ full, db.jobs.find c.id = some full ∧ full.narrow = c

theorem scanDequeueCandidates_spec (hc : c ∈ scanDequeueCandidates queue now ns limit order db) :
    Scanned db c ∧ c.status = .pending ∧ c.queue = queue ∧ c.namespace_ = ns := by
  obtain ⟨full, hfull, rfl⟩ := mem_map.1 hc
  have hm := mem_of_mem_take hfull
  rw [mem_insertionSort] at hm
  obtain ⟨hrow, hp⟩ := mem_select.1 hm
  obtain ⟨hq, hs, -, hns⟩ := of_decide_eq_true hp
  exact ⟨⟨full, find_of_mem hrow, rfl⟩, hs, hq, hns⟩

theorem scanDequeueCandidates_nodup (queue : String) (now : Int) (ns : Option String)
    (limit : Nat) (order : DispatchOrder) (db : Db) :
    ((scanDequeueCandidates queue now ns limit order db).map Job.id).Nodup := by
  simp only [scanDequeueCandidates, List.map_map]
  have hid : Job.id ∘ Job.narrow = Job.id := rfl
  rw [hid]
  refine ((List.take_sublist _ _).map _).nodup ?_
  refine ((perm_insertionSort _ _).map _).nodup_iff.2 ?_
  exact db.jobs.nodup_key.sublist (filter_sublist.map _)

def Job.expiredBeforeExecution (job : Job) (now : Int) : Job :=
  { job.finished .cancelled now with error := some "expired before execution" }

/-- **What one pass of the dequeue loop does**: nothing, archive the candidate, or claim it. -/
theorem claimCandidate_cases (hc : Scanned db c) (hs : c.status = .pending)
    (h : claimCandidate now c db = .ok (r, db')) :
    ∃ full, db.jobs.find c.id = some full ∧ full.narrow = c ∧
      ((r = none ∧ db' = db) ∨
        (r = none ∧ (Effect.archive full (full.expiredBeforeExecution now)).Holds db db') ∨
        (r = some (full.started now) ∧ (Effect.claimRun full now).Holds db db')) := by
  obtain ⟨full, hfull, rfl⟩ := hc
  refine ⟨full, hfull, rfl, ?_⟩
  have hid : full.narrow.id = full.id := rfl
  rw [hid] at hfull
  unfold claimCandidate at h
  rw [hid, hfull] at h
  split at h
  · -- expired: the full row goes to the archive
    obtain ⟨_, ha, h⟩ := bind_eq_ok.1 h
    cases h
    exact .inr (.inl ⟨rfl, hfull, rfl, ha⟩)
  split at h
  · cases h
    exact .inl ⟨rfl, rfl⟩
  next hdeps =>
  split at h
  · cases h
    exact .inl ⟨rfl, rfl⟩
  · -- ready: the row is pending, so the guarded update hits it
    dsimp only at h
    rw [find_claimPending now hfull hs, if_pos rfl] at h
    cases h
    refine .inr (.inr ⟨rfl, hfull, hs, fun hd => ?_, rfl⟩)
    by_contra hsat
    exact hdeps (by simpa [Job.narrow, hd] using hsat)

/-- The effects of a dequeue of `queue` in namespace `ns`. -/
def dequeueEffects (queue : String) (now : Int) (ns : Option String) (e : Effect) : Prop :=
  ∃ row, row.status = .pending ∧ row.queue = queue ∧ row.namespace_ = ns ∧
    (e = .claimRun row now ∨ e = .archive row (row.expiredBeforeExecution now))

/-- A candidate the loop may still try. -/
structure Candidate (queue : String) (ns : Option String) (db : Db) (c : Job) : Prop where
  scanned : Scanned db c
  pending : c.status = .pending
  queue_eq : c.queue = queue
  namespace_eq : c.namespace_ = ns

theorem claimCandidate_find_ne (hc : Scanned db c) (hs : c.status = .pending)
    (h : claimCandidate now c db = .ok (r, db')) {k : JobId} (hk : k ≠ c.id) :
    db'.jobs.find k = db.jobs.find k := by
  obtain ⟨full, -, rfl, hcase⟩ := claimCandidate_cases hc hs h
  have hk' : k ≠ full.id := hk
  obtain ⟨-, rfl⟩ | ⟨-, -, -, ha⟩ | ⟨-, hrow, hp, -, rfl⟩ := hcase
  · rfl
  · exact (find_jobs_archive ha k).trans (if_neg hk')
  · exact (find_claimPending now hrow hp k).trans (if_neg hk')

theorem Candidate.of_pass {c' : Job} (hc : Candidate queue ns db c) (hc' : Candidate queue ns db c')
    (hne : c'.id ≠ c.id) (h : claimCandidate now c db = .ok (r, db')) :
    Candidate queue ns db' c' := by
  obtain ⟨full, hfull, hn⟩ := hc'.scanned
  refine ⟨⟨full, ?_, hn⟩, hc'.pending, hc'.queue_eq, hc'.namespace_eq⟩
  rw [claimCandidate_find_ne hc.scanned hc.pending h hne]
  exact hfull

theorem claimCandidate_effects (hc : Candidate queue ns db c)
    (h : claimCandidate now c db = .ok (r, db')) :
    Effects (dequeueEffects queue now ns) db db' := by
  obtain ⟨full, -, rfl, hcase⟩ := claimCandidate_cases hc.scanned hc.pending h
  obtain ⟨-, rfl⟩ | ⟨-, ha⟩ | ⟨-, hr⟩ := hcase
  · exact refl _
  · exact single ⟨full, hc.pending, hc.queue_eq, hc.namespace_eq, .inr rfl⟩ ha
  · exact single ⟨full, hc.pending, hc.queue_eq, hc.namespace_eq, .inl rfl⟩ hr

/-- The passes of a dequeue loop: over which candidates it goes, and which jobs it claims. -/
inductive Walk (queue : String) (ns : Option String) (now : Int) :
    List Job → Db → List Job → Db → Prop
  | stop (cs : List Job) (db : Db) : Walk queue ns now cs db [] db
  | pass {c : Job} {rest claimed : List Job} {db mid db' : Db} {r : Option Job}
      (hc : Candidate queue ns db c) (h : claimCandidate now c db = .ok (r, mid))
      (hwalk : Walk queue ns now rest mid claimed db') :
      Walk queue ns now (c :: rest) db (r.toList ++ claimed) db'

theorem Candidate.rest (hcs : ∀ c' ∈ c :: cs, Candidate queue ns db c')
    (hnd : ((c :: cs).map Job.id).Nodup) (h : claimCandidate now c db = .ok (r, db')) :
    ∀ c' ∈ cs, Candidate queue ns db' c' := by
  intro c' hc'
  have hne : c'.id ≠ c.id := fun e => (nodup_cons.1 hnd).1 (e ▸ mem_map_of_mem hc')
  exact (hcs c (by simp)).of_pass (hcs c' (by simp [hc'])) hne h

theorem claimUpTo_walk (hcs : ∀ c ∈ cs, Candidate queue ns db c) (hnd : (cs.map Job.id).Nodup)
    (h : claimUpTo now max cs db = .ok (claimed, db')) : Walk queue ns now cs db claimed db' := by
  induction cs generalizing db max claimed with
  | nil => cases max <;> cases h <;> exact .stop _ _
  | cons c rest ih =>
    cases max with
    | zero =>
      cases h
      exact .stop _ _
    | succ =>
      obtain ⟨⟨r, _⟩, h₁, h⟩ := bind_eq_ok.1 h
      have hrest := Candidate.rest hcs hnd h₁
      cases r with
      | some =>
        obtain ⟨⟨_, _⟩, h₂, h⟩ := bind_eq_ok.1 h
        cases h
        exact .pass (hcs c (by simp)) h₁ (ih hrest (nodup_cons.1 hnd).2 h₂)
      | none => exact .pass (hcs c (by simp)) h₁ (ih hrest (nodup_cons.1 hnd).2 h)

theorem claimFirst_walk (hcs : ∀ c ∈ cs, Candidate queue ns db c) (hnd : (cs.map Job.id).Nodup)
    (h : claimFirst now cs db = .ok (r, db')) : Walk queue ns now cs db r.toList db' := by
  induction cs generalizing db with
  | nil =>
    cases h
    exact .stop _ _
  | cons c rest ih =>
    obtain ⟨⟨r₁, _⟩, h₁, h⟩ := bind_eq_ok.1 h
    cases r₁ with
    | some job =>
      cases h
      exact .pass (r := some job) (hcs c (by simp)) h₁ (.stop rest _)
    | none => exact .pass (hcs c (by simp)) h₁ (ih (.rest hcs hnd h₁) (nodup_cons.1 hnd).2 h)

theorem Walk.effects (h : Walk queue ns now cs db claimed db') :
    Effects (dequeueEffects queue now ns) db db' := by
  induction h with
  | stop => exact refl _
  | pass hc h _ ih => exact (claimCandidate_effects hc h).trans ih

theorem candidate_of_scan :
    ∀ c ∈ scanDequeueCandidates queue now ns limit order db, Candidate queue ns db c := by
  intro _ hc
  obtain ⟨h₁, h₂, h₃, h₄⟩ := scanDequeueCandidates_spec hc
  exact ⟨h₁, h₂, h₃, h₄⟩

theorem dequeueOrdered_walk (h : dequeueOrdered queue now ns order db = .ok (r, db')) :
    Walk queue ns now (scanDequeueCandidates queue now ns 100 order db) db r.toList db' :=
  claimFirst_walk candidate_of_scan (scanDequeueCandidates_nodup ..) h

theorem dequeueBatchOrdered_walk
    (h : dequeueBatchOrdered queue now ns max order db = .ok (claimed, db')) :
    Walk queue ns now (scanDequeueCandidates queue now ns (min (max * 4) 400) order db) db claimed
      db' :=
  claimUpTo_walk candidate_of_scan (scanDequeueCandidates_nodup ..) h

/-! ## Outcomes -/

theorem findRunning_some (h : findRunning id ns db = some row) :
    db.jobs.find row.id = some row ∧ row.id = id ∧ row.status = .running ∧
      jobInNamespace row.namespace_ ns = true := by
  obtain ⟨hf, hp⟩ := filter_eq_some_iff.1 h
  obtain ⟨hs, hns⟩ := of_decide_eq_true hp
  have hid : row.id = id := find_key hf
  exact ⟨hid ▸ hf, hid, hs, hns⟩

theorem archive_effects {final : Job} (h : archiveJobRow final db = .ok db')
    (hrow : db.jobs.find row.id = some row) (hid : final.id = row.id)
    (hA : A (.archive row final)) : Effects A db db' :=
  single hA ⟨hrow, hid, h⟩

theorem complete_effects {result : Option Bytes} (h : complete id result ns now db = .ok (a, db')) :
    Effects (StoreOp.complete id result ns now).Effects db db' := by
  unfold complete at h
  rcases hf : findRunning id ns db with _ | row
  · rw [hf] at h
    cases h
  · rw [hf] at h
    obtain ⟨_, ha, h⟩ := bind_eq_ok.1 h
    cases h
    obtain ⟨hrow, hid, hs, hns⟩ := findRunning_some hf
    exact archive_effects ha hrow rfl ⟨row, hid, hs, hns, rfl⟩

theorem completeBatch_effects {cs : List JobCompletion}
    (h : completeBatch ns now cs db = .ok (a, db')) :
    Effects (StoreOp.completeBatch cs ns now).Effects db db' := by
  induction cs generalizing db with
  | nil =>
    cases h
    exact refl _
  | cons c rest ih =>
    unfold completeBatch at h
    rcases hf : findRunning c.jobId ns db with _ | row
    · rw [hf] at h
      cases h
    · rw [hf] at h
      obtain ⟨db₁, ha, h⟩ := bind_eq_ok.1 h
      obtain ⟨hrow, hid, hs, hns⟩ := findRunning_some hf
      refine (archive_effects ha hrow rfl
        (.inr ⟨c, by simp, row, hid, hs, hns, rfl⟩)).trans ?_
      -- the metric row, then the rest of the batch
      have hmetric : Effect.diagnostics.Holds db₁ { db₁ with
          taskMetrics := db₁.taskMetrics ++
            [⟨c.taskName, c.jobId, c.wallTimeNs, 0, true, now, row.namespace_⟩] } := rfl
      refine .trans (.single (.inl rfl) hmetric) ((ih h).mono ?_)
      rintro _ (rfl | ⟨c', hc', he⟩)
      · exact .inl rfl
      · exact .inr ⟨c', by simp [hc'], he⟩

theorem fail_effects (h : fail id error now db = .ok (a, db')) :
    Effects (StoreOp.fail id error now).Effects db db' := by
  unfold fail at h
  rcases hf : findRunning id none db with _ | row
  · rw [hf] at h
    cases h
  · rw [hf] at h
    obtain ⟨_, ha, h⟩ := bind_eq_ok.1 h
    cases h
    obtain ⟨hrow, hid, hs, -⟩ := findRunning_some hf
    exact archive_effects ha hrow rfl ⟨row, hid, hs, rfl⟩

/-! ## Back to pending -/

theorem deleteClaim_holds (id : JobId) (db : Db) : Effect.unclaim.Holds db (deleteClaim id db) :=
  ⟨find_delete_or _ _, rfl⟩

theorem retry_ok (h : retry id next ns db = .ok (a, db')) :
    ∃ row mid, row.id = id ∧ jobInNamespace row.namespace_ ns = true ∧
      (edit row { row.backToPending next with retryCount := row.retryCount + 1 }).Holds
        db mid ∧ db' = deleteClaim id mid := by
  unfold retry at h
  dsimp only at h
  split at h
  · cases h
  · next _ hu =>
    split at h
    · cases h
    · next hcount =>
      cases h
      obtain ⟨row, hrow, hp⟩ := exists_of_count_ne_zero hcount
      obtain ⟨hid, hns⟩ := of_decide_eq_true hp
      have honly : ∀ j : Job, decide (j.id = id ∧ jobInNamespace j.namespace_ ns = true) = true →
          j.id = row.id := fun j hj => (of_decide_eq_true hj).1.trans hid.symm
      exact ⟨row, _, hid, hns, edit_of_tryUpdate hu hrow hp (fun _ => rfl) honly, rfl⟩

theorem retry_effects (h : retry id next ns db = .ok (a, db')) :
    Effects (StoreOp.retry id next ns).Effects db db' := by
  obtain ⟨row, _, hid, hns, hedit, rfl⟩ := retry_ok h
  exact (single (.inr ⟨row, hid, hns, rfl⟩) hedit).trans
    (single (.inl rfl) (deleteClaim_holds id _))

theorem reschedule_ok (h : reschedule id next db = .ok (a, db')) :
    ∃ row, row.id = id ∧ (edit row (row.backToPending next)).Holds db db' := by
  unfold reschedule at h
  split at h
  · cases h
  · next _ hu =>
    split at h
    · cases h
    · next hcount =>
      cases h
      obtain ⟨row, hrow, hp⟩ := exists_of_count_ne_zero hcount
      have hid : row.id = id := of_decide_eq_true hp
      have honly : ∀ j : Job, decide (j.id = id) = true → j.id = row.id :=
        fun j hj => (of_decide_eq_true hj).trans hid.symm
      exact ⟨row, hid, edit_of_tryUpdate hu hrow hp (fun _ => rfl) honly⟩

theorem reschedule_effects (h : reschedule id next db = .ok (a, db')) :
    Effects (StoreOp.reschedule id next).Effects db db' := by
  obtain ⟨row, hid, hedit⟩ := reschedule_ok h
  exact single ⟨row, hid, rfl⟩ hedit

theorem requeueStuck_effects {a : Bool} (h : requeueStuck id now db = .ok (a, db')) :
    Effects (StoreOp.requeueStuck id now).Effects db db' := by
  unfold requeueStuck at h
  dsimp only at h
  split at h
  · cases h
    exact refl _
  · cases h
    refine (update_effects _ (fun j hj => (of_decide_eq_true hj).1) fun row hp => ?_).trans
      (single (.inl rfl) (deleteClaim_holds id _))
    obtain ⟨hid, hs⟩ := of_decide_eq_true hp
    exact .inr ⟨row, hid, hs, rfl⟩

/-! ## Cancellation -/

theorem cancelPending_effects {a : Bool} (h : cancelPending id ns now db = .ok (a, db')) :
    Effects (StoreOp.cancelPending id ns now).Effects db db' := by
  unfold cancelPending at h
  split at h
  · cases h
    exact refl _
  · next row hf =>
    obtain ⟨hfind, hp⟩ := filter_eq_some_iff.1 hf
    have hs : row.status = .pending := of_decide_eq_true hp
    obtain rfl : row.id = id := find_key hfind
    split at h
    · cases h
      exact refl _
    · next hns =>
      obtain ⟨_, ha, h⟩ := bind_eq_ok.1 h
      cases h
      exact archive_effects ha hfind rfl ⟨row, rfl, hs, by simpa using hns, rfl⟩

theorem requestCancel_effects {a : Bool} (h : requestCancel id ns db = .ok (a, db')) :
    Effects (StoreOp.requestCancel id ns).Effects db db' := by
  unfold requestCancel at h
  cases h
  refine update_effects _ (fun j hj => (of_decide_eq_true hj).1) fun row hp => ?_
  obtain ⟨hid, hs, -⟩ := of_decide_eq_true hp
  exact ⟨row, hid, hs, rfl⟩

theorem updateProgress_effects {progress : Int}
    (h : updateProgress id progress ns db = .ok (a, db')) :
    Effects (StoreOp.updateProgress id progress ns).Effects db db' := by
  unfold updateProgress at h
  dsimp only at h
  split at h
  · cases h
  split at h
  · cases h
  · cases h
    exact update_effects _ (fun j hj => (of_decide_eq_true hj).1) fun row hp =>
      ⟨row, (of_decide_eq_true hp).1, rfl⟩

theorem markCancelled_effects (h : markCancelled id ns now db = .ok (a, db')) :
    Effects (StoreOp.markCancelled id ns now).Effects db db' := by
  unfold markCancelled at h
  split at h
  · cases h
    exact refl _
  · next row hfind =>
    obtain rfl : row.id = id := find_key hfind
    split at h
    · cases h
      exact refl _
    · next hns =>
      obtain ⟨_, ha, h⟩ := bind_eq_ok.1 h
      cases h
      exact archive_effects ha hfind rfl ⟨row, rfl, by simpa using hns, rfl⟩

theorem archivePendingRows_effects (hlive : ∀ r ∈ rows, db.jobs.find r.id = some r)
    (hnd : (rows.map Job.id).Nodup)
    (hA : ∀ r ∈ rows, A (.archive r { r.finished .cancelled now with error := some error }))
    (h : archivePendingRows now error rows db = .ok db') : Effects A db db' := by
  induction rows generalizing db with
  | nil =>
    cases h
    exact refl _
  | cons row rest ih =>
    obtain ⟨_, ha, h⟩ := bind_eq_ok.1 h
    rw [map_cons, nodup_cons] at hnd
    refine (archive_effects ha (hlive row (by simp)) rfl (hA row (by simp))).trans ?_
    refine ih (fun r hr => ?_) hnd.2 (fun r hr => hA r (by simp [hr])) h
    have hne : r.id ≠ row.id := fun e => hnd.1 (e ▸ mem_map_of_mem hr)
    exact (find_jobs_archive ha r.id).trans ((if_neg hne).trans (hlive r (by simp [hr])))

theorem nodup_ids_of_sublist (h : rows.Sublist t.rows) : (rows.map Job.id).Nodup :=
  t.nodup_key.sublist (h.map _)

theorem cascadeArchive_effects {root : JobId} {reason : String}
    (h : cascadeArchive ids (reason ++ ": " ++ root) ns now db = .ok (a, db')) :
    Effects (StoreOp.cascadeArchive root reason ids ns now).Effects db db' := by
  obtain ⟨_, ha, h⟩ := bind_eq_ok.1 h
  cases h
  refine archivePendingRows_effects (fun r hr => ?_) (nodup_ids_of_sublist filter_sublist)
    (fun r hr => ?_) ha
  · exact find_of_mem (mem_select.1 hr).1
  · obtain ⟨hid, hs, -⟩ := of_decide_eq_true (mem_select.1 hr).2
    exact ⟨r, hid, hs, rfl⟩

theorem archivePendingBatch_effects {sweep : PendingSweep} {a : Nat}
    (h : archivePendingBatch now sweep.error (sweep.filter now) db = .ok (a, db')) :
    Effects (StoreOp.archivePending sweep now).Effects db db' := by
  obtain ⟨_, ha, h⟩ := bind_eq_ok.1 h
  cases h
  refine archivePendingRows_effects (fun r hr => ?_)
    (nodup_ids_of_sublist ((take_sublist _ _).trans filter_sublist))
    (fun r hr => ?_) ha
  · exact find_of_mem (mem_select.1 (mem_of_mem_take hr)).1
  · have hp := (mem_select.1 (mem_of_mem_take hr)).2
    rw [Bool.and_eq_true] at hp
    exact ⟨r, of_decide_eq_true hp.1, rfl⟩

/-! ## Steps -/

/-- **The fence.** It passes only for a running job at the caller's attempt, visible to the
caller, whose claim is the caller's or missing; it changes nothing but a missing claim. -/
theorem resolveStepFence_ok
    (h : resolveStepFence jobId owner attempt ns reassert now db = .ok (jobNs, db')) :
    ∃ job, db.jobs.find jobId = some job ∧ jobInNamespace job.namespace_ ns = true ∧
      job.status = .running ∧ job.retryCount = attempt ∧ jobNs = job.namespace_ ∧
      ((db.executionClaims.find jobId).map ExecutionClaim.workerId = some owner ∧ db' = db ∨
        db.executionClaims.find jobId = none ∧ (db' = db ∨
          db.executionClaims.insert ⟨jobId, owner, now⟩ = some db'.executionClaims ∧
          db' = { db with executionClaims := db'.executionClaims })) := by
  unfold resolveStepFence at h
  split at h
  · cases h
  · next job hjob =>
    split at h
    · cases h
    · next hguard =>
      simp only [not_or, not_not, ne_eq] at hguard
      obtain ⟨hns, hs, hrc⟩ := hguard
      refine ⟨job, hjob, hns, hs, hrc, ?_⟩
      split at h
      · next _ hclaim =>
        split at h
        · next howner =>
          cases h
          exact ⟨rfl, .inl ⟨by rw [hclaim, map_some, howner], rfl⟩⟩
        · cases h
      · next hclaim =>
        split at h
        · split at h
          · next _ hins =>
            cases h
            exact ⟨rfl, .inr ⟨hclaim, .inr ⟨hins, rfl⟩⟩⟩
          · cases h
        · cases h
          exact ⟨rfl, .inr ⟨hclaim, .inl rfl⟩⟩

theorem claim_of_insert {worker : String}
    (hins : db.executionClaims.insert ⟨id, worker, now⟩ = some db'.executionClaims)
    (hdb : db' = { db with executionClaims := db'.executionClaims }) :
    (claim id none worker).Holds db db' := by
  have hfresh : db.executionClaims.find id = none := find_of_insert hins
  refine ⟨by rw [Db.owner, hfresh, map_none], fun k => ?_, hdb⟩
  rw [Db.owner, find_insert hins]
  by_cases hk : k = id
  · simp [hk]
  · simp [hk, Db.owner]

/-- What a passed fence did to the tables. -/
theorem resolveStepFence_effects (hA : A (.claim jobId none owner))
    (h : resolveStepFence jobId owner attempt ns reassert now db = .ok (jobNs, db')) :
    Effects A db db' ∧ ∃ job, db'.jobs.find jobId = some job ∧ job.status = .running := by
  obtain ⟨job, hjob, -, hs, -, -, hcase⟩ := resolveStepFence_ok h
  obtain ⟨-, rfl⟩ | ⟨-, rfl | ⟨hins, hdb⟩⟩ := hcase
  · exact ⟨refl _, job, hjob, hs⟩
  · exact ⟨refl _, job, hjob, hs⟩
  · refine ⟨single hA (claim_of_insert hins hdb), job, ?_, hs⟩
    rw [hdb]
    exact hjob

theorem insertStepRow_ok {wakeAt : Option Int}
    (h : insertStepRow step jobNs wakeAt now db = .ok db') :
    db.jobSteps.insert (step.toRow jobNs wakeAt now) = some db'.jobSteps ∧
      db' = { db with jobSteps := db'.jobSteps } := by
  unfold insertStepRow at h
  split at h
  · next _ hins =>
    cases h
    exact ⟨hins, rfl⟩
  · cases h

/-- A commit that passed the position check is the next one, under a new key. -/
theorem checkStepPosition_ok {seq : Int}
    (h : checkStepPosition jobId seq stepKey committed db = .ok u) :
    seq = committed ∧ ∀ s ∈ stepRows jobId db, s.stepKey ≠ stepKey := by
  unfold checkStepPosition at h
  split at h
  · cases h
  · next hnone =>
    split at h
    · cases h
    · next hseq =>
      refine ⟨not_not.1 hseq, fun s hs hkey => ?_⟩
      have := List.find?_eq_none.1 hnone s hs
      simp [hkey] at this

theorem checkStepCount_ok (h : checkStepCount committed stepKey limits = .ok u) :
    committed + 1 ≤ limits.maxSteps := by
  unfold checkStepCount at h
  split at h
  · cases h
  · next hle => exact Nat.le_of_not_lt hle

/-- **A commit behind the fence** replays what is stored and changes nothing, or writes the
next step within the limits. -/
theorem commitStep_ok {c : StepCommit} (h : commitStep step limits jobNs now db = .ok (c, db'))
    (hrun : ∃ job, db.jobs.find step.jobId = some job ∧ job.status = .running) :
    (c = .alreadyCommitted ∧ db' = db) ∨
    (c = .committed ∧ (Effect.step (step.toRow jobNs none now) limits true).Holds db db') := by
  unfold commitStep at h
  split at h
  · next _ _ =>
    obtain ⟨_, hr, h⟩ := bind_eq_ok.1 h
    cases h
    unfold replayStep at hr
    split at hr
    · cases hr
    · split at hr
      · cases hr
        exact .inl ⟨rfl, rfl⟩
      · cases hr
  · dsimp only at h
    obtain ⟨_, hpos, h⟩ := bind_eq_ok.1 h
    obtain ⟨_, hcount, h⟩ := bind_eq_ok.1 h
    split at h
    · cases h
    · next hbytes =>
      obtain ⟨_, hi, h⟩ := bind_eq_ok.1 h
      cases h
      obtain ⟨hins, hdb⟩ := insertStepRow_ok hi
      exact .inr ⟨rfl, hrun, (checkStepPosition_ok hpos).1, checkStepCount_ok hcount,
        fun _ => Nat.le_of_not_lt hbytes, hins, hdb⟩

theorem commitSleep_ok (h : commitSleep step wakeAt limits jobNs now db = .ok (o, db'))
    (hrun : ∃ job, db.jobs.find step.jobId = some job ∧ job.status = .running) :
    db' = db ∨ (Effect.step (step.toRow jobNs (some wakeAt) now) limits false).Holds db db' := by
  unfold commitSleep at h
  split at h
  · obtain ⟨_, -, h⟩ := bind_eq_ok.1 h
    cases h
    exact .inl rfl
  · dsimp only at h
    obtain ⟨_, hpos, h⟩ := bind_eq_ok.1 h
    obtain ⟨_, hcount, h⟩ := bind_eq_ok.1 h
    obtain ⟨_, hi, h⟩ := bind_eq_ok.1 h
    cases h
    obtain ⟨hins, hdb⟩ := insertStepRow_ok hi
    exact .inr ⟨hrun, (checkStepPosition_ok hpos).1, checkStepCount_ok hcount,
      fun hf => (nomatch hf), hins, hdb⟩

theorem recordStepResult_effects {c : StepCommit}
    (h : recordStepResult step owner attempt limits ns now db = .ok (c, db')) :
    Effects (StoreOp.recordStepResult step owner attempt limits ns now).Effects db db' := by
  unfold recordStepResult at h
  dsimp only at h
  split at h
  · cases h
  · obtain ⟨⟨jobNs, _⟩, hf, h⟩ := bind_eq_ok.1 h
    obtain ⟨he, hrun⟩ := resolveStepFence_effects
      (A := (StoreOp.recordStepResult step owner attempt limits ns now).Effects) (.inl rfl) hf
    obtain ⟨-, rfl⟩ | ⟨-, hs⟩ := commitStep_ok h hrun
    · exact he
    · exact he.trans (single (.inr ⟨jobNs, rfl⟩) hs)

theorem suspendJob_effects (hclaims : A .unclaim)
    (hA : ∀ row, row.id = jobId → row.status = .running → A (.edit row (row.backToPending wakeAt)))
    (h : suspendJob jobId wakeAt db = .ok db') : Effects A db db' := by
  unfold suspendJob at h
  dsimp only at h
  split at h
  · cases h
  · cases h
    refine (update_effects _ (fun j hj => (of_decide_eq_true hj).1) fun row hp => ?_).trans
      (single hclaims (deleteClaim_holds jobId _))
    obtain ⟨hid, hs⟩ := of_decide_eq_true hp
    exact hA row hid hs

theorem sleepJob_effects (h : sleepJob step owner attempt wakeAt limits ns now db = .ok (o, db')) :
    Effects (StoreOp.sleepJob step owner attempt wakeAt limits ns now).Effects db db' := by
  obtain ⟨⟨jobNs, _⟩, hf, h⟩ := bind_eq_ok.1 h
  obtain ⟨⟨_, db₂⟩, hc, h⟩ := bind_eq_ok.1 h
  obtain ⟨_, hsus, h⟩ := bind_eq_ok.1 h
  cases h
  obtain ⟨he, hrun⟩ := resolveStepFence_effects
    (A := (StoreOp.sleepJob step owner attempt wakeAt limits ns now).Effects) (.inl rfl) hf
  have hsuspend : Effects (StoreOp.sleepJob step owner attempt wakeAt limits ns now).Effects
      db₂ db' :=
    suspendJob_effects (.inr (.inl rfl))
      (fun row hid hs => .inr (.inr (.inr ⟨row, _, hid, hs, rfl⟩))) hsus
  obtain rfl | hs := commitSleep_ok hc hrun
  · exact he.trans hsuspend
  · exact (he.trans (single (.inr (.inr (.inl ⟨jobNs, rfl⟩))) hs)).trans hsuspend

/-! ## Claims -/

theorem claimExecution_effects {a : Bool} (h : claimExecution id workerId now db = .ok (a, db')) :
    Effects (· = .claim id none workerId) db db' := by
  unfold claimExecution at h
  split at h
  · next _ hins =>
    cases h
    exact single rfl (claim_of_insert hins rfl)
  · cases h
    exact refl _

theorem claimExecutionBatch_effects {a : List Bool}
    (h : claimExecutionBatch workerId now ids db = .ok (a, db')) :
    Effects (fun e => ∃ id ∈ ids, e = .claim id none workerId) db db' := by
  induction ids generalizing db a with
  | nil =>
    cases h
    exact refl _
  | cons id rest ih =>
    obtain ⟨⟨_, _⟩, h₁, h⟩ := bind_eq_ok.1 h
    obtain ⟨⟨_, _⟩, h₂, h⟩ := bind_eq_ok.1 h
    cases h
    refine ((claimExecution_effects h₁).mono fun e he => ?_).trans ((ih h₂).mono fun e he => ?_)
    · exact ⟨id, by simp, he⟩
    · obtain ⟨id', hid', he⟩ := he
      exact ⟨id', by simp [hid'], he⟩

theorem reclaimExecution_effects {expectedOwner newOwner : String} {a : Bool}
    (h : reclaimExecution id expectedOwner newOwner now db = .ok (a, db')) :
    Effects (· = .claim id (some expectedOwner) newOwner) db db' := by
  unfold reclaimExecution at h
  cases h
  by_cases hex : ∃ c ∈ db.executionClaims.rows, c.jobId = id ∧ c.workerId = expectedOwner
  · obtain ⟨c, hc, hid, howner⟩ := hex
    have hfind : db.executionClaims.find id = some c := hid ▸ find_of_mem hc
    refine single rfl ⟨by rw [Db.owner, hfind, map_some, howner], fun k => ?_, rfl⟩
    simp only [Db.owner]
    rw [find_update, find_map_updated hc (by simp [transferable, hid, howner])
      (fun c' hc' => (of_decide_eq_true hc').1.trans hid.symm), executionClaimsSchema_key, hid]
    split <;> rfl
  · rw [update_eq_self]
    · exact refl _
    · intro c hc
      refine decide_eq_false fun hmatch => hex ⟨c, hc, hmatch⟩

/-! ## Dead letters and purges -/

theorem deadLetter_effects {dlqId : String} {metadata : Option String} {count : Int}
    {shed : Bool} (h : deadLetter job dlqId error metadata count shed now db = .ok (a, db')) :
    Effects (StoreOp.deadLetter job dlqId error metadata count shed now).Effects db db' := by
  unfold deadLetter at h
  split at h
  · cases h
  · next entries hins =>
    have hentry : Effects (StoreOp.deadLetter job dlqId error metadata count shed now).Effects db
        { db with deadLetter := entries } := single (.inl rfl) ⟨hins, rfl⟩
    dsimp only at h
    split at h
    · cases h
      exact hentry
    · next row hrow =>
      obtain ⟨_, ha, h⟩ := bind_eq_ok.1 h
      cases h
      have hid : row.id = job.id := find_key hrow
      have hlive : db.jobs.find row.id = some row := by
        rw [hid]
        exact hrow
      exact hentry.trans (archive_effects ha hlive rfl (.inr ⟨row, hid, rfl⟩))

theorem retryDead_effects {row : DeadLetterRow} {metadata : String}
    (h : retryDead (row.draft metadata id now).job row.id db = .ok (a, db')) :
    Effects (StoreOp.retryDead row metadata id now).Effects db db' := by
  obtain ⟨db₁, hi, h⟩ := bind_eq_ok.1 h
  have hinsert : insertWithDependencies (row.draft metadata id now).job [] db = .ok db₁ := by
    simp [insertWithDependencies, validateDependencies, hi, insertDependencyRows,
      bind, Except.bind, pure, Except.pure]
  split at h
  · cases h
  · cases h
    refine (single (.inl rfl) (insertWithDependencies_holds hinsert)).trans
      (single (.inr rfl) ⟨fun k => ?_, rfl⟩)
    exact find_delete_or _ _ k

/-! ## The table of effects -/

/-- **Every transaction has the effects it declares.** -/
theorem exec_effects (op : StoreOp) (db : Db) : Effects op.Effects db (op.exec db).2 := by
  cases op with
  | enqueue => exact of_body fun _ _ h => single rfl (enqueue_effects h)
  | enqueueBatch => exact of_body fun _ _ h => single rfl (enqueueBatch_effects h)
  | enqueueDebounced => exact of_body fun _ _ h => enqueueDebounced_effects h
  | enqueueUnique => exact of_body fun _ _ h => enqueueUnique_effects h
  | enqueueUniqueBatch =>
    refine of_body fun _ _ h => (enqueueUniqueBatch_effects h).mono ?_
    rintro _ ⟨_, hj, rfl⟩
    obtain ⟨d, hd, rfl⟩ := mem_map.1 hj
    exact ⟨d, hd, rfl⟩
  | dequeue => exact of_body fun _ _ h => (dequeueOrdered_walk h).effects
  | dequeueBatch =>
    exact of_body fun _ _ h => (dequeueBatchOrdered_walk h).effects
  | complete => exact of_body fun _ _ h => complete_effects h
  | completeBatch => exact of_body fun _ _ h => completeBatch_effects h
  | fail => exact of_body fun _ _ h => fail_effects h
  | retry => exact of_body fun _ _ h => retry_effects h
  | reschedule => exact of_body fun _ _ h => reschedule_effects h
  | requeueStuck => exact of_body fun _ _ h => requeueStuck_effects h
  | cancelPending => exact of_body fun _ _ h => cancelPending_effects h
  | requestCancel => exact of_body fun _ _ h => requestCancel_effects h
  | markCancelled => exact of_body fun _ _ h => markCancelled_effects h
  | cascadeArchive => exact of_body fun _ _ h => cascadeArchive_effects h
  | updateProgress => exact of_body fun _ _ h => updateProgress_effects h
  | recordStepResult =>
    exact of_body fun _ _ h => recordStepResult_effects h
  | sleepJob =>
    exact of_body fun _ _ h => sleepJob_effects h
  | claimExecution => exact of_body fun _ _ h => claimExecution_effects h
  | claimExecutionBatch => exact of_body fun _ _ h => claimExecutionBatch_effects h
  | deleteClaim id => exact single rfl (deleteClaim_holds id db)
  | reclaimExecution =>
    exact of_body fun _ _ h => reclaimExecution_effects h
  | purgeExecutionClaims | purgeDead => exact single rfl ⟨find_delete_or _ _, rfl⟩
  | deadLetter =>
    exact of_body fun _ _ h => deadLetter_effects h
  | retryDead => exact of_body fun _ _ h => retryDead_effects h
  | purgeArchived | recordError | recordMetric =>
    exact single rfl rfl
  | archivePending => exact of_body fun _ _ h => archivePendingBatch_effects h
  | _ => exact refl db

end Flexiq
