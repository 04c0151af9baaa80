import Flexiq.RoundFrame

/-!
# Rescuing the jobs of a dead worker

Every surviving scheduler sweeps for the jobs of dead workers on its own: it lists the live
workers, lists the running jobs whose claim belongs to nobody on that list, and for each of them
tries to **transfer the claim** to itself. Whoever wins the transfer handles a made-up failure of
the run, which costs the job one retry or moves it to the dead letters.

Nothing but the transfer keeps two sweeps apart. It asks for the claim of the worker that died, a
survivor writes only its own name, and a sweep never writes another: once a job is out of the
hands of the dead it stays so (`Adopted`). So a death is used up at most once per job, and what a
worker on everybody's list holds is never asked for (`orphan_rescue_exclusive`).

To say *because of which death* a job was charged, the machine keeps the transfer each scheduler
won last, and the charges with the owner that the transfer named. Nothing reads either.
-/

namespace Flexiq

open Function List Option SchedOp

variable {db : Db} {e : Execution} {id k : JobId} {owner : String}
variable {now : Int} {expected worker : String}

structure RescueState (σ : Type) where
  sched : SchedState σ
  /-- The run each scheduler won last, and the owner it took the claim from. -/
  rescuing : σ → Option (Execution × String)
  /-- The runs whose job a rescue changed, with the owner the claim was taken from. -/
  consumed : List (Execution × Option String)

/-- Schedulers that have rescued nothing, on the given store. -/
def RescueState.init {σ : Type} (db : Db) : RescueState σ := ⟨.init db, fun _ => none, []⟩

/-- The transfer an operation won. -/
def SchedOp.won {σ : Type} : (op : SchedOp σ) → op.Res → Option (σ × Execution × String)
  | .store s (.rescue e) (.reclaimExecution _ owner _ _), some (.ok true) => some (s, e, owner)
  | _, _ => none

/-- The rescue an operation is part of. -/
def SchedOp.rescuer {σ : Type} : SchedOp σ → Option (σ × Execution)
  | .store s (.rescue e) _ => some (s, e)
  | _ => none

/-- What each scheduler won last, after one of them may have won a transfer. -/
def RescueState.noted {σ : Type} [DecidableEq σ] (st : RescueState σ) :
    Option (σ × Execution × String) → σ → Option (Execution × String)
  | some (s, e, owner) => update st.rescuing s (some (e, owner))
  | none => st.rescuing

/-- The account after an operation: a transfer that was won is noted, and so is a change to the
job that a rescue is about. -/
def RescueState.execute {σ : Type} [DecidableEq σ] (op : SchedOp σ) (w : World)
    (st : RescueState σ) : op.Res × RescueState σ :=
  let r := op.exec w st.sched
  (r.1, {
    sched := r.2
    rescuing := st.noted (op.won r.1)
    consumed :=
      match op.rescuer with
      | some (s, e) =>
        if r.2.db.stored e.job = st.sched.db.stored e.job then st.consumed
        else (e, (st.rescuing s).map Prod.snd) :: st.consumed
      | none => st.consumed })

open RescueState (execute noted)

/-- Schedulers that sweep for orphans, as a machine. -/
abbrev rescueMachine (σ : Type) [DecidableEq σ] : Machine (schedSig σ) :=
  ⟨RescueState σ, World, RescueState.execute⟩

section

variable {σ : Type} (cfg : σ → Scheduler)

/-- A scheduler sweeps at some time. -/
abbrev rescueClients : Clients (schedSig σ) :=
  ⟨σ × Int, fun call => Sched.recoverOrphanedJobs cfg call.1 call.2⟩

/-- The answer to a question for live workers names, with the scheduler itself, everyone in
`live`. -/
def SchedOp.Names (live : List String) : SchedOp σ → World → Prop
  | .listLiveWorkerIds s _, w => ∀ x ∈ live, x ∈ w.names ++ [(cfg s).claimOwner]
  | _, _ => True

instance (live : List String) (op : SchedOp σ) (w : World) : Decidable (op.Names cfg live w) := by
  unfold SchedOp.Names
  split <;> infer_instance

/-- Every scheduler has one maintenance loop, and the workers in `live` are on every list of live
workers. Lists, clocks, failing calls and the order of the steps are arbitrary. -/
abbrev rescueRules [DecidableEq σ] (live : List String) :
    Rules (rescueMachine σ) (rescueClients cfg) σ where
  mayStart _ t call := call.1 = t
  mayStep _ _ op w := op.Names cfg live w

/-- No survivor goes by this name. -/
def IsDead (owner : String) : Prop := ∀ s, (cfg s).claimOwner ≠ owner

/-- The job is out of the hands of the dead: unclaimed, or claimed by a survivor. -/
def Adopted (db : Db) (j : JobId) : Prop := ∀ owner, db.owner j = some owner → ¬ IsDead cfg owner

variable {cfg}

theorem Adopted.of_drop {db' : Db} {j : JobId} (h : Adopted cfg db j)
    (howner : db'.owner j = none ∨ db'.owner j = db.owner j) : Adopted cfg db' j := by
  intro owner hown
  obtain hnone | hsame := howner
  · rw [hnone] at hown
    cases hown
  · exact h owner (hsame ▸ hown)

end

namespace Rescue

open Prog

/-! ## The discipline -/

section

variable {σ α β : Type} {cfg : σ → Scheduler} {live : List String}

/-- What a sweep knows: whose it is, and the run it won and has not settled. -/
structure Bid (σ : Type) where
  me : σ
  current : Option (Execution × String)

/-- The call is part of the rescue of a run of this job, which the sweep won. -/
def Bid.Holds (b : Bid σ) (s : σ) (why : Cause) (id : JobId) : Prop :=
  s = b.me ∧ ∃ e owner, why = .rescue e ∧ e.job = id ∧ b.current = some (e, owner)

/-- The transactions of a sweep. -/
def Bid.permitsStore (cfg : σ → Scheduler) (live : List String) (b : Bid σ) (s : σ)
    (why : Cause) : StoreOp → Prop
  | .retry id _ _ | .deleteClaim id => b.Holds s why id
  | .deadLetter job _ _ _ _ _ _ => b.Holds s why job.id
  | .cascadeArchive root _ ids _ _ => (∃ e, why = .rescue e ∧ e.job = root) ∧ root ∉ ids
  | .reclaimExecution id expected worker _ =>
    s = b.me ∧ (∃ e, why = .rescue e ∧ e.job = id) ∧ worker = (cfg s).claimOwner ∧ expected ∉ live
  | .reapOrphanedJobs alive _ => live ⊆ alive
  | op => op.isSide = true

/-- What they answer. -/
def Bid.expectsStore : (op : StoreOp) → op.Res → Prop
  | .getJob id _, r => ∀ job ∈ r, job.id = id
  | .reapOrphanedJobs alive _, orphans => ∀ o ∈ orphans, o.2 ∉ alive
  | _, _ => True

/-- The run that is settled by a transaction, or won by it. -/
def Bid.nextStore (b : Bid σ) (why : Cause) : (op : StoreOp) → op.Res → Bid σ
  | .reclaimExecution _ owner _ _, .ok true =>
    match why with
    | .rescue e => { b with current := some (e, owner) }
    | _ => b
  | .retry _ _ _, .ok _ | .deadLetter _ _ _ _ _ _ _, .ok _ => { b with current := none }
  | _, _ => b

/-- The operations of a sweep. -/
def Bid.permits (cfg : σ → Scheduler) (live : List String) (b : Bid σ) : SchedOp σ → Prop
  | .store s why op => b.permitsStore cfg live s why op
  | .client _ | .trySend _ _ | .stop _ => False
  | _ => True

/-- The answers of the operations of a sweep. -/
def Bid.expects (cfg : σ → Scheduler) (live : List String) : (op : SchedOp σ) → op.Res → Prop
  | .store _ _ op, some r => Bid.expectsStore op r
  | .listLiveWorkerIds s _, some alive => live ⊆ alive ++ [(cfg s).claimOwner]
  | _, _ => True

/-- What the sweep knows after an answer. -/
def Bid.next (b : Bid σ) : (op : SchedOp σ) → op.Res → Bid σ
  | .store _ why op, some r => b.nextStore why op r
  | _, _ => b

/-- A sweep settles only runs it won, once, and asks for no claim of a worker in `live`. -/
def rescueDiscipline (cfg : σ → Scheduler) (live : List String) :
    Discipline (schedSig σ) (Bid σ) where
  permits := Bid.permits cfg live
  expects _ := Bid.expects cfg live
  next := Bid.next
  done _ := True

/-! ## The sweep keeps to it -/

instance : (rescueDiscipline cfg live).Steady where
  quiet b op hop := by
    cases op with
    | store s why op =>
      have hside : b.permitsStore cfg live s why op ∧ ∀ r, b.nextStore why op r = b := by
        cases op <;> first | exact ⟨rfl, fun _ => rfl⟩ | cases hop
      refine ⟨hside.1, fun r => ?_⟩
      rcases r with _ | r
      · rfl
      · exact hside.2 r
    | client op => cases hop
    | _ => first | exact ⟨trivial, fun _ => rfl⟩ | cases hop

variable {s : σ} {b : Bid σ}

theorem Bid.Holds.rules (h : b.Holds s (.rescue e) e.job) :
    FailureRules cfg (rescueDiscipline cfg live) s (.rescue e) e.job b fun _ => True where
  stay := trivial
  retry _ _ := ⟨h, fun _ => trivial⟩
  release := ⟨h, fun _ => trivial⟩
  deadLetter _ job hjob _ _ := by
    have hid : job.id = e.job := hjob job rfl
    have hjob : b.Holds s (.rescue e) job.id := hid ▸ h
    refine follows_deadLetter fun dlqId count now => ⟨⟨hjob, fun _ => trivial⟩, ?_⟩
    exact fun ids ns hids => ⟨⟨⟨e, rfl, hid.symm⟩, hids⟩, fun _ => trivial⟩

theorem Bid.Holds.handle {job : Job} (h : b.Holds s (.rescue ⟨job.id, job.retryCount⟩) job.id) :
    (Sched.handleResult cfg s (.rescue ⟨job.id, job.retryCount⟩)
      (Sched.rescueResult job owner)).Follows (rescueDiscipline cfg live) b fun _ _ => True := by
  refine follows_handleResult (R := fun _ => True) (P := (· = b)) ?_ (fun _ _ => trivial) ?_
  · exact follows_authorizeFinished trivial fun _ _ => rfl
  · rintro _ rfl
    exact follows_handleFailure h.rules

theorem follows_me {p : SchedProg σ α} {Q : Bid σ → α → Prop}
    (h : p.Follows (rescueDiscipline cfg live) b Q) :
    p.Follows (rescueDiscipline cfg live) b fun b' _ => b'.me = b.me := by
  have hnext : ∀ (b : Bid σ) (op : SchedOp σ) (r : op.Res), (b.next op r).me = b.me := by
    intro b op r
    unfold Bid.next
    split
    · unfold Bid.nextStore
      split
      · split <;> rfl
      · rfl
      · rfl
      · rfl
    · rfl
  induction p generalizing b with
  | ret => rfl
  | call op k ih =>
    refine ⟨h.1, fun r hr => (ih r (h.2 r hr)).mono fun b' _ hb' => ?_⟩
    exact hb'.trans (hnext b op r)

theorem follows_rescueOrphan (job : Job) (howner : owner ∉ live) (hb : b.me = s) :
    (Sched.rescue cfg s job owner).Follows (rescueDiscipline cfg live) b fun b' _ => b'.me = s := by
  subst hb
  refine follows_me (Q := fun _ _ => True) (follows_rescue fun now => ⟨⟨?_, fun _ => trivial⟩, ?_⟩)
  · exact ⟨rfl, ⟨_, rfl, rfl⟩, rfl, howner⟩
  · exact ⟨trivial, fun _ => Bid.Holds.handle ⟨rfl, _, _, rfl, rfl, rfl⟩⟩

theorem follows_recoverOrphanedJobs (s : σ) (now : Int) (hb : b.me = s) :
    (Sched.recoverOrphanedJobs cfg s now).Follows (rescueDiscipline cfg live) b
      fun _ _ => True := by
  refine .bind (.perform trivial fun alive halive => ?_)
  rcases alive with _ | _
  · trivial
  · refine Follows.bind (Follows.txn halive trivial fun orphans horphans => ?_)
    refine (Follows.forEach (fun b' : Bid σ => b'.me = s) hb fun o ho b' hb' => ?_).mono
      fun _ _ _ => trivial
    exact follows_rescueOrphan o.1 (fun hlive => horphans o ho (halive hlive)) hb'

end

/-! ## What a sweep's transactions do -/

section

variable {σ : Type} {cfg : σ → Scheduler}

theorem retry_leaves (hk : k ≠ id) (next : Int) (ns : Option String) (db : Db) :
    ((StoreOp.retry id next ns).exec db).2.stored k = db.stored k ∧
      ((StoreOp.retry id next ns).exec db).2.owner k = db.owner k := by
  simp only [StoreOp.exec]
  obtain ⟨_, -, hw⟩ | ⟨_, _, hbody, hw⟩ := writeTransaction_cases (Flexiq.retry id next ns) db
  · rw [hw]
    exact ⟨rfl, rfl⟩
  · rw [hw]
    obtain ⟨row, mid, rfl, -, hedit, rfl⟩ := retry_ok hbody
    have hleaves : (Effect.edit row
        { row.backToPending next with retryCount := row.retryCount + 1 }).Leaves k :=
      fun heq => hk heq.symm
    have hstored : mid.stored k = db.stored k := stored_of_effect hleaves.spares hedit
    refine ⟨hstored, ?_⟩
    exact ((owner_deleteClaim row.id k mid).trans (if_neg hk)).trans (owner_of_leaves hleaves hedit)

theorem deadLetter_leaves {job : Job} (hk : k ≠ job.id) (dlqId error : String)
    (metadata : Option String) (count : Int) (shed : Bool) (now : Int) (db : Db) :
    ((StoreOp.deadLetter job dlqId error metadata count shed now).exec db).2.stored k =
        db.stored k ∧
      ((StoreOp.deadLetter job dlqId error metadata count shed now).exec db).2.owner k =
        db.owner k := by
  refine exec_of_leaves ?_ db
  rintro _ (rfl | ⟨_, hid, rfl⟩)
  · exact fun heq => hk heq.symm
  · exact fun heq => hk (heq.symm.trans hid)

variable {root : JobId} {ids : List JobId}

theorem cascade_leaves {row : Job} (hrow : db.jobs.find k = some row) (hrun : row.status = .running)
    {reason : String} {ns : Option String} :
    ((StoreOp.cascadeArchive root reason ids ns now).exec db).2.stored k = db.stored k ∧
      ((StoreOp.cascadeArchive root reason ids ns now).exec db).2.owner k = db.owner k := by
  refine (exec_effects (.cascadeArchive root reason ids ns now) db).invariant
    (P := fun mid => mid.stored k = db.stored k ∧ mid.owner k = db.owner k) ?_ ⟨rfl, rfl⟩
  rintro _ mid _ ⟨first, -, hpend, rfl⟩ h ⟨hmid, howner⟩
  have hne : first.id ≠ k := by
    rintro rfl
    have hfind : mid.jobs.find first.id = some row := (congrArg Prod.fst hmid).trans hrow
    cases h.1.symm.trans hfind
    rw [hpend] at hrun
    cases hrun
  exact ⟨(stored_of_effect (e := .archive first _) hne h).trans hmid,
    (owner_of_leaves (e := .archive first _) hne h).trans howner⟩

theorem cascade_root (hroot : root ∉ ids) (reason : String) (ns : Option String) (now : Int)
    (db : Db) :
    ((StoreOp.cascadeArchive root reason ids ns now).exec db).2.stored root = db.stored root := by
  refine stored_of_spares ?_ db
  rintro _ ⟨_, hid, -, rfl⟩ rfl
  exact hroot hid

theorem reclaim_claims (id : JobId) (expected worker : String) (now : Int) (db : Db) :
    Claims [id] (some expected) worker db
      ((StoreOp.reclaimExecution id expected worker now).exec db).2 :=
  .exec db fun _ he => ⟨id, mem_singleton.2 rfl, he⟩

theorem reclaim_stored :
    ((StoreOp.reclaimExecution id expected worker now).exec db).2.stored k = db.stored k := by
  rw [(reclaim_claims id expected worker now db).rest]
  rfl

theorem reclaim_owner (hk : db.owner k ≠ some expected) :
    ((StoreOp.reclaimExecution id expected worker now).exec db).2.owner k = db.owner k := by
  obtain hsame | ⟨-, hbefore, -⟩ := (reclaim_claims id expected worker now db).owner k
  · exact hsame
  · exact absurd hbefore hk

/-- What a survivor writes is its own name. -/
theorem reclaim_adopted {s : σ} (h : Adopted cfg db k) :
    Adopted cfg ((StoreOp.reclaimExecution id expected (cfg s).claimOwner now).exec db).2 k := by
  intro owner howner
  obtain hsame | ⟨-, -, hmine⟩ := (reclaim_claims id expected (cfg s).claimOwner now db).owner k
  · exact h owner (hsame ▸ howner)
  · exact fun hdead => hdead s (some.inj (hmine.symm.trans howner))

theorem side_leaves {op : StoreOp} (h : op.isSide = true) :
    (op.exec db).2.stored k = db.stored k ∧ (op.exec db).2.owner k = db.owner k := by
  refine exec_of_leaves (fun e he => ?_) db
  cases op <;> first | exact he.elim | (rw [show e = _ from he]; trivial) | cases h

end

/-! ## The invariant -/

section

variable {σ : Type} [DecidableEq σ] {cfg : σ → Scheduler} {live : List String} {db₀ : Db}

/-- The sweep won a run of the job from a dead worker and has not settled it. -/
def Bid.Took (cfg : σ → Scheduler) (b : Bid σ) (j : JobId) : Prop :=
  ∃ e owner, b.current = some (e, owner) ∧ e.job = j ∧ IsDead cfg owner

/-- The entry charges the job for the death of a worker. -/
def Charges (cfg : σ → Scheduler) (x : Execution × Option String) (j : JobId) : Prop :=
  x.1.job = j ∧ ∃ owner, x.2 = some owner ∧ IsDead cfg owner

/-- At first the job ran for a worker in `live`. -/
def Protected (live : List String) (db₀ : Db) (j : JobId) : Prop :=
  ∃ w ∈ live, db₀.owner j = some w ∧ ∃ row, db₀.jobs.find j = some row ∧ row.status = .running

/-- The rescues so far: of every job that was won from the dead at most one sweep or one charge
has it, and the protected jobs are as they were. -/
structure Exclusive (cfg : σ → Scheduler) (live : List String) (db₀ : Db) (st : RescueState σ)
    (G : σ → Bid σ) : Prop where
  me : ∀ s, (G s).me = s
  rescuing : ∀ {s x}, (G s).current = some x → st.rescuing s = some x ∧ x.2 ∉ live
  named : ∀ x ∈ st.consumed, ∃ owner, x.2 = some owner ∧ owner ∉ live
  adopted : ∀ {s j}, (G s).Took cfg j → Adopted cfg st.sched.db j
  alone : ∀ {s s' j}, (G s).Took cfg j → (G s').Took cfg j → s = s'
  unsettled : ∀ {s j}, (G s).Took cfg j → ∀ x ∈ st.consumed, ¬ Charges cfg x j
  settled : ∀ {x j}, x ∈ st.consumed → Charges cfg x j → Adopted cfg st.sched.db j
  once : ∀ j, st.consumed.Pairwise fun x y => ¬ (Charges cfg x j ∧ Charges cfg y j)
  kept : ∀ {j}, Protected live db₀ j →
    (st.sched.db.stored j = db₀.stored j ∧ st.sched.db.owner j = db₀.owner j) ∧
      ∀ s x, (G s).current = some x → x.1.job ≠ j

/-- A step leaves the protected jobs alone. -/
abbrev Spares (live : List String) (db₀ db db' : Db) : Prop :=
  ∀ j, Protected live db₀ j → db'.stored j = db.stored j ∧ db'.owner j = db.owner j

namespace Exclusive

variable {st st' : RescueState σ} {G : σ → Bid σ}

omit [DecidableEq σ] in
/-- A step that writes no claim and leaves the protected jobs alone. -/
theorem frame (h : Exclusive cfg live db₀ st G) (hr : st'.rescuing = st.rescuing)
    (hc : st'.consumed = st.consumed)
    (hdrop : ∀ j, Adopted cfg st.sched.db j → Adopted cfg st'.sched.db j)
    (hkept : Spares live db₀ st.sched.db st'.sched.db) : Exclusive cfg live db₀ st' G where
  me := h.me
  rescuing hx := hr ▸ h.rescuing hx
  named := hc ▸ h.named
  adopted ht := hdrop _ (h.adopted ht)
  alone := h.alone
  unsettled ht := hc ▸ h.unsettled ht
  settled hx hj := hdrop _ (h.settled (hc ▸ hx) hj)
  once := hc ▸ h.once
  kept {j} hj := by
    obtain ⟨⟨hstored, howner⟩, hne⟩ := h.kept hj
    exact ⟨⟨(hkept j hj).1.trans hstored, (hkept j hj).2.trans howner⟩, hne⟩

theorem forget (h : Exclusive cfg live db₀ st G) (s : σ) :
    Exclusive cfg live db₀ st (update G s ⟨s, none⟩) := by
  -- whatever a sweep knows now it knew before
  constructor
  case once => exact h.once
  all_goals grind [Exclusive, update_apply, Bid.Took]

/-- A sweep wins a run: if it was a dead worker's, nobody had won it before. -/
theorem take (h : Exclusive cfg live db₀ st G) {s : σ}
    (hr : st'.rescuing = update st.rescuing s (some (e, owner)))
    (hc : st'.consumed = st.consumed)
    (hmono : ∀ j, Adopted cfg st.sched.db j → Adopted cfg st'.sched.db j)
    (hkept : Spares live db₀ st.sched.db st'.sched.db)
    (hbefore : st.sched.db.owner e.job = some owner) (hafter : Adopted cfg st'.sched.db e.job)
    (howner : owner ∉ live) (hfree : ¬ Protected live db₀ e.job) :
    Exclusive cfg live db₀ st' (update G s ⟨s, some (e, owner)⟩) := by
  have hnew : IsDead cfg owner → ¬ Adopted cfg st.sched.db e.job :=
    fun hdead hadopted => hadopted owner hbefore hdead
  have hr := congrFun hr
  constructor
  case once => exact hc ▸ h.once
  all_goals grind [Exclusive, update_apply, Bid.Took]

/-- A sweep settles the run it won: the job is charged for it. -/
theorem settle (h : Exclusive cfg live db₀ st G) {s : σ} (hcur : (G s).current = some (e, owner))
    (hr : st'.rescuing = st.rescuing)
    (hc : st'.consumed = (e, (st.rescuing s).map Prod.snd) :: st.consumed)
    (hmono : ∀ j, Adopted cfg st.sched.db j → Adopted cfg st'.sched.db j)
    (hkept : Spares live db₀ st.sched.db st'.sched.db) :
    Exclusive cfg live db₀ st' (update G s ⟨s, none⟩) := by
  obtain ⟨hmine, -⟩ := h.rescuing hcur
  rw [hmine, map_some] at hc
  have hcharge : ∀ {j}, Charges cfg (e, some owner) j → (G s).Took cfg j := by
    grind [Bid.Took, Charges]
  constructor
  case once =>
    intro j
    rw [hc, pairwise_cons]
    exact ⟨fun y hy hboth => h.unsettled (hcharge hboth.1) y hy hboth.2, h.once j⟩
  all_goals grind [Exclusive, update_apply, Bid.Took]

end Exclusive

/-! ## One step -/

variable {st : RescueState σ} {G : σ → Bid σ} {t s : σ} {why : Cause} {op : StoreOp} {w : World}

theorem execute_sched (hfault : w.fault = false) :
    (st.execute (.store s why op) w).2.sched = { st.sched with db := (op.exec st.sched.db).2 } := by
  simp [execute, exec, hfault]

theorem execute_consumed (hfault : w.fault = false) :
    (st.execute (.store s (.rescue e) op) w).2.consumed =
      if (op.exec st.sched.db).2.stored e.job = st.sched.db.stored e.job then st.consumed
      else (e, (st.rescuing s).map Prod.snd) :: st.consumed := by
  simp [execute, exec, hfault, rescuer]

/-- An answered storage call that leaves the job of its rescue alone adds no entry. -/
theorem execute_spares (hfault : w.fault = false) (hspare : ∀ e, why = .rescue e →
      (op.exec st.sched.db).2.stored e.job = st.sched.db.stored e.job) :
    (st.execute (.store s why op) w).2.consumed = st.consumed := by
  cases why with
  | rescue e => rw [execute_consumed hfault, if_pos (hspare e rfl)]
  | _ => rfl

/-- A transaction other than a transfer. -/
def keepsClaims : StoreOp → Bool
  | .reclaimExecution _ _ _ _ => false
  | _ => true

theorem execute_rescuing (hop : keepsClaims op = true) :
    (st.execute (.store s why op) w).2.rescuing = st.rescuing := by
  simp only [execute]
  generalize ((store s why op).exec w st.sched).1 = r
  have hwon : (store s why op).won r = none := by
    cases why with
    | rescue => cases op <;> first | rfl | cases hop
    | _ => rfl
  rw [hwon]
  rfl

theorem execute_failed (hfault : w.fault = true) : st.execute (.store s why op) w = (none, st) := by
  simp only [execute, exec, hfault, if_true]
  cases why with
  | rescue => cases op <;> simp [won, rescuer, noted]
  | _ => simp [won, rescuer, noted]

omit [DecidableEq σ] in
theorem owner_of_gentle (hop : op.gentle = true) (j : JobId) :
    (op.exec st.sched.db).2.owner j = none ∨
      (op.exec st.sched.db).2.owner j = st.sched.db.owner j :=
  (Shift.gentle hop st.sched.db).owner j

namespace Exclusive

theorem quiet (h : Exclusive cfg live db₀ st G) (hfault : w.fault = false)
    (hop : keepsClaims op = true) (hdrop : ∀ j, (op.exec st.sched.db).2.owner j = none ∨
      (op.exec st.sched.db).2.owner j = st.sched.db.owner j) (hspare : ∀ e, why = .rescue e →
      (op.exec st.sched.db).2.stored e.job = st.sched.db.stored e.job)
    (hkept : Spares live db₀ st.sched.db (op.exec st.sched.db).2) :
    Exclusive cfg live db₀ (st.execute (.store s why op) w).2 G := by
  refine h.frame (execute_rescuing hop) (execute_spares hfault hspare)
    (fun j hj => ?_) fun j hj => ?_
  · rw [execute_sched hfault]
    exact hj.of_drop (hdrop j)
  · rw [execute_sched hfault]
    exact hkept j hj

theorem settles (h : Exclusive cfg live db₀ st G) (hfault : w.fault = false)
    (hop : keepsClaims op = true) (hheld : (G t).Holds s why id)
    (hdrop : ∀ j, (op.exec st.sched.db).2.owner j = none ∨
      (op.exec st.sched.db).2.owner j = st.sched.db.owner j)
    (hkept : Spares live db₀ st.sched.db (op.exec st.sched.db).2) :
    Exclusive cfg live db₀ (st.execute (.store s why op) w).2 (update G t ⟨t, none⟩) := by
  obtain ⟨rfl, e, _, rfl, -, hcur⟩ := hheld
  rw [h.me t]
  by_cases hsame : (op.exec st.sched.db).2.stored e.job = st.sched.db.stored e.job
  · refine (h.quiet hfault hop hdrop ?_ hkept).forget t
    rintro _ ⟨⟩
    exact hsame
  · refine h.settle hcur (execute_rescuing hop) ?_ (fun j hj => ?_) fun j hj => ?_
    · rw [execute_consumed hfault, if_neg hsame]
    · rw [execute_sched hfault]
      exact hj.of_drop (hdrop j)
    · rw [execute_sched hfault]
      exact hkept j hj

omit [DecidableEq σ] in
theorem ne_of_holds (h : Exclusive cfg live db₀ st G) {j : JobId} (hheld : (G t).Holds s why id)
    (hj : Protected live db₀ j) : j ≠ id := by
  obtain ⟨-, _, _, -, rfl, hcur⟩ := hheld
  exact fun heq => (h.kept hj).2 t _ hcur heq.symm

/-- **A transfer.** -/
theorem reclaim (h : Exclusive cfg live db₀ st G) (hfault : w.fault = false)
    (hp : (G t).permitsStore cfg live s why (.reclaimExecution id expected worker now)) :
    Exclusive cfg live db₀
      (st.execute (.store s why (.reclaimExecution id expected worker now)) w).2
      (update G t ((G t).nextStore why (.reclaimExecution id expected worker now)
        ((StoreOp.reclaimExecution id expected worker now).exec st.sched.db).1)) := by
  obtain ⟨rfl, ⟨e, rfl, rfl⟩, rfl, hlive⟩ := hp
  rw [h.me t]
  -- the transaction writes one claim
  obtain ⟨op, hop⟩ : ∃ op, op = StoreOp.reclaimExecution e.job expected (cfg t).claimOwner now :=
    ⟨_, rfl⟩
  have hsched : (st.execute (.store t (.rescue e) op) w).2.sched =
      { st.sched with db := (op.exec st.sched.db).2 } := execute_sched hfault
  have hconsumed : (st.execute (.store t (.rescue e) op) w).2.consumed = st.consumed :=
    execute_spares hfault fun e' _ => hop ▸ reclaim_stored
  have hrescuing : (st.execute (.store t (.rescue e) op) w).2.rescuing =
      st.noted ((store t (.rescue e) op).won (some (op.exec st.sched.db).1)) := by
    simp only [execute, exec, hfault, Bool.false_eq_true, if_false]
  rw [← hop]
  have hmono : ∀ j, Adopted cfg st.sched.db j →
      Adopted cfg (st.execute (.store t (.rescue e) op) w).2.sched.db j := by
    intro j hj
    rw [hsched, hop]
    exact reclaim_adopted hj
  -- the owner that is asked for holds no protected job
  have hforeign : ∀ j, Protected live db₀ j → st.sched.db.owner j ≠ some expected := by
    rintro j ⟨x, hx, hown, hrow⟩ heq
    rw [(h.kept ⟨x, hx, hown, hrow⟩).1.2, hown] at heq
    cases heq
    exact hlive hx
  have hkept : Spares live db₀ st.sched.db (st.execute (.store t (.rescue e) op) w).2.sched.db := by
    intro j hj
    rw [hsched, hop]
    exact ⟨reclaim_stored, reclaim_owner (hforeign j hj)⟩
  generalize st.execute (.store t (.rescue e) op) w = st' at *
  subst hop
  rcases hr : ((StoreOp.reclaimExecution e.job expected (cfg t).claimOwner now).exec
    st.sched.db).1 with err | won
  · rw [hr] at hrescuing
    simp only [Bid.nextStore, update_eq_self]
    exact h.frame hrescuing hconsumed hmono hkept
  cases won with
  | false =>
    rw [hr] at hrescuing
    simp only [Bid.nextStore, update_eq_self]
    exact h.frame hrescuing hconsumed hmono hkept
  | true =>
    rw [hr] at hrescuing
    obtain ⟨hbefore, hafter⟩ := owner_of_reclaim hr
    simp only [Bid.nextStore, h.me t]
    refine h.take hrescuing hconsumed hmono hkept hbefore ?_ hlive fun hj => hforeign _ hj hbefore
    intro _ howner
    rw [hsched, hafter] at howner
    exact fun hdead => hdead t (some.inj howner)

/-- **One answered transaction of a sweep.** -/
theorem store (h : Exclusive cfg live db₀ st G) (hfault : w.fault = false)
    (hp : (G t).permitsStore cfg live s why op) :
    Bid.expectsStore op (op.exec st.sched.db).1 ∧
      Exclusive cfg live db₀ (st.execute (.store s why op) w).2
        (update G t ((G t).nextStore why op (op.exec st.sched.db).1)) := by
  cases op with
  | reclaimExecution => exact ⟨trivial, h.reclaim hfault hp⟩
  | retry id next ns =>
    refine ⟨trivial, ?_⟩
    have hkept : ∀ j, Protected live db₀ j → _ :=
      fun j hj => retry_leaves (h.ne_of_holds hp hj) next ns st.sched.db
    obtain ⟨hsame, err, hr⟩ | ⟨hr, hshift, -⟩ := retry_shift id next ns st.sched.db
    · rw [hr]
      simp only [Bid.nextStore, update_eq_self]
      exact h.quiet hfault rfl (fun j => .inr (by rw [hsame])) (fun e _ => by rw [hsame]) hkept
    · rw [hr]
      simp only [Bid.nextStore, h.me t]
      exact h.settles hfault rfl hp hshift.owner hkept
  | deadLetter job dlqId error metadata count shed now =>
    refine ⟨trivial, ?_⟩
    have hshift : Shift _ [] st.sched.db
        ((StoreOp.deadLetter job dlqId error metadata count shed now).exec st.sched.db).2 :=
      .ending rfl st.sched.db
    have hkept : ∀ j, Protected live db₀ j → _ := fun j hj =>
      deadLetter_leaves (h.ne_of_holds hp hj) dlqId error metadata count shed now st.sched.db
    rcases hr : ((StoreOp.deadLetter job dlqId error metadata count shed now).exec
      st.sched.db).1 with err | _
    · have hsame : ((StoreOp.deadLetter job dlqId error metadata count shed now).exec
          st.sched.db).2 = st.sched.db := writeTransaction_error hr
      simp only [Bid.nextStore, update_eq_self]
      exact h.quiet hfault rfl hshift.owner (fun e _ => by rw [hsame]) hkept
    · simp only [Bid.nextStore, h.me t]
      exact h.settles hfault rfl hp hshift.owner hkept
  | deleteClaim id =>
    refine ⟨trivial, ?_⟩
    simp only [Bid.nextStore, update_eq_self]
    refine h.quiet hfault rfl (owner_of_gentle rfl)
      (fun e _ => rfl) fun j hj => ⟨rfl, ?_⟩
    exact (owner_deleteClaim id j st.sched.db).trans (if_neg (h.ne_of_holds hp hj))
  | cascadeArchive root reason ids ns now =>
    obtain ⟨⟨e, rfl, rfl⟩, hroot⟩ := hp
    refine ⟨trivial, ?_⟩
    simp only [Bid.nextStore, update_eq_self]
    refine h.quiet hfault rfl (owner_of_gentle rfl) ?_ fun j hj => ?_
    · rintro _ ⟨⟩
      exact cascade_root hroot reason ns now st.sched.db
    · obtain ⟨x, hx, hown, row, hrow, hrun⟩ := hj
      have hstored := (h.kept ⟨x, hx, hown, row, hrow, hrun⟩).1.1
      exact cascade_leaves ((congrArg Prod.fst hstored).trans hrow) hrun
  | reapOrphanedJobs =>
    refine ⟨fun o ho => (orphans_spec ho).2.1, ?_⟩
    simp only [Bid.nextStore, update_eq_self]
    exact h.quiet hfault rfl (fun _ => .inr rfl) (fun _ _ => rfl) fun _ _ => ⟨rfl, rfl⟩
  | getJob =>
    refine ⟨fun job hjob => getJob_id hjob, ?_⟩
    simp only [Bid.nextStore, update_eq_self]
    exact h.quiet hfault rfl (fun _ => .inr rfl) (fun _ _ => rfl) fun _ _ => ⟨rfl, rfl⟩
  | dependents | authorizeAttempt | reapStaleJobs | countRunningByTask | countRunningByQueue
  | recordError | recordMetric =>
    refine ⟨trivial, ?_⟩
    simp only [Bid.nextStore, update_eq_self]
    exact h.quiet hfault rfl (fun j => .inr (side_leaves hp).2)
      (fun e _ => (side_leaves hp).1) fun j _ => side_leaves hp
  | _ => cases hp

/-- **One step of a sweep.** -/
theorem step (h : Exclusive cfg live db₀ st G) {op : SchedOp σ} (hp : (G t).permits cfg live op)
    (hnames : op.Names cfg live w) :
    Bid.expects cfg live op (st.execute op w).1 ∧
      Exclusive cfg live db₀ (st.execute op w).2
        (update G t ((G t).next op (st.execute op w).1)) := by
  have hsame : ∀ {st' : RescueState σ}, st'.rescuing = st.rescuing → st'.consumed = st.consumed →
      st'.sched.db = st.sched.db → Exclusive cfg live db₀ st' (update G t (G t)) := by
    intro _ hr hc hdb
    rw [update_eq_self]
    exact h.frame hr hc (fun j hj => hdb ▸ hj) fun j _ => ⟨by rw [hdb], by rw [hdb]⟩
  cases op with
  | store s why op =>
    rcases hfault : w.fault with _ | _
    · have hanswer : (st.execute (.store s why op) w).1 = some (op.exec st.sched.db).1 := by
        simp [execute, exec, hfault]
      rw [hanswer]
      exact h.store hfault hp
    · rw [execute_failed hfault]
      exact ⟨trivial, hsame rfl rfl rfl⟩
  | listLiveWorkerIds =>
    refine ⟨?_, hsame rfl rfl rfl⟩
    simp only [execute, exec]
    rcases w.fault with _ | _
    · exact hnames
    · trivial
  | client | trySend | stop => exact hp.elim
  | _ => exact ⟨trivial, hsame rfl rfl rfl⟩

end Exclusive

theorem sound (cfg : σ → Scheduler) (live : List String) (db₀ : Db) :
    Pool.Sound (rescueRules cfg live) (rescueDiscipline cfg live) (Exclusive cfg live db₀) where
  start _ _ t call h _ hstart :=
    ⟨⟨t, none⟩, h.forget t, hstart ▸ follows_recoverOrphanedJobs call.1 call.2 rfl⟩
  step _ _ _ _ _ h hp hnames := h.step hp hnames

omit [DecidableEq σ] in
/-- Schedulers that have not started. -/
theorem exclusive_init (cfg : σ → Scheduler) (live : List String) (db₀ : Db) :
    Exclusive cfg live db₀ (.init db₀) fun s => ⟨s, none⟩ where
  me _ := rfl
  rescuing hx := by cases hx
  named _ hx := by cases hx
  adopted ht := by
    obtain ⟨e, owner, hx, -⟩ := ht
    cases hx
  alone ht := by
    obtain ⟨e, owner, hx, -⟩ := ht
    cases hx
  unsettled ht := by
    obtain ⟨_, _, hx, -⟩ := ht
    cases hx
  settled hx := by cases hx
  once _ := List.Pairwise.nil
  kept _ := ⟨⟨rfl, rfl⟩, fun _ _ hx => by cases hx⟩

/-- Of entries no two of which are selected together, at most one is selected. -/
theorem length_filter_le_one {α : Type} {p : α → Bool} {l : List α}
    (h : l.Pairwise fun x y => ¬ (p x = true ∧ p y = true)) : (l.filter p).length ≤ 1 := by
  have hp : (l.filter p).Pairwise fun _ _ => False :=
    (h.filter p).imp_of_mem fun hx hy hnot => hnot ⟨(mem_filter.1 hx).2, (mem_filter.1 hy).2⟩
  rcases hl : l.filter p with _ | ⟨_, _ | ⟨y, _⟩⟩
  · exact Nat.zero_le 1
  · exact le_rfl
  · rw [hl] at hp
    exact ((pairwise_cons.1 hp).1 y mem_cons_self).elim

end

end Rescue

section

variable {σ : Type} [DecidableEq σ]

/-- **Rescue is exclusive.** In every interleaving of the sweeps of any number of survivors:
the death of a worker charges a run at most once; when the survivors know of each other, a run is
charged at most once altogether; and a running job whose worker is on everybody's list keeps its
claim and everything stored of it. -/
theorem orphan_rescue_exclusive (cfg : σ → Scheduler) (live : List String) (db : Db)
    {c : Pool (rescueMachine σ) σ}
    (h : Pool.Reaches (rescueRules cfg live) (Pool.idle (RescueState.init db)) c) :
    (∀ x ∈ c.state.consumed, ∃ owner, x.2 = some owner ∧ owner ∉ live) ∧
    (∀ e owner, IsDead cfg owner → c.state.consumed.count (e, some owner) ≤ 1) ∧
    ((∀ s, (cfg s).claimOwner ∈ live) →
      ∀ e, (c.state.consumed.filter fun x => x.1 = e).length ≤ 1) ∧
    (∀ w ∈ live, ∀ j row, db.jobs.find j = some row → row.status = .running →
      db.owner j = some w →
        c.state.sched.db.stored j = db.stored j ∧ c.state.sched.db.owner j = some w) := by
  obtain ⟨_, hG⟩ := (Rescue.sound cfg live db).reachable
    (.idle (Rescue.exclusive_init cfg live db) fun _ => trivial) h
  have hinv := hG.inv
  refine ⟨hinv.named, fun e owner hdead => ?_, fun hknown e => ?_,
    fun w hw j row hrow hrun hown => ?_⟩
  · rw [List.count, countP_eq_length_filter]
    refine Rescue.length_filter_le_one ((hinv.once e.job).imp ?_)
    rintro x y hnot ⟨hx, hy⟩
    cases eq_of_beq hx
    cases eq_of_beq hy
    exact hnot ⟨⟨rfl, owner, rfl, hdead⟩, rfl, owner, rfl, hdead⟩
  · refine Rescue.length_filter_le_one ((hinv.once e.job).imp_of_mem ?_)
    -- who is not on the lists is no survivor
    have hcharge : ∀ x ∈ c.state.consumed, decide (x.1 = e) = true →
        Rescue.Charges cfg x e.job := by
      intro x hx hxe
      obtain ⟨owner, howner, hlive⟩ := hinv.named x hx
      refine ⟨by rw [of_decide_eq_true hxe], owner, howner, fun s heq => hlive ?_⟩
      exact heq ▸ hknown s
    rintro x y hx hy hnot ⟨hxe, hye⟩
    exact hnot ⟨hcharge x hx hxe, hcharge y hy hye⟩
  · obtain ⟨⟨hstored, howner⟩, -⟩ := hinv.kept ⟨w, hw, hown, row, hrow, hrun⟩
    exact ⟨hstored, howner.trans hown⟩

end

/-- Two running jobs: the worker of the first is dead, that of the second is alive. -/
def orphanStore : Db :=
  { Db.empty with
    jobs := ⟨["a", "b"].map fun id =>
        { (NewJob.plain "q" "t").intoJob id 0 with status := .running, startedAt := some 0 },
      by decide, by decide⟩
    executionClaims := ⟨[⟨"a", "gone", 0⟩, ⟨"b", "u", 0⟩], by decide, by decide⟩ }

/-- Both survivors find the orphan before either asks for it; one of them wins it and retries. -/
def rescueRun : List (Move (rescueMachine Bool) (rescueClients pairScheduler) Bool) :=
  let sweep (s : Bool) (n : Nat) : List (Move (rescueMachine Bool)
    (rescueClients pairScheduler) Bool) :=
    List.replicate n (.step s { World.calm with names := ["u", "v", "w"], number := 9 })
  [.start true (true, 9), .start false (false, 9)] ++ sweep true 3 ++ sweep false 3 ++
    sweep true 11 ++
    sweep false 1

theorem orphan_rescue_exclusive_pair :
    ∃ c, Pool.Reaches (rescueRules pairScheduler ["u", "v", "w"])
        (Pool.idle (RescueState.init orphanStore)) c ∧
      (c.state.consumed = [(⟨"a", 0⟩, some "gone")] ∧
        (c.state.sched.db.jobs.find "a").map Job.retryCount = some 1) ∧
      IsDead pairScheduler "gone" ∧ (∀ s, (pairScheduler s).claimOwner ∈ ["u", "v", "w"]) ∧
      (∀ x ∈ c.state.consumed, ∃ owner, x.2 = some owner ∧ owner ∉ ["u", "v", "w"]) ∧
      (∀ e owner, IsDead pairScheduler owner → c.state.consumed.count (e, some owner) ≤ 1) ∧
      ((∀ s, (pairScheduler s).claimOwner ∈ ["u", "v", "w"]) →
        ∀ e, (c.state.consumed.filter fun x => x.1 = e).length ≤ 1) ∧
      (∀ w ∈ ["u", "v", "w"], ∀ j row, orphanStore.jobs.find j = some row →
        row.status = .running → orphanStore.owner j = some w →
          c.state.sched.db.stored j = orphanStore.stored j ∧
            c.state.sched.db.owner j = some w) := by
  refine Pool.exists_reaches_and rescueRun ?_ fun c hc => ⟨by unfold IsDead; decide, by decide,
    orphan_rescue_exclusive pairScheduler ["u", "v", "w"] orphanStore hc⟩
  decide +kernel

end Flexiq
