import Flexiq.RedisDocs

/-!
# Runs of the Redis backend

What a command can do to the documents, the steps and the records is said once (`Command.changes`):
it is a sequence of a few kinds of **changes**. From it follow that the stored documents stay those
of their ids (`Docs`) and the rule for invariants of a run (`redis_invariant`).

The discipline of documents is relative to what each id was drawn for. Ids are drawn once, so a
function that says it exists for every run (`exists_home`): look each id up at the end of the run.
-/

namespace Flexiq.Redis

open Function List Option Store

variable {a : Attempt} {env : RedisEnv}

variable {home : JobId → Origin}
variable {job : Job} {oldStatus : JobStatus} {id : JobId} {c : Command}

/-! ## What a command changes -/

/-- The documents, the steps and the records of a store: all of it but the indices, the claims and
the dead letters. -/
structure Core where
  clock : Int
  jobs : JobId → Option Job
  archived : JobId → Option Job
  steps : JobId → Option (Expiring StepHash)
  drawn : List (JobId × Origin)
  committed : List JobStep
  touched : JobId → Int

def Store.core (st : Store) : Core :=
  ⟨st.clock, st.jobs, st.archived, st.steps, st.drawn, st.committed, st.touched⟩

namespace Core

def stepHash (id : JobId) (s : Core) : StepHash :=
  (Expiring.read s.clock (s.steps id)).getD .empty

def setJob (job : Job) (s : Core) : Core :=
  { s with jobs := update s.jobs job.id (some job) }

def dropSteps (id : JobId) (s : Core) : Core :=
  { s with
    steps := update s.steps id none
    committed := s.committed.filter (·.jobId ≠ id) }

def archive (job : Job) (s : Core) : Core :=
  { s.dropSteps job.id with
    jobs := update s.jobs job.id none
    archived := update s.archived job.id (some job) }

def saveSteps (id : JobId) (now : Int) (h : StepHash) (s : Core) : Core :=
  { s with
    steps := update s.steps id (Expiring.write s.clock (max now h.wake + ttlGraceMs) h)
    touched := update s.touched id now }

/-- A hash with one more row. -/
structure Extends (jobNs : String) (step : JobStep) (h h' : StepHash) : Prop where
  rows : ∃ row, h'.rows = row :: h.rows ∧ step = decodeStep step.jobId row.1 row.2
  wake : h'.wake = max h.wake (step.wakeAt.getD h.wake)
  ns : h'.ns = some (h.ns.getD jobNs)

/-- One change of the documents and the steps. `G` is what is known of the clock a step write
carries. -/
inductive Change (home : JobId → Origin) (G : Int → Prop) : Core → Core → Prop
  | drew (s : Core) (id : JobId) (origin : Origin) (h : home id = origin) :
    Change home G s { s with drawn := (id, origin) :: s.drawn }
  | wrote (s : Core) (job : Job) (h : Known home job) : Change home G s (s.setJob job)
  | archived (s : Core) (job : Job) (h : job.status.isTerminal = true) :
    Change home G s (s.archive job)
  | deleted (s : Core) (id : JobId) : Change home G s (s.dropSteps id)
  | touched (s : Core) (id : JobId) (now : Int) (h : G now) (hrows : (s.stepHash id).rows ≠ []) :
    Change home G s (s.saveSteps id now (s.stepHash id))
  | committed (s : Core) (job : Job) (now : Int) (step : JobStep) (h' : StepHash) (h : G now)
    (hjob : s.jobs step.jobId = some job)
    (hext : Extends (job.namespace_.getD "") step (s.stepHash step.jobId) h') :
    Change home G s { s.saveSteps step.jobId now h' with committed := step :: s.committed }

end Core

namespace Store

variable {st : Store} {now : Int}

theorem core_claimPending :
    (st.claimPending job).2.core = st.core ∨ (st.claimPending job).2.core = st.core.setJob job := by
  unfold claimPending
  split
  · exact .inr rfl
  · exact .inl rfl

theorem core_requeueStuck :
    (st.requeueStuck job).2.core = st.core ∨ (st.requeueStuck job).2.core = st.core.setJob job := by
  unfold requeueStuck
  split
  · exact .inr rfl
  · exact .inl rfl

theorem core_requestCancel : (st.requestCancel job).2.core = st.core ∨
    (st.requestCancel job).2.core = st.core.setJob job := by
  unfold requestCancel
  split
  · exact .inr rfl
  · exact .inl rfl

theorem core_setIfLive :
    (st.setIfLive job).2.core = st.core ∨ (st.setIfLive job).2.core = st.core.setJob job := by
  unfold setIfLive
  split
  · exact .inr rfl
  · exact .inl rfl

theorem core_requeuePending {revokeClaim : Bool} :
    (st.requeuePending job oldStatus revokeClaim).core = st.core.setJob job := by
  unfold requeuePending
  dsimp only
  split <;> split <;> rfl

theorem core_archive : (st.archive job oldStatus).core = st.core.archive job := by
  unfold archive
  dsimp only
  split <;> rfl

theorem core_deadLetter {entry : DeadLetterRow} :
    (st.deadLetter job oldStatus entry).2.core = st.core ∨
    (st.deadLetter job oldStatus entry).2.core = st.core.archive job := by
  unfold deadLetter
  split
  · exact .inr core_archive
  · exact .inl rfl

theorem core_uniqueActive (st : Store) (uniqueKey : String) :
    (st.uniqueActive uniqueKey).2.core = st.core := by
  unfold uniqueActive
  split
  · rfl
  · split
    · split <;> rfl
    · rfl

theorem core_addDependencies (id : JobId) (deps : List JobId) (st : Store) :
    (deps.foldl (fun st dep => (st.addDependsOn id dep).addDependent dep id) st).core =
      st.core := by
  induction deps generalizing st with
  | nil => rfl
  | cons dep deps ih => exact (ih _).trans rfl

theorem core_storeUnique (st : Store) (uniqueKey : String) (job : Job) (deps : List JobId) :
    (st.storeUnique uniqueKey job deps).2.core = st.core ∨
    (st.storeUnique uniqueKey job deps).2.core = st.core.setJob job := by
  have hactive := core_uniqueActive st uniqueKey
  unfold storeUnique
  split
  · next hfound =>
    rw [hfound] at hactive
    exact .inl hactive
  · next hfound =>
    rw [hfound] at hactive
    refine .inr ((core_addDependencies job.id deps _).trans ?_)
    rw [← hactive]
    rfl

theorem core_releaseUnique {uniqueKey : String} :
    (st.releaseUnique uniqueKey id).core = st.core := by
  unfold releaseUnique
  split <;> rfl

theorem core_reclaim {expected new : String} :
    (st.reclaim id expected new now).2.core = st.core := by
  unfold reclaim
  split
  · split <;> rfl
  · rfl

theorem core_reassert : (st.reassert a).core = st.core := by
  obtain ⟨_, _, h⟩ := reassert_eq a st
  rw [h]
  rfl

theorem core_saveSteps (h : StepHash) :
    (st.saveSteps id now h).core = st.core.saveSteps id now h := rfl

theorem core_commit {step : JobStep} :
    (st.commit step).core = { st.core with committed := step :: st.core.committed } := rfl

theorem core_suspend (st : Store) (job : Job) (oldStatus : JobStatus) :
    (st.suspend job oldStatus).core = st.core.setJob job := rfl

theorem core_deleteSteps {scope : String} :
    (st.deleteSteps id scope).2.core = st.core ∨
    (st.deleteSteps id scope).2.core = st.core.dropSteps id := by
  unfold deleteSteps
  split
  · exact .inl rfl
  · exact .inr rfl

end Store

/-- What is drawn has the home it is drawn for. -/
def Command.FromHome (home : JobId → Origin) (env : RedisEnv) : Command → Prop
  | .freshId origin => home env.id = origin
  | _ => True

section Changes

open Flexiq.Redis.Core Relation

variable {G : Int → Prop} {st : Store}

theorem changes_of_or {s s' s'' : Core} (h : s' = s ∨ s' = s'') (hc : Change home G s s'') :
    ReflTransGen (Change home G) s s' := by
  obtain rfl | rfl := h
  · exact .refl
  · exact .single hc

variable {step : NewJobStep}

theorem changes_recordStep {limits : StepLimits} (hG : G a.now) :
    ReflTransGen (Change home G) st.core
      (st.fenced a fun jobNs => Store.recordStep a step limits jobNs).2.core := by
  obtain ⟨-, h⟩ | ⟨jobNs, hfence, h⟩ :=
    fenced_cases a (fun jobNs => recordStep a step limits jobNs) st
  · rw [h]
  · rw [h, ← core_reassert]
    obtain ⟨job, hjob, -, -, -, rfl, -⟩ := fence_some hfence
    obtain ⟨_, -, hr⟩ | ⟨-, _, hr⟩ :=
      recordStep_cases a step limits (job.namespace_.getD "") (st.reassert a)
    · rw [hr]
    · rw [hr, core_commit, core_saveSteps]
      refine .single (.committed (st.reassert a).core job a.now
        (decodeStep a.jobId step.seq ⟨a.now, encodeDoc step none⟩) _ hG ?_ ?_)
      · rw [core_reassert]
        exact hjob
      · exact ⟨⟨_, rfl, rfl⟩, (max_self _).symm, rfl⟩

theorem changes_sleepStep {maxSteps : Nat} {createdAt : Int} {stored : Bool} {deadline : Int}
    (hG : G a.now) (hknown : Known home job) :
    ReflTransGen (Change home G) st.core
      (st.fenced a fun jobNs =>
        Store.sleepStep a step maxSteps createdAt stored job oldStatus deadline jobNs).2.core := by
  obtain ⟨-, h⟩ | ⟨jobNs, hfence, h⟩ := fenced_cases a (fun jobNs =>
    sleepStep a step maxSteps createdAt stored job oldStatus deadline jobNs) st
  · rw [h]
  · rw [h, ← core_reassert]
    obtain ⟨live, hlive, -, -, -, rfl, -⟩ := fence_some hfence
    obtain ⟨_, -, hr⟩ | ⟨hrows, hr⟩ | ⟨-, hr⟩ := sleepStep_cases a step maxSteps createdAt
      stored job oldStatus deadline (live.namespace_.getD "") (st.reassert a)
    · rw [hr]
    · rw [hr, core_suspend, core_saveSteps]
      exact (ReflTransGen.single (.touched (st.reassert a).core a.jobId a.now hG hrows)).tail
        (.wrote _ job hknown)
    · rw [hr, core_suspend, core_commit, core_saveSteps]
      refine (ReflTransGen.single (.committed (st.reassert a).core live a.now
        (decodeStep a.jobId step.seq ⟨createdAt, encodeDoc step (some deadline)⟩) _ hG ?_ ?_)).tail
        (.wrote _ job hknown)
      · rw [core_reassert]
        exact hlive
      · exact ⟨⟨_, rfl, rfl⟩, rfl, rfl⟩

/-- **Every command is a sequence of changes.** -/
theorem Command.changes (hc : c.Proper home) (hdraw : c.FromHome home env)
    (hG : ∀ a, c.attempt = some a → G a.now) :
    ReflTransGen (Change home G) st.core (c.act env st).2.core := by
  cases c with
  | freshId => exact .single (.drew _ _ _ hdraw)
  | setJob job => exact .single (.wrote _ job hc.1)
  | uniqueActive uniqueKey => exact core_uniqueActive st uniqueKey ▸ .refl
  | storeUnique uniqueKey job deps =>
    exact changes_of_or (core_storeUnique st uniqueKey job deps) (.wrote _ job hc.1)
  | releaseUnique => exact core_releaseUnique ▸ .refl
  | claimPending seen job =>
    exact changes_of_or core_claimPending (.wrote _ job (hc.1.patch hc.2.1))
  | requeuePending seen job =>
    exact changes_of_or (.inr core_requeuePending)
      (.wrote _ job (hc.1.patch hc.2.1))
  | requeueStuck seen job =>
    exact changes_of_or core_requeueStuck (.wrote _ job (hc.1.patch hc.2.1))
  | archive seen job => exact changes_of_or (.inr core_archive) (.archived _ job hc.2.2)
  | deadLetter seen job =>
    exact changes_of_or core_deadLetter (.archived _ job hc.2.2)
  | requestCancel seen job =>
    exact changes_of_or core_requestCancel (.wrote _ job (hc.1.patch hc.2.1))
  | setIfLive seen job => exact changes_of_or core_setIfLive (.wrote _ job (hc.1.patch hc.2.1))
  | claimExecution =>
    simp only [Command.act]
    split <;> exact .refl
  | reclaim => exact core_reclaim ▸ .refl
  | recordStep a => exact changes_recordStep (hG a rfl)
  | sleepJob a =>
    exact changes_sleepStep (hG a rfl) (hc.1.patch hc.2.1)
  | deleteSteps id => exact changes_of_or core_deleteSteps (.deleted _ id)
  | _ => exact .refl

end Changes

/-! ## Documents -/

/-- Every document belongs to its key, and the archived ones are finished. -/
structure Docs (home : JobId → Origin) (s : Core) : Prop where
  live : ∀ id job, s.jobs id = some job → job.id = id ∧ Known home job
  archived : ∀ id job, s.archived id = some job → job.id = id ∧ job.status.isTerminal = true

namespace Docs

variable {s s' : Core} {G : Int → Prop}

theorem empty (clock : Int) : Docs home (Store.empty clock).core where
  live _ _ h := by cases h
  archived _ _ h := by cases h

theorem change (h : Docs home s) (hc : Core.Change home G s s') : Docs home s' := by
  cases hc with
  | drew | deleted | touched | committed => exact ⟨h.live, h.archived⟩
  | wrote job hknown =>
    refine ⟨fun id found hfound => ?_, h.archived⟩
    by_cases hid : id = job.id
    · subst hid
      obtain rfl : job = found := by simpa [Core.setJob] using hfound
      exact ⟨rfl, hknown⟩
    · exact h.live id found (by simpa [Core.setJob, update_of_ne hid] using hfound)
  | archived job hdone =>
    refine ⟨fun id found hfound => ?_, fun id found hfound => ?_⟩
    · by_cases hid : id = job.id
      · subst hid
        simp [Core.archive] at hfound
      · exact h.live id found (by simpa [Core.archive, update_of_ne hid] using hfound)
    · by_cases hid : id = job.id
      · subst hid
        obtain rfl : job = found := by simpa [Core.archive] using hfound
        exact ⟨rfl, hdone⟩
      · exact h.archived id found
          (by simpa [Core.archive, update_of_ne hid] using hfound)

theorem changes (h : Docs home s) (hc : Relation.ReflTransGen (Core.Change home G) s s') :
    Docs home s' := by
  induction hc with
  | refl => exact h
  | tail _ hstep ih => exact ih.change hstep

theorem wait {st : Store} (h : Docs home st.core) (elapsed : Nat) :
    Docs home (st.wait elapsed).core :=
  ⟨h.live, h.archived⟩

/-- Documents that belong to their keys are what a read may answer. -/
theorem answers {st : Store} (h : Docs home st.core) (hdraw : c.FromHome home env) :
    c.Expects home (c.act env st).1 := by
  cases c with
  | freshId => exact hdraw
  | getJob id => exact fun job hjob => h.live id job hjob
  | getArchived id =>
    intro job hjob
    obtain ⟨stored, hstored, rfl⟩ := map_eq_some_iff.1 hjob
    exact h.archived id stored hstored
  | mgetJobs ids =>
    intro p hp job hjob
    have hpair : p ∈ ids.zip (ids.map st.jobs) := hp
    rw [← List.map_prod_left_eq_zip, List.mem_map] at hpair
    obtain ⟨id, -, rfl⟩ := hpair
    exact h.live id job hjob
  | _ => trivial

end Docs

/-! ## Ids -/

def Command.draws (env : RedisEnv) : Command → List (JobId × Origin)
  | .freshId origin => [(env.id, origin)]
  | _ => []

theorem Store.drawn_fenced {body : String → Store → StepReply × Store} {st : Store}
    (hbody : ∀ jobNs st, (body jobNs st).2.drawn = st.drawn) :
    (st.fenced a body).2.drawn = st.drawn := by
  obtain ⟨-, h⟩ | ⟨_, -, h⟩ := fenced_cases a body st
  · rw [h]
  · rw [h, hbody]
    exact congrArg Core.drawn core_reassert

theorem drawn_of_or {s s' s'' : Core} (h : s' = s ∨ s' = s'') (hd : s''.drawn = s.drawn) :
    s'.drawn = s.drawn := by
  obtain rfl | rfl := h
  · rfl
  · exact hd

theorem Command.drawn_act (c : Command) (env : RedisEnv) (st : Store) :
    (c.act env st).2.drawn = c.draws env ++ st.drawn := by
  cases c with
  | uniqueActive uniqueKey => exact congrArg Core.drawn (core_uniqueActive st uniqueKey)
  | storeUnique uniqueKey job deps => exact drawn_of_or (core_storeUnique st uniqueKey job deps) rfl
  | releaseUnique => exact congrArg Core.drawn core_releaseUnique
  | claimPending => exact drawn_of_or core_claimPending rfl
  | requeuePending => exact congrArg Core.drawn core_requeuePending
  | requeueStuck => exact drawn_of_or core_requeueStuck rfl
  | archive => exact congrArg Core.drawn core_archive
  | deadLetter => exact drawn_of_or core_deadLetter rfl
  | requestCancel => exact drawn_of_or core_requestCancel rfl
  | setIfLive => exact drawn_of_or core_setIfLive rfl
  | claimExecution =>
    simp only [Command.act]
    split <;> rfl
  | reclaim => exact congrArg Core.drawn core_reclaim
  | recordStep a step limits =>
    refine drawn_fenced fun jobNs st => ?_
    obtain ⟨reply, -, h⟩ | ⟨-, _, h⟩ := recordStep_cases a step limits jobNs st
    · rw [h]
    · rw [h]
      rfl
  | sleepJob a step maxSteps createdAt stored seen job oldStatus deadline =>
    refine drawn_fenced fun jobNs st => ?_
    obtain ⟨_, -, h⟩ | ⟨-, h⟩ | ⟨-, h⟩ := sleepStep_cases a step maxSteps createdAt stored
      job oldStatus deadline jobNs st
    · rw [h]
    · rw [h]
      exact congrArg Core.drawn (core_suspend _ job oldStatus)
    · rw [h]
      exact congrArg Core.drawn (core_suspend _ job oldStatus)
  | deleteSteps => exact drawn_of_or core_deleteSteps rfl
  | _ => rfl

/-- An id is drawn once. -/
abbrev Command.DrawsFresh (st : Store) (env : RedisEnv) (c : Command) : Prop :=
  ∀ d ∈ c.draws env, d.1 ∉ st.drawn.map Prod.fst

section Runs

open Pool

variable {τ : Type} [DecidableEq τ] {R : Rules redisMachine redisClients τ}

abbrev homeRules (home : JobId → Origin) (R : Rules redisMachine redisClients τ) :
    Rules redisMachine redisClients τ where
  mayStart := R.mayStart
  mayStep st t c env := R.mayStep st t c env ∧ c.FromHome home env

theorem fromHome_of_draws (h : ∀ d ∈ c.draws env, home d.1 = d.2) : c.FromHome home env := by
  cases c with
  | freshId => exact h _ mem_cons_self
  | _ => trivial

variable {st : Store}

/-- A run draws every id for the home that its last record gives it. -/
theorem reaches_homeRules {c : Pool redisMachine τ} (h : Reaches R (idle st) c)
    (hhome : ∀ d ∈ c.state.drawn, home d.1 = d.2) : Reaches (homeRules home R) (idle st) c := by
  induction h with
  | refl => exact .refl
  | @tail b c _ hstep ih =>
    obtain ⟨m, hm, hmove⟩ := hstep
    cases m with
    | start t call =>
      rcases hp : b.prog t with _ | ⟨op, k⟩
      · simp only [Pool.move, hp] at hmove
        cases hmove
        exact (ih hhome).tail ⟨.start t call, hm, by simp only [Pool.move, hp]⟩
      · simp only [Pool.move, hp] at hmove
        cases hmove
    | step t env =>
      rcases hp : b.prog t with _ | ⟨op, _⟩
      · simp only [Pool.move, hp] at hmove
        cases hmove
      · simp only [Pool.move, hp] at hmove
        cases hmove
        -- what was drawn before, and what this command draws, is all in the record after it
        have hdrawn : (op.act env (wait env.elapsed b.state)).2.drawn =
          op.draws env ++ b.state.drawn := op.drawn_act env _
        have hall : ∀ d ∈ op.draws env ++ b.state.drawn, home d.1 = d.2 := hdrawn ▸ hhome
        refine (ih fun d hd => hall d (mem_append_right _ hd)).tail
          ⟨.step t env, ?_, by simp only [Pool.move, hp]⟩
        simp only [Allowed, hp, CallAllowed] at hm ⊢
        exact ⟨hm, fromHome_of_draws fun d hd => hall d (mem_append_left _ hd)⟩

/-- Ids that are drawn once stay apart. -/
theorem drawn_nodup (hR : ∀ st t c env, R.mayStep st t c env → c.DrawsFresh st env)
    {c : Pool redisMachine τ} (hst : (st.drawn.map Prod.fst).Nodup) (h : Reaches R (idle st) c) :
    (c.state.drawn.map Prod.fst).Nodup := by
  refine Pool.invariant (P := fun st : Store => (st.drawn.map Prod.fst).Nodup) ?_ hst h
  intro st t op env hnodup hr
  have hfresh := hR st t op env hr
  have hdrawn : (redisMachine.exec op env st).2.drawn = op.draws env ++ st.drawn :=
    op.drawn_act env _
  show (List.map Prod.fst (redisMachine.exec op env st).2.drawn).Nodup
  rw [hdrawn]
  cases op with
  | freshId => exact nodup_cons.2 ⟨hfresh _ mem_cons_self, hnodup⟩
  | _ => exact hnodup

/-- **Every run has its homes.** -/
theorem exists_home (hR : ∀ st t c env, R.mayStep st t c env → c.DrawsFresh st env)
    {c : Pool redisMachine τ} (hst : st.drawn = []) (h : Reaches R (idle st) c) :
    ∃ home, Reaches (homeRules home R) (idle st) c := by
  have hnodup := drawn_nodup hR (by rw [hst]; exact nodup_nil) h
  classical
  refine ⟨fun id => if hd : ∃ origin, (id, origin) ∈ c.state.drawn then hd.choose
    else ⟨"", none, none⟩, reaches_homeRules h fun d hd => ?_⟩
  have hex : ∃ origin, (d.1, origin) ∈ c.state.drawn := ⟨d.2, hd⟩
  rw [dif_pos hex]
  exact congrArg Prod.snd (inj_on_of_nodup_map hnodup hex.choose_spec hd rfl)

/-- **Invariants of a run.** Documents stay those of their ids, and a property of the store that
every proper command keeps holds throughout. -/
theorem redis_invariant {P : Store → Prop}
    (hstep : ∀ st t c env, Docs home st.core → P st → c.Proper home → R.mayStep st t c env →
      c.FromHome home env → P (redisMachine.exec c env st).2) {c : Pool redisMachine τ}
    (hdocs : Docs home st.core) (hst : P st) (h : Reaches (homeRules home R) (idle st) c) :
    Docs home c.state.core ∧ P c.state := by
  have hsound : Sound (homeRules home R) (docDiscipline home)
      fun (st : Store) (_ : τ → Unit) => Docs home st.core ∧ P st := by
    refine ⟨fun st G t call hinv _ _ => ⟨(), ?_, call.follows⟩,
      fun st G t op env hinv hop hr => ⟨?_, ?_, ?_⟩⟩
    · exact hinv
    · exact Docs.answers (hinv.1.wait env.elapsed) hr.2
    · exact (hinv.1.wait env.elapsed).changes
        (Command.changes (G := fun _ => True) hop hr.2 fun _ _ => trivial)
    · exact hstep st t op env hinv.1 hinv.2 hop hr.1 hr.2
  obtain ⟨G, hG⟩ := hsound.reachable
    (.idle (G := fun _ => ()) ⟨hdocs, hst⟩ fun _ => trivial) h
  exact hG.inv

end Runs

end Flexiq.Redis
