import Flexiq.RedisJobs

/-!
# Debounce windows on Redis

A debounced enqueue slides the pending job of its key, or inserts a job when no window is open. The
slide is a compare-and-swap on the whole document. A dequeue reads the documents of a queue, and
claims a job by its membership in the pending set: the script writes the document that was read,
patched to running, over whatever is there.

The machine is the Redis server with the debounce indices, and the commands are those of the store
and the three debounce scripts. Two records are kept beside it that no command reads: what each job
was last slid to since it was inserted, and the documents that were handed to an execution, each
with the slide that was then the last.
-/

namespace Flexiq.Redis

open Function Store

/-! ## Indices and scripts -/

/-- The document a slide writes: the deadline of the caller, capped from the opening of the window,
and the caller's payload when it asks for that. -/
def slidTo (target job : Job) (options : DebounceOptions) : Job :=
  { target with
    scheduledAt := min job.scheduledAt (saturatingAdd target.createdAt options.maxWaitMs)
    payload := if options.replacePayload then job.payload else target.payload }

/-- A slide that was written: the caller's job and options, and the document. -/
structure Slide where
  job : Job
  options : DebounceOptions
  document : Job
  deriving DecidableEq

/-- The server with its debounce indices. -/
structure DebounceState where
  store : Store
  /-- `jobs:debounce:<namespace>:<key>`, oldest first. -/
  index : Option String × String → List (Int × JobId)
  slid : JobId → Option Slide
  /-- The documents that were handed out, the latest first, each with its job's last slide. -/
  handed : List (Job × Option Slide)

/-- Before anything is slid or handed out. -/
def DebounceState.start (store : Store) (index : Option String × String → List (Int × JobId)) :
    DebounceState := ⟨store, index, fun _ => none, []⟩

/-- `ZADD`: by score, and by member within a score. -/
def zadd (score : Int) (id : JobId) (entries : List (Int × JobId)) : List (Int × JobId) :=
  (entries.filter (·.2 ≠ id)).orderedInsert
    (fun a b => a.1 < b.1 ∨ a.1 = b.1 ∧ a.2 ≤ b.2) (score, id)

/-- `DEBOUNCE_SCAN`: the first pending job without a claim, and the entries on the way to it whose
job is gone or no longer pending. -/
def Store.debounceScan (st : Store) : List JobId → Option Job × List JobId
  | [] => (none, [])
  | id :: ids =>
    match st.jobs id with
    | none => ((st.debounceScan ids).1, id :: (st.debounceScan ids).2)
    | some job =>
      if job.status ≠ .pending then ((st.debounceScan ids).1, id :: (st.debounceScan ids).2)
      else if (st.claim id).isNone then (some job, [])
      else st.debounceScan ids

namespace DebounceState

/-- The scan of a key's index, which drops the stale entries it meets. -/
def scan (key : Option String × String) (st : DebounceState) : Option Job × DebounceState :=
  let r := st.store.debounceScan (((st.index key).take debounceCandidateScan).map Prod.snd)
  (r.1, { st with
    index := update st.index key ((st.index key).filter (·.2 ∉ r.2)) })

/-- `ZREM` from the index of the job's key. -/
def unindex (job : Job) (st : DebounceState) : DebounceState :=
  match job.debounceKey with
  | none => st
  | some key => { st with
    index := update st.index (job.namespace_, key)
      ((st.index (job.namespace_, key)).filter (·.2 ≠ job.id)) }

/-- `DEBOUNCE_INSERT`: scan again, and insert the job if no window is open. -/
def insert (key : Option String × String) (job : Job) (deps : List JobId) (st : DebounceState) :
    Option Job × DebounceState :=
  match st.scan key with
  | (some raced, st) => (some raced, st)
  | (none, st) =>
    let store := ((st.store.setJob job).addStatus job.status job.id).addQueued job.queue job.id
    (none, { st with
      store := deps.foldl (fun st dep => (st.addDependsOn job.id dep).addDependent dep job.id) store
      index := update st.index key (zadd job.createdAt job.id (st.index key))
      slid := update st.slid job.id none })

/-- `DEBOUNCE_SLIDE`: if the document is the one that was read and no claim has appeared. -/
def slide (target job : Job) (options : DebounceOptions) (st : DebounceState) :
    Bool × DebounceState :=
  if st.store.jobs target.id = some target ∧ (st.store.claim target.id).isNone then
    (true, { st with
      store := (st.store.setJob (slidTo target job options)).addQueued target.queue target.id
      slid := update st.slid target.id (some ⟨job, options, slidTo target job options⟩) })
  else (false, st)

end DebounceState

/-! ## Commands -/

inductive DebounceCommand where
  | run (c : Command)
  | resolve (key : Option String × String)
  | insert (key : Option String × String) (job : Job) (deps : List JobId)
  | slide (target job : Job) (options : DebounceOptions)

def DebounceCommand.Res : DebounceCommand → Type
  | run c => c.Res
  | resolve _ | insert _ _ _ => Option Job
  | slide _ _ _ => Bool

abbrev debounceSig : Signature := ⟨DebounceCommand, DebounceCommand.Res⟩

/-- One command. A claim and an archival take the job out of its window. -/
def DebounceCommand.act :
    (c : DebounceCommand) → RedisEnv → DebounceState → c.Res × DebounceState
  | .run (.claimPending seen job), env, st =>
    let r := (Command.claimPending seen job).act env st.store
    (r.1, bif r.1 then
      { ({ st with store := r.2 }).unindex job with
        handed := (job, st.slid job.id) :: st.handed }
    else { st with store := r.2 })
  | .run (.archive seen job oldStatus), env, st =>
    let r := (Command.archive seen job oldStatus).act env st.store
    (r.1, { st with store := r.2 }.unindex job)
  | .run c, env, st =>
    let r := c.act env st.store
    (r.1, { st with store := r.2 })
  | .resolve key, _, st => st.scan key
  | .insert key job deps, _, st => st.insert key job deps
  | .slide target job options, _, st => st.slide target job options

/-- The server when time has passed. -/
def DebounceState.wait (elapsed : Nat) (st : DebounceState) : DebounceState :=
  { st with store := st.store.wait elapsed }

/-- The server: time passes before a command. -/
abbrev debounceMachine : Machine debounceSig where
  State := DebounceState
  Env := RedisEnv
  exec c env st := c.act env (st.wait env.elapsed)

/-! ## Operations -/

abbrev DebounceProg := ExceptT QueueError (Prog debounceSig)

def DebounceProg.send (c : DebounceCommand) : DebounceProg c.Res :=
  ExceptT.mk (.call c fun r => .ret (.ok r))

/-- An operation of the store. -/
def DebounceProg.lift {α : Type} (p : RedisProg α) : DebounceProg α :=
  ExceptT.mk (p.run.embed DebounceCommand.run fun _ r => r)

open DebounceProg

/-- How often a debounced enqueue scans. -/
def maxDebounceAttempts : Nat := 3

def debounceAttempts (key : String) (job : Job) (deps : List JobId) (options : DebounceOptions) :
    Nat → DebounceProg Job
  | 0 => throw (.other ("debounced enqueue for " ++ key ++ " lost its slide target " ++
      toString maxDebounceAttempts ++ " times"))
  | attempts + 1 => do
    let open_ : Option Job ← send (.resolve (job.namespace_, key))
    match open_ with
    | some target =>
      let applied : Bool ← send (.slide target job options)
      if applied then return slidTo target job options
      else debounceAttempts key job deps options attempts
    | none =>
      lift (validateDepIds job.namespace_ [] deps)
      let raced : Option Job ← send (.insert (job.namespace_, key) job deps)
      match raced with
      | none => return job
      | some target =>
        let applied : Bool ← send (.slide target job options)
        if applied then return slidTo target job options
        else debounceAttempts key job deps options attempts

def enqueueDebounced (newJob : NewJob) (options : DebounceOptions) : DebounceProg Job := do
  match validatedDebounceKey newJob options with
  | .error e => throw e
  | .ok key =>
    let job ← lift (intoJob newJob)
    let now ← lift nowMillis
    debounceAttempts key
      { job with createdAt := now, scheduledAt := saturatingAdd now options.windowMs }
      newJob.dependsOn options maxDebounceAttempts

inductive DebounceCall where
  | enqueueDebounced (newJob : NewJob) (options : DebounceOptions)
  | dequeue (queue : String) (now : Int) (namespace_ : Option String)
  | dequeueBatch (queue : String) (now : Int) (namespace_ : Option String) (max : Nat)

/-- The operation of a call; its result is the caller's. -/
def DebounceCall.prog : DebounceCall → Prog debounceSig Unit
  | .enqueueDebounced newJob options =>
    (Redis.enqueueDebounced newJob options).run.bind fun _ => .ret ()
  | .dequeue queue now ns => (lift (Redis.dequeue queue now ns)).run.bind fun _ => .ret ()
  | .dequeueBatch queue now ns max =>
    (lift (Redis.dequeueBatch queue now ns max)).run.bind fun _ => .ret ()

abbrev debounceClients : Clients debounceSig := ⟨DebounceCall, DebounceCall.prog⟩

/-! ## What the operations ask for -/

/-- A claim is of a due job, and a dequeue writes no other document. -/
def Command.Dequeues : Command → Prop
  | .claimPending seen job => ∃ now, seen.scheduledAt ≤ now ∧
      job = { seen with status := .running, startedAt := some now }
  | .archive _ _ oldStatus => oldStatus = .pending
  | .nowMillis | .freshId _ | .getJob _ | .getArchived _ | .mgetJobs _ | .scanQueue _ _
  | .dependsOn _ | .dropQueued _ _ => True
  | _ => False

def DebounceCommand.Dequeues : DebounceCommand → Prop
  | run c => c.Dequeues
  | _ => True

/-- The operation asks for nothing else. -/
abbrev OnlyDequeues {α : Type} (p : RedisProg α) : Prop := p.run.Calls Command.Dequeues

namespace OnlyDequeues

variable {α β : Type}

theorem ask {c : Command} (h : c.Dequeues) : OnlyDequeues (Redis.ask c) := ⟨h, fun _ => trivial⟩

theorem bind {p : RedisProg α} {f : α → RedisProg β} (hp : OnlyDequeues p)
    (hf : ∀ a, OnlyDequeues (f a)) : OnlyDequeues (p >>= f) :=
  hp.except_bind hf

theorem getJob (id : JobId) (ns : Option String) : OnlyDequeues (Redis.getJob id ns) := by
  refine bind (ask trivial) fun job => ?_
  cases job with
  | some => trivial
  | none => exact bind (ask trivial) fun _ => trivial

theorem validateDepIds (ns : Option String) (deps : List JobId) :
    OnlyDequeues (Redis.validateDepIds ns [] deps) := by
  induction deps with
  | nil => trivial
  | cons dep deps ih =>
    refine bind (ask trivial) fun job => ?_
    rcases job with _ | _
    · refine bind (ask trivial) fun archived => ?_
      split
      · exact ih
      · trivial
    · dsimp only
      split
      · trivial
      · exact ih

theorem dependenciesComplete (deps : List JobId) :
    OnlyDequeues (Redis.dependenciesComplete deps) := by
  induction deps with
  | nil => trivial
  | cons dep deps ih =>
    refine bind (getJob dep none) fun job => ?_
    rcases job with _ | _
    · trivial
    · dsimp only
      split
      · exact ih
      · trivial

theorem dependenciesMet (job : Job) : OnlyDequeues (Redis.dependenciesMet job) := by
  unfold Redis.dependenciesMet
  split
  · exact bind (ask trivial) dependenciesComplete
  · trivial

theorem claimCandidates (queue : String) (now : Int) (ns : Option String) (max : Nat)
    (found : List (JobId × Option Job)) :
    OnlyDequeues (Redis.claimCandidates queue now ns max found) := by
  induction found generalizing max with
  | nil => cases max <;> trivial
  | cons entry rest ih =>
    obtain ⟨id, job⟩ := entry
    rcases max with _ | _
    · trivial
    rcases job with _ | job
    · exact bind (ask trivial) fun _ => ih _
    · simp only [Redis.claimCandidates]
      split
      · exact ih _
      · next hel =>
        split
        · exact bind (bind (ask trivial) fun _ => ask rfl) fun _ => ih _
        · refine bind (dependenciesMet job) fun met => ?_
          split
          · -- the candidate is due
            have hdue : job.scheduledAt ≤ now := (of_decide_eq_true (not_not.1 hel)).2.1
            refine bind (ask ⟨now, hdue, rfl⟩) fun claimed => ?_
            split
            · exact bind (ih _) fun _ => trivial
            · exact ih _
          · exact ih _

theorem scanAndClaim (queue : String) (now : Int) (ns : Option String) (limit max : Nat) :
    OnlyDequeues (Redis.scanAndClaim queue now ns limit max) :=
  bind (ask trivial) fun _ => bind (ask trivial) fun _ => claimCandidates ..

end OnlyDequeues

theorem calls_lift {α : Type} {p : RedisProg α} (h : OnlyDequeues p) :
    (lift p).run.Calls DebounceCommand.Dequeues := by
  change (Prog.embed (T := debounceSig) DebounceCommand.run (fun _ r => r) p.run).Calls _
  replace h : p.run.Calls Command.Dequeues := h
  generalize p.run = q at h
  induction q with
  | ret => trivial
  | call c k ih => exact ⟨h.1, fun r => ih r (h.2 r)⟩

theorem calls_debounceAttempts (key : String) (job : Job) (deps : List JobId)
    (options : DebounceOptions) (attempts : Nat) :
    (debounceAttempts key job deps options attempts).run.Calls DebounceCommand.Dequeues := by
  induction attempts with
  | zero => trivial
  | succ attempts ih =>
    -- the slide, or the attempts that are left
    have hslide : ∀ target, (do
        let applied : Bool ← send (.slide target job options)
        if applied then return slidTo target job options
        else debounceAttempts key job deps options attempts : DebounceProg Job).run.Calls
          DebounceCommand.Dequeues := by
      intro target
      refine .except_bind ⟨trivial, fun _ => trivial⟩ fun applied => ?_
      split
      · trivial
      · exact ih
    refine .except_bind ⟨trivial, fun _ => trivial⟩ fun found => ?_
    cases found with
    | some target => exact hslide target
    | none =>
      refine .except_bind (calls_lift (.validateDepIds _ _)) fun _ => ?_
      refine .except_bind ⟨trivial, fun _ => trivial⟩ fun raced => ?_
      cases raced with
      | none => trivial
      | some target => exact hslide target

theorem calls_prog (call : DebounceCall) : call.prog.Calls DebounceCommand.Dequeues := by
  cases call with
  | enqueueDebounced =>
    refine .bind ?_ fun _ => trivial
    unfold Redis.enqueueDebounced
    split
    · trivial
    · refine .except_bind (calls_lift ?_) fun job => ?_
      · exact .bind (.ask trivial) fun _ => .bind (.ask trivial) fun _ => trivial
      · exact .except_bind (calls_lift (.ask trivial)) fun _ => calls_debounceAttempts ..
  | dequeue =>
    exact .bind (calls_lift (.bind (.scanAndClaim ..)
      fun _ => trivial)) fun _ => trivial
  | dequeueBatch =>
    refine .bind (calls_lift ?_) fun _ => trivial
    unfold Redis.dequeueBatch
    split
    · trivial
    · exact .scanAndClaim ..

/-! ## Runs -/

/-- At a claim of a pending job: its document is still the one that the dequeue read. -/
def DebounceState.unchanged (st : DebounceState) : DebounceCommand → Bool
  | .run (.claimPending seen job) =>
    decide (job.id ∈ st.store.byStatus .pending → st.store.jobs job.id = some seen)
  | _ => true

/-- Any calls, any interleaving, any passage of time. -/
abbrev anyDebounce (τ : Type) : Rules debounceMachine debounceClients τ where
  mayStart _ _ _ := True
  mayStep _ _ _ _ := True

/-- The same, when no document changes between a dequeue's read and its claim. -/
abbrev steadyDebounce (τ : Type) : Rules debounceMachine debounceClients τ where
  mayStart _ _ _ := True
  mayStep st _ c env := (st.wait env.elapsed).unchanged c = true

/-- An execution was handed what its job was last slid to, and not before the deadline. -/
def Slide.Honoured (s : Slide) (job : Job) : Prop :=
  (s.options.replacePayload = true → job.payload = s.job.payload) ∧
    job.payload = s.document.payload ∧ ∃ t, job.startedAt = some t ∧ s.document.scheduledAt ≤ t

/-- A pending job that was slid still has the document of the slide. -/
structure DebounceInv (st : DebounceState) : Prop where
  document : ∀ id s, st.slid id = some s → id ∈ st.store.byStatus .pending →
    st.store.jobs id = some s.document
  payload : ∀ id s, st.slid id = some s → s.options.replacePayload = true →
    s.document.payload = s.job.payload
  handed : ∀ p ∈ st.handed, ∀ s, p.2 = some s → s.Honoured p.1

namespace DebounceInv

variable {st : DebounceState}

section

variable (h : DebounceInv st)
include h

/-- Indices are not what is written down in documents. -/
theorem reindex (index : Option String × String → List (Int × JobId)) :
    DebounceInv { st with index } := ⟨h.document, h.payload, h.handed⟩

theorem unindex (job : Job) : DebounceInv (st.unindex job) := by
  unfold DebounceState.unindex
  split
  · exact h
  · exact h.reindex _

/-- A write that leaves the pending set's documents, or takes jobs out of the set. -/
theorem frame {store : Store}
    (hstore : ∀ id, id ∈ store.byStatus .pending → id ∈ st.store.byStatus .pending ∧
      store.jobs id = st.store.jobs id) :
    DebounceInv { st with store } where
  document id s hs hid := ((hstore id hid).2).trans (h.document id s hs (hstore id hid).1)
  payload := h.payload
  handed := h.handed

theorem insert (key : Option String × String) (job : Job) (deps : List JobId) :
    DebounceInv (st.insert key job deps).2 := by
  -- dependencies are other keys
  have hdeps : ∀ (deps : List JobId) (store : Store),
      (deps.foldl (fun st dep => (st.addDependsOn job.id dep).addDependent dep job.id) store).jobs =
        store.jobs ∧
      (deps.foldl (fun st dep => (st.addDependsOn job.id dep).addDependent dep job.id)
        store).byStatus = store.byStatus := by
    intro deps
    induction deps with
    | nil => exact fun _ => ⟨rfl, rfl⟩
    | cons dep deps ih => exact fun store => ih _
  unfold DebounceState.insert
  have hscan : DebounceInv (st.scan key).2 := h.reindex _
  generalize st.scan key = r at hscan ⊢
  obtain ⟨found, st'⟩ := r
  cases found with
  | some => exact hscan
  | none =>
    refine ⟨fun id s hs hid => ?_, fun id s hs => ?_, hscan.handed⟩
    · by_cases heq : id = job.id
      · simp [heq] at hs
      · simp only [update_of_ne heq] at hs
        simp only [(hdeps deps _).2, addQueued, addStatus, setJob,
          update_apply] at hid
        have hjob := hscan.document id s hs (by grind)
        simpa [(hdeps deps _).1, addQueued, addStatus, setJob, heq] using hjob
    · by_cases heq : id = job.id
      · simp [heq] at hs
      · exact hscan.payload id s (by simpa only [update_of_ne heq] using hs)

theorem slide (target job : Job) (options : DebounceOptions) :
    DebounceInv (st.slide target job options).2 := by
  unfold DebounceState.slide
  split
  · refine ⟨fun id s hs hid => ?_, fun id s hs hp => ?_, h.handed⟩
    · by_cases heq : id = target.id
      · subst heq
        simp only [update_self, Option.some.injEq] at hs
        subst hs
        simp [addQueued, setJob, slidTo]
      · simp only [update_of_ne heq] at hs
        have hjob := h.document id s hs hid
        simpa [addQueued, setJob, slidTo, heq] using hjob
    · by_cases heq : id = target.id
      · subst heq
        simp only [update_self, Option.some.injEq] at hs
        subst hs
        exact if_pos hp
      · exact h.payload id s (by simpa only [update_of_ne heq] using hs) hp
  · exact h

/-- **The claim of a job** whose document is the one that was read. -/
theorem claim {seen job : Job} {now : Int} (hdue : seen.scheduledAt ≤ now)
    (hjob : job = { seen with status := .running, startedAt := some now })
    (hsame : job.id ∈ st.store.byStatus .pending → st.store.jobs job.id = some seen)
    (env : RedisEnv) :
    DebounceInv ((DebounceCommand.run (.claimPending seen job)).act env st).2 := by
  simp only [DebounceCommand.act, Command.act, Store.claimPending]
  split
  · next hpend =>
    have hframe : DebounceInv { st with store := ((((st.store.setJob job).dropStatus .pending
        job.id).addStatus .running job.id).dropQueued job.queue job.id) } := by
      refine h.frame fun id hid => ?_
      simp [dropQueued, addStatus, dropStatus, setJob] at hid
      refine ⟨hid.1, ?_⟩
      simp [dropQueued, addStatus, dropStatus, setJob, hid.2]
    have hout := hframe.unindex job
    refine { hout with handed := fun p hp s hs => ?_ }
    have hhanded : ∀ (st : DebounceState), (st.unindex job).handed = st.handed := by
      intro _
      unfold DebounceState.unindex
      split <;> rfl
    obtain rfl | hp := List.mem_cons.1 hp
    · -- the document of the last slide is the one that was read
      have hdoc := h.document job.id s hs hpend
      rw [hsame hpend] at hdoc
      cases hdoc
      subst hjob
      exact ⟨h.payload _ s hs, rfl, now, rfl, hdue⟩
    · exact h.handed p hp s hs
  · exact ⟨h.document, h.payload, h.handed⟩

end

end DebounceInv

/-- **Every command** of a run in which no document changes between a read and a claim. -/
theorem DebounceInv.act {st : DebounceState} (h : DebounceInv st) {c : DebounceCommand}
    (hc : c.Dequeues) (hsame : st.unchanged c = true) (env : RedisEnv) :
    DebounceInv (c.act env st).2 := by
  cases c with
  | resolve => exact h.reindex _
  | insert key job deps => exact h.insert key job deps
  | slide target job options => exact h.slide target job options
  | run c =>
    cases c with
    | claimPending =>
      obtain ⟨now, hdue, hjob⟩ := hc
      exact h.claim hdue hjob (of_decide_eq_true hsame) env
    | archive seen job oldStatus =>
      obtain rfl : oldStatus = .pending := hc
      refine (h.frame fun id hid => ?_).unindex job
      simp [Command.act, archive, dropStatus, dropQueued, dropSteps,
        dropClaim, unindexClaim] at hid ⊢
      exact ⟨hid.1, update_of_ne hid.2 _ _⟩
    | nowMillis | freshId | getJob | getArchived | mgetJobs | scanQueue | dependsOn | dropQueued =>
        exact h.frame fun _ hid => ⟨hid, rfl⟩
    | _ => exact hc.elim

section

variable {τ : Type} [DecidableEq τ]

/-- What the operations ask for is all that the discipline says. -/
def debounceDiscipline : Discipline debounceSig Unit where
  permits _ := DebounceCommand.Dequeues
  expects _ _ _ := True
  next _ _ _ := ()
  done _ := True

theorem debounce_sound : Pool.Sound (steadyDebounce τ) debounceDiscipline
    fun st _ => DebounceInv st where
  start _ _ _ call h _ _ := ⟨(), h, (calls_prog call).obeys (D := debounceDiscipline)
    (fun _ hc _ => hc) ()⟩
  step st G t c env h hc hmay := by
    have hwait : DebounceInv (st.wait env.elapsed) := h.frame fun _ hid => ⟨hid, rfl⟩
    exact ⟨trivial, hwait.act hc hmay env⟩

/-- **Slides are not lost** in a run in which every claim of a pending job finds the document that
its dequeue read: whoever is handed a job that was slid is handed what it was last slid to, and not
before the deadline. -/
theorem slides_kept {store : Store} {index : Option String × String → List (Int × JobId)}
    {c : Pool debounceMachine τ}
    (h : Pool.Reaches (steadyDebounce τ) (Pool.idle (.start store index)) c) :
    ∀ p ∈ c.state.handed, ∀ s, p.2 = some s → s.Honoured p.1 := by
  have hinit : DebounceInv (.start store index) :=
    ⟨fun _ _ hs => (by cases hs), fun _ _ hs => (by cases hs), fun _ hp => (by cases hp)⟩
  obtain ⟨G, hG⟩ := debounce_sound.reachable (.idle (G := fun _ => ()) hinit fun _ => trivial) h
  exact hG.inv.handed

end

/-- A job that is debounced under the key `k`. -/
def debouncedJob (payload : Bytes) : NewJob :=
  { NewJob.plain "q" "t" with debounceKey := some "k", payload := payload }

/-- A debounced enqueue of five commands that draws `id`; its payload replaces the one before. -/
def debounceMoves (payload : Bytes) (id : JobId) :
    List (Move debounceMachine debounceClients Bool) :=
  .start true (.enqueueDebounced (debouncedJob payload) ⟨10, 100, true⟩) ::
    List.replicate 5 (.step true ⟨0, id, [], []⟩)

/-- A dequeue at time 10 reads the queue and its documents. -/
def readMoves : List (Move debounceMachine debounceClients Bool) :=
  [.start false (.dequeue "q" 10 none), .step false ⟨10, "", ["a"], []⟩,
    .step false ⟨0, "", [], []⟩]

/-- The job is slid at time 0 and dequeued at time 10, with the payload of the slide. -/
theorem slides_kept_once : ∃ c, Pool.Reaches (steadyDebounce Bool)
      (Pool.idle (.start (.empty 0) fun _ => [])) c ∧
    (c.state.handed.map fun p => (p.1.payload, p.2.map fun s => s.job.payload)) =
      [([2], some [2])] ∧
    ∀ p ∈ c.state.handed, ∀ s, p.2 = some s → s.Honoured p.1 := by
  refine Pool.exists_reaches_and (debounceMoves [1] "a" ++ debounceMoves [2] "b" ++ readMoves ++
    [.step false ⟨0, "", [], []⟩]) ?_ fun c hc => slides_kept hc
  decide +kernel

/-- **A slide is lost**: it is written after the dequeue read the document and before it claimed the
job, and the claim writes what was read. -/
theorem slide_lost : ∃ c, Pool.Reaches (anyDebounce Bool)
      (Pool.idle (.start (.empty 0) fun _ => [])) c ∧
    ∃ p ∈ c.state.handed, ∃ s, p.2 = some s ∧ s.options.replacePayload = true ∧
      p.1.payload ≠ s.job.payload ∧ p.1.startedAt = some 10 ∧ s.document.scheduledAt = 20 := by
  obtain ⟨c, hc, hlost⟩ := Pool.exists_reaches (anyDebounce Bool)
    (.idle (.start (.empty 0) fun _ => []))
    (debounceMoves [1] "a" ++ readMoves ++ debounceMoves [2] "b" ++ [.step false ⟨0, "", [], []⟩])
    (fun c => ∃ p ∈ c.state.handed, ∃ s ∈ p.2, s.options.replacePayload = true ∧
      p.1.payload ≠ s.job.payload ∧ p.1.startedAt = some 10 ∧ s.document.scheduledAt = 20)
    (by decide +kernel)
  obtain ⟨p, hp, s, hs, h⟩ := hlost
  exact ⟨c, hc, p, hp, s, hs, h⟩

end Flexiq.Redis
