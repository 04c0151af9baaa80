import Flexiq.WorkflowFacts
import Flexiq.Session

/-!
# Rules for the workflow methods

A discipline on workflow methods only looks at statements: the clock and drawn identifiers do
not move a ghost value (`WfDiscipline`). One rule for each way a method is put together is
enough to follow every method through (`WfDiscipline.Tries`). Most parts of most methods make
only statements that a discipline does not care about; `WfProg.Makes` says which statements a
program can make, and `Makes.tries` turns that into a rule.
-/

namespace Flexiq

open Function

open WfProg

/-! ## Statements a program can make -/

namespace WfProg

variable {α β : Type} {P : WfStmt → Prop}

/-- Every statement the program can make satisfies `P`. -/
def Makes (P : WfStmt → Prop) (p : WfProg α) : Prop :=
  p.run.Calls fun op : WfOp => ∀ s, op = .stmt s → P s

theorem Makes.pure (a : α) : Makes P (Pure.pure a : WfProg α) := trivial

theorem Makes.throw (e : QueueError) : Makes P (MonadExcept.throw e : WfProg α) := trivial

theorem Makes.ofResult (r : Except QueueError α) : Makes P (WfProg.ofResult r) := trivial

variable {p : WfProg α}

theorem Makes.bind {f : α → WfProg β} (h : Makes P p) (hf : ∀ a, Makes P (f a)) :
    Makes P (p >>= f) :=
  h.except_bind hf

theorem Makes.query {s : WfStmt} (h : P s) : Makes P (WfProg.query s) :=
  ⟨fun s' hs' => by cases hs'; exact h, fun _ => trivial⟩

theorem Makes.nowMillis : Makes P WfProg.nowMillis :=
  ⟨fun _ hs => (by cases hs), fun _ => trivial⟩

theorem Makes.newId : Makes P WfProg.newId :=
  ⟨fun _ hs => (by cases hs), fun _ => trivial⟩

theorem Makes.attempt (h : Makes P p) : Makes P (WfProg.attempt p) :=
  Prog.Calls.bind h fun _ => trivial

theorem Makes.orElse (h : Makes P p) (a : α) : Makes P (WfProg.orElse p a) :=
  Prog.Calls.bind h fun _ => trivial

/-- A program of the job store only makes transactions. -/
theorem Makes.ofStore (p : StoreProg α) (h : ∀ op, P (.job op)) : Makes P (WfProg.ofStore p) := by
  have hall : p.Calls fun _ => True := by
    induction p with
    | ret a => trivial
    | call op k ih => exact ⟨trivial, ih⟩
  refine Prog.Calls.bind (hall.guarded fun op _ s hs => ?_) fun _ => trivial
  cases hs
  exact h op

theorem Makes.mono {Q : WfStmt → Prop} (h : Makes P p) (hPQ : ∀ s, P s → Q s) : Makes Q p :=
  Prog.Calls.mono h fun _ hop s hs => hPQ s (hop s hs)

end WfProg

/-! ## What the parts of the methods make -/

namespace PyQueue

variable {P : WfStmt → Prop} (q : PyQueue) (codec : WorkflowCodec)

theorem makes_cancelNodeJob (node : WorkflowNode) (hjob : ∀ op, P (.job op)) :
    (q.cancelNodeJob node).Makes P := by
  unfold cancelNodeJob
  split
  · refine .attempt (Makes.nowMillis.bind fun now => ?_)
    refine (Makes.ofStore _ hjob).bind fun r => ?_
    exact (Makes.ofResult r).bind fun _ => Makes.pure ()
  · exact .pure ()

theorem makes_cascadeSkipPendingNodes (runId : String) (nodes : List WorkflowNode)
    (hjob : ∀ op, P (.job op))
    (hskip : ∀ node ∈ nodes, node.status = .pending ∨ node.status = .ready →
      P (.setNode q.namespace_ runId node.nodeName (.status .skipped))) :
    (q.cascadeSkipPendingNodes runId nodes).Makes P := by
  induction nodes with
  | nil => exact .pure ()
  | cons node rest ih =>
    have hrest := ih fun n hn => hskip n (List.mem_cons_of_mem _ hn)
    unfold cascadeSkipPendingNodes
    split
    · next hopen =>
      refine (q.makes_cancelNodeJob node hjob).bind fun _ => ?_
      refine (Makes.attempt (Makes.query ?_)).bind fun _ => hrest
      exact hskip node List.mem_cons_self hopen
    · exact hrest

theorem makes_enqueue (newJob : NewJob) (h : P (.enqueue newJob)) : (enqueue newJob).Makes P :=
  (Makes.query h).bind fun _ => Makes.ofResult _

theorem makes_submittedDefinition (sub : Submission)
    (hget : ∀ name version, P (.getDefinition name version))
    (hcreate : ∀ d, P (.createDefinition d)) : (submittedDefinition sub).Makes P := by
  refine (Makes.query (hget _ _)).bind fun d => ?_
  cases d with
  | some id => exact Makes.pure id
  | none =>
    refine Makes.newId.bind fun id => ?_
    exact (Makes.query (hcreate _)).bind fun _ => Makes.pure id

theorem makes_submitNodes (sub : Submission) (steps : List (String × StepMetadata))
    (runId : String) (now : Int) (henqueue : ∀ newJob, P (.enqueue newJob))
    (hcreate : ∀ node, node.runId = runId → node.status = .pending ∨ node.status = .cacheHit →
      P (.createNode q.namespace_ node)) :
    ∀ (ordered : List TopologicalNode) (jobIds : List (String × JobId)),
      (q.submitNodes codec sub steps runId now jobIds ordered).Makes P := by
  intro ordered
  induction ordered with
  | nil => exact fun _ => .pure ()
  | cons topo rest ih =>
    intro jobIds
    unfold submitNodes
    refine .bind ?_ fun ids => ih ids
    unfold submitNode
    split
    · exact (Makes.query (hcreate _ rfl (.inr rfl))).bind fun _ => Makes.pure jobIds
    · split
      · exact (Makes.query (hcreate _ rfl (.inl rfl))).bind fun _ => Makes.pure jobIds
      · split
        · exact .throw _
        · exact Makes.throw _
        · refine (Makes.ofResult _).bind fun dependsOn => ?_
          refine (makes_enqueue _ (henqueue _)).bind fun job => ?_
          exact (Makes.query (hcreate _ rfl (.inl rfl))).bind fun _ => Makes.pure _

theorem makes_enqueueChildren (runId : String) (spec : JobSpec) (now : Int)
    (henqueue : ∀ newJob, P (.enqueue newJob)) (children : List (String × Bytes)) :
    (q.enqueueChildren codec runId spec now children).Makes P := by
  induction children with
  | nil => exact .pure []
  | cons child rest ih =>
    obtain ⟨_, _⟩ := child
    refine (makes_enqueue _ (henqueue _)).bind fun job => ?_
    exact ih.bind fun ids => .pure _

theorem makes_requireVisibleRun (runId : String) (h : P (.getRun q.namespace_ runId)) :
    (q.requireVisibleRun runId).Makes P := by
  refine (Makes.query h).bind fun run => ?_
  cases run with
  | none => exact Makes.throw _
  | some run => exact Makes.pure ()

end PyQueue

/-! ## Disciplines on statements -/

/-- A discipline that only looks at statements, and lets a method end anywhere. -/
structure WfDiscipline (γ : Type) where
  permits : γ → WfStmt → Prop
  expects : γ → (s : WfStmt) → Except QueueError s.Ans → Prop
  next : γ → (s : WfStmt) → Except QueueError s.Ans → γ

namespace WfDiscipline

variable {γ α β : Type}

/-- The clock and drawn identifiers are always permitted and change nothing. -/
def toDiscipline (D : WfDiscipline γ) : Discipline wfSig γ where
  permits g
    | .stmt s => D.permits g s
    | .nowMillis | .newId => True
  expects g
    | .stmt s => D.expects g s
    | .nowMillis | .newId => fun _ => True
  next g
    | .stmt s => D.next g s
    | .nowMillis | .newId => fun _ => g
  done _ := True

variable {D : WfDiscipline γ} {g : γ} {Q : γ → α → Prop}

/-- The method follows the discipline, and whatever it succeeds with satisfies `Q`. -/
abbrev Tries (D : WfDiscipline γ) (p : WfProg α) (g : γ) (Q : γ → α → Prop) : Prop :=
  Prog.Tries D.toDiscipline p g Q

variable {p : WfProg α} {s : WfStmt}

theorem Tries.bind {f : α → WfProg β} {Q : γ → β → Prop}
    (h : D.Tries p g fun g' a => D.Tries (f a) g' Q) : D.Tries (p >>= f) g Q :=
  Prog.Tries.bind h

theorem Tries.query {Q : γ → s.Ans → Prop} (hp : D.permits g s)
    (hQ : ∀ a, D.expects g s (.ok a) → Q (D.next g s (.ok a)) a) : D.Tries (WfProg.query s) g Q :=
  .perform rfl hp fun r hr a ha => by
    obtain rfl : r = .ok a := ha
    exact hQ a hr

theorem Tries.nowMillis {Q : γ → Int → Prop} (hQ : ∀ t, Q g t) : D.Tries WfProg.nowMillis g Q :=
  ⟨trivial, fun t _ _ ha => Except.ok.inj ha ▸ hQ t⟩

theorem Tries.newId {Q : γ → String → Prop} (hQ : ∀ id, Q g id) : D.Tries WfProg.newId g Q :=
  ⟨trivial, fun t _ _ ha => Except.ok.inj ha ▸ hQ t⟩

theorem Tries.ofResult {r : Except QueueError α} (hQ : ∀ a, r = .ok a → Q g a) :
    D.Tries (WfProg.ofResult r) g Q := hQ

/-- A read that falls back on a default. -/
theorem Tries.orElse_query {default : s.Ans} {Q : γ → s.Ans → Prop} (hp : D.permits g s)
    (hok : ∀ a, D.expects g s (.ok a) → Q (D.next g s (.ok a)) a)
    (herr : ∀ e, D.expects g s (.error e) → Q (D.next g s (.error e)) default) :
    D.Tries (WfProg.orElse (WfProg.query s) default) g Q := by
  refine ⟨hp, fun r hr a ha => ?_⟩
  obtain rfl : r.toOption.getD default = a := Except.ok.inj ha
  cases r with
  | ok a => exact hok a hr
  | error e => exact herr e hr

/-- A statement that the discipline lets pass at this ghost value. -/
def Passes (D : WfDiscipline γ) (g : γ) (s : WfStmt) : Prop :=
  D.permits g s ∧ ∀ r, D.next g s r = g

/-- A program of statements that the discipline lets pass. -/
theorem follows_of_makes (h : p.Makes (D.Passes g)) :
    p.run.Follows D.toDiscipline g fun g' _ => g' = g := by
  refine h.follows fun op hop => ?_
  cases op with
  | nowMillis | newId => exact ⟨trivial, fun _ => rfl⟩
  | stmt s => exact hop s rfl

theorem tries_of_makes (h : p.Makes (D.Passes g)) (hQ : ∀ a, Q g a) : D.Tries p g Q := by
  refine (follows_of_makes h).mono fun g' r hg' a _ => ?_
  rw [hg']
  exact hQ a

/-- A method, run for its effects. -/
theorem follows_discard (h : D.Tries p g fun _ _ => True) :
    p.discard.Follows D.toDiscipline g fun g' _ => D.toDiscipline.done g' :=
  Prog.Follows.bind (Prog.Follows.mono h fun _ _ _ => trivial)

end WfDiscipline

/-! ## Calls in progress

Two laws below need to know what a call in progress started from: the metadata its job had, and
whether a run existed and had a parent. -/

section InProgress

variable {r : String}

/-- What a state still knows of an earlier one: the metadata of its jobs, and whose child the run
is. -/
structure WfState.Since (r : String) (old s : WfState) : Prop where
  jobs : ∀ jobId job, getJob jobId none old.db = some job →
    s.db.Tells jobId job.metadata ∧ jobId ∈ s.issued
  run : ∀ run, old.wf.runs.find r = some run →
    ∃ run', s.wf.runs.find r = some run' ∧ run'.parentRunId = run.parentRunId

theorem WfState.Since.refl {s : WfState} (h : s.Sane) : WfState.Since r s s where
  jobs _ _ hjob := ⟨h.partition.tells hjob, h.issued _ (.of_getJob hjob)⟩
  run run hrun := ⟨run, hrun, rfl⟩

/-- A stored run stays stored, with its parent. -/
theorem run_exec (op : WfOp) (world : WfWorld) {s : WfState} {run : WorkflowRun}
    (h : s.wf.runs.find r = some run) :
    ∃ run', (op.exec world s).2.wf.runs.find r = some run' ∧
      run'.parentRunId = run.parentRunId := by
  obtain hruns | ⟨ns, k, _, _, -, hruns⟩ | ⟨ns, _, _, -, hruns⟩ | ⟨_, _, -, hins⟩ :=
    runs_exec op world s
  · rw [hruns]
    exact ⟨run, h, rfl⟩
  · rw [hruns, WorkflowDb.find_updateRunState, h]
    refine ⟨_, rfl, ?_⟩
    unfold Table.updated
    split <;> rfl
  · rw [hruns, WorkflowDb.find_setRunCompleted, h]
    refine ⟨_, rfl, ?_⟩
    unfold Table.updated
    split <;> rfl
  · refine ⟨run, ?_, rfl⟩
    rw [Table.find_insert hins, if_neg, h]
    rintro rfl
    rw [Table.find_of_insert hins] at h
    cases h

theorem WfState.Since.exec {old s : WfState} {op : WfOp} {world : WfWorld}
    (h : WfState.Since r old s) (hids : ∀ id ∈ op.newIds world, id ∉ s.issued) :
    WfState.Since r old (op.exec world s).2 where
  jobs jobId job hjob :=
    have ⟨htells, hissued⟩ := h.jobs jobId job hjob
    htells.step hissued hids
  run run hrun := by
    obtain ⟨_, hrun₁, hparent₁⟩ := h.run run hrun
    obtain ⟨run₂, hrun₂, hparent₂⟩ := run_exec op world hrun₁
    exact ⟨run₂, hrun₂, hparent₂.trans hparent₁⟩

/-- What a thread knows about its call: the call and the state it was made in, and whether it
may write what the law is about. -/
structure CallGhost where
  begun : Option (WfCall × WfState)
  may : Bool

/-- An answer about a job agrees with what the call started from. -/
def CallGhost.ReadsMetadata (g : CallGhost) (jobId : JobId)
    (ans : Except QueueError (Option Job)) : Prop :=
  ∀ b old job, g.begun = some b → getJob jobId none b.2.db = some old → ans = .ok (some job) →
    job.metadata = old.metadata

variable {dlq : MetadataCodec} {codec : WorkflowCodec}

/-- The ghost values of the busy threads name their calls, and the state still knows what these
started from. -/
structure Knows {τ : Type} (r : String) (s : WfState)
    (K : Active wfMachine (wfClients dlq codec) τ) (G : τ → CallGhost) : Prop where
  sane : s.Sane
  begun : ∀ t b, K t = some b → (G t).begun = some (b.call, b.since)
  since : ∀ t b, K t = some b → WfState.Since r b.since s

variable {τ : Type} {s : WfState} {K : Active wfMachine (wfClients dlq codec) τ} {G : τ → CallGhost}

theorem Knows.idle (G : τ → CallGhost) :
    Knows r WfState.init (fun _ => none : Active wfMachine (wfClients dlq codec) τ) G :=
  ⟨WfState.sane_init, fun _ _ ht => (by cases ht), fun _ _ ht => (by cases ht)⟩

theorem Knows.readsMetadata (h : Knows r s K G) {t : τ} {b : Begun wfMachine (wfClients dlq codec)}
    (ht : K t = some b) (jobId : JobId) (ns : Option String) (world : WfWorld) :
    (G t).ReadsMetadata jobId (WfOp.exec (.stmt (.job (.getJob jobId ns))) world s).1 := by
  intro _ old _ hb' hold hans
  rw [h.begun t b ht] at hb'
  cases hb'
  simp only [WfOp.exec] at hans
  split at hans
  · cases hans
  · exact ((h.since t b ht).jobs jobId old hold).1.getJob (Except.ok.inj hans)

variable [DecidableEq τ]

theorem Knows.step (h : Knows r s K G) {op : WfOp} {world : WfWorld}
    (hids : ∀ id ∈ op.newIds world, id ∉ s.issued) {t : τ} {g : CallGhost}
    (hg : g.begun = (G t).begun) : Knows r (op.exec world s).2 K (update G t g) where
  sane := h.sane.exec hids
  begun u c hu := by
    by_cases hut : u = t
    · subst hut
      rw [update_self, hg]
      exact h.begun u c hu
    · rw [update_of_ne hut]
      exact h.begun u c hu
  since u c hu := (h.since u c hu).exec hids

theorem Knows.start (h : Knows r s K G) {t : τ} (call : WfCall) (may : Bool) :
    Knows r s (update K t (some ⟨call, s⟩)) (update G t ⟨some (call, s), may⟩) where
  sane := h.sane
  begun u c hu := by
    obtain ⟨rfl, rfl⟩ | ⟨hut, hu⟩ := found_update hu
    · rw [update_self]
    · rw [update_of_ne hut]
      exact h.begun u c hu
  since u c hu := by
    obtain ⟨rfl, rfl⟩ | ⟨-, hu⟩ := found_update hu
    · exact .refl h.sane
    · exact h.since u c hu

theorem Knows.finish (h : Knows r s K G) (t : τ) : Knows r s (update K t none) G :=
  ⟨h.sane, fun u c hu => h.begun u c (found_of_none hu),
    fun u c hu => h.since u c (found_of_none hu)⟩

end InProgress

/-! ## Runs without rules -/

/-- Any call at any time. New jobs get new ids. -/
abbrev anyOrder (dlq : MetadataCodec) (codec : WorkflowCodec) (τ : Type) :
    SessionRules wfMachine (wfClients dlq codec) τ where
  mayStart _ _ _ _ := True
  mayStep s _ op world := ∀ id ∈ WfOp.newIds op world, id ∉ WfState.issued s

/-- A queue without a namespace. -/
def plainQueue : PyQueue where
  namespace_ := none
  defaultTimeout := 300
  defaultPriority := 0
  defaultRetry := 3
  resultTtlMs := none
  fuel := 4

/-- One call, with an id for each of its steps. -/
def wfMoves {dlq : MetadataCodec} {codec : WorkflowCodec} {τ : Type} (t : τ) (method : WfMethod)
    (ids : List String) : List (Move wfMachine (wfClients dlq codec) τ) :=
  .start t ⟨plainQueue, method⟩ :: ids.map fun id => .step t ⟨0, id, none⟩

end Flexiq
