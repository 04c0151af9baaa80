import Flexiq.WorkflowRules

/-!
# A run that is over stays over

A cancelled or compensated run has no way on: no move of `WorkflowState.canTransitionTo` leaves
these states. The tables do not enforce that. `update_workflow_run_state` writes whatever it is
given, and no caller asks first, so a result that arrives after a cancellation ends the cancelled
run a second time (`cancelled_run_completes`).

Which calls may follow or overlap which is then up to the callers. `runRules` says what is
enough for one run: a call that can write the run's state is not made once the run is over, and a
call that can end it for good does not overlap another call that can write it. Under these rules
the state of a run that is over never changes (`final_run_stays`).

What a call can write is not always in its arguments: a result names a job, whose metadata names
the run, and a cancellation goes down the tree of runs. The ghost value of a thread says whether
it may write the run now, and the invariant ties that to the calls in progress.
-/

namespace Flexiq

open WfProg List Option Table Bool Makes WorkflowDb WfDiscipline

variable {k : String} {stmt : WfStmt}

/-! ## Calls that write the state of a run -/

/-- The call can end a run for good. -/
def WfCall.finishes (c : WfCall) : Bool :=
  match c.method with
  | .cancelWorkflowRun _ | .setWorkflowRunCompensated _ _
  | .setWorkflowRunCompensationFailed _ _ _ => true
  | _ => false

/-- The call, made in the given state, can write the state of run `r`: a submission can while the
run does not exist; the result of a job can if the job's metadata names the run, or the job is
not known yet; a cancellation can reach every run below the one it names, so every run that has
a parent. -/
def WfCall.writesRun (codec : WorkflowCodec) (r : String) (s : WfState) (c : WfCall) : Bool :=
  match c.method with
  | .submitWorkflow _ => (s.wf.runs.find r).isNone
  | .markWorkflowNodeResult jobId _ _ _ _ =>
    (getJob jobId none s.db).all fun job => (job.metadata.bind codec.route).any fun p => p.1 = r
  | .finalizeRunIfTerminal k | .setWorkflowRunCompletedWithFailures k
  | .setWorkflowRunCompensating k | .setWorkflowRunCompensated k _
  | .setWorkflowRunCompensationFailed k _ _ => k = r
  | .cancelWorkflowRun k => k = r || (s.wf.runs.find r).all fun run => run.parentRunId.isSome
  | _ => false

def WfCall.cancelsOther (r : String) (c : WfCall) : Bool :=
  match c.method with
  | .cancelWorkflowRun k => k ≠ r
  | _ => false

def WfState.runOver (r : String) (s : WfState) : Bool := (s.wf.runState r).any WorkflowState.isFinal

/-- What can happen to run `r`. -/
def runGuard (dlq : MetadataCodec) (codec : WorkflowCodec) (r : String) :
    Guard wfMachine (wfClients dlq codec) where
  isOver := WfState.runOver r
  writes b := WfCall.writesRun codec r b.since b.call
  ends b := WfCall.writesRun codec r b.since b.call && WfCall.finishes b.call

/-- What keeps run `r` final: once it is over, no call is made that can write its state — a
cancellation of another run may be, it leaves alone what is over — and a call that can end it
for good does not overlap another that can write it. New jobs get new ids. -/
abbrev runRules (dlq : MetadataCodec) (codec : WorkflowCodec) (r : String) (τ : Type) :
    SessionRules wfMachine (wfClients dlq codec) τ where
  mayStart s K _ call :=
    (WfCall.writesRun codec r s call = true → WfState.runOver r s = true →
      WfCall.cancelsOther r call = true) ∧
    (runGuard dlq codec r).Free K ⟨call, s⟩
  mayStep s _ op world := ∀ id ∈ WfOp.newIds op world, id ∉ WfState.issued s

/-! ## What a thread may write -/

/-- Whether a thread may write run `r` after a statement. Creating the run allows it, and so does
finding it open below another run; ending it for good is the last write. -/
def nextMay (r : String) (may : Bool) : (s : WfStmt) → Except QueueError s.Ans → Bool
  | .createRun _ run, .ok _ => may || run.id = r
  | .childRuns _ _, .ok children => may || children.any fun c => c.id = r && !c.state.isTerminal
  | .updateRunState _ k st _, _ => may && !(k = r && st.isFinal)
  | _, _ => may

/-- A thread writes run `r` only when it may, ends it only in a call that can, creates it only in
a submission, and looks below a run only in a cancellation. The metadata it reads of a job is
what the job had when the call was made. -/
def runDiscipline (r : String) : WfDiscipline CallGhost where
  permits g
    | .updateRunState _ k st _ => k = r → g.may = true ∧
      (st.isFinal = true → ∃ b, g.begun = some b ∧ b.1.finishes = true)
    | .createRun _ run => run.id = r → run.state.isFinal = false ∧
      ∃ b sub, g.begun = some b ∧ b.1.method = .submitWorkflow sub
    | .childRuns _ _ => ∃ b k, g.begun = some b ∧ b.1.method = .cancelWorkflowRun k
    | _ => True
  expects g
    | .job (.getJob jobId _) => g.ReadsMetadata jobId
    | _ => fun _ => True
  next g s ans := { g with may := nextMay r g.may s ans }

/-- A statement that neither writes the state of a run nor looks at one. -/
def WfStmt.leavesRuns : WfStmt → Bool
  | .updateRunState _ _ _ _ | .createRun _ _ | .childRuns _ _ => false
  | _ => true

variable {r : String} {g : CallGhost}
variable {op : WfOp} {world : WfWorld}

theorem passes_of_leavesRuns {s : WfStmt} (h : s.leavesRuns = true) :
    (runDiscipline r).Passes g s := by
  cases s <;> first | exact ⟨trivial, fun _ => rfl⟩ | cases h

/-- A part of a method that leaves the runs alone. -/
theorem tries_leavesRuns {α : Type} {p : WfProg α} {Q : CallGhost → α → Prop}
    (h : p.Makes fun s => s.leavesRuns = true) (hQ : ∀ a, Q g a) : (runDiscipline r).Tries p g Q :=
  WfDiscipline.tries_of_makes (h.mono fun _ hs => passes_of_leavesRuns hs) hQ

/-! ## The methods -/

namespace runDiscipline

variable (q : PyQueue) (codec : WorkflowCodec)
variable {st : WorkflowState} {e : Option String} {b : WfCall × WfState}

theorem tries_updateRunState (hk : k = r → g.may = true)
    (hfin : st.isFinal = true → ∃ b, g.begun = some b ∧ b.1.finishes = true) :
    (runDiscipline r).Tries (query (.updateRunState q.namespace_ k st e)) g
      fun g' _ => g'.begun = g.begun ∧ (g.may = true → ¬ (k = r ∧ st.isFinal = true) →
        g'.may = true) := by
  refine .query (fun hkr => ⟨hk hkr, hfin⟩) fun _ _ => ⟨rfl, fun hmay hnot => ?_⟩
  simpa [runDiscipline, nextMay, hmay, imp_iff_not_or] using hnot

theorem tries_endRun {now : Int} (hk : k = r → g.may = true)
    (hfin : st.isFinal = true → ∃ b, g.begun = some b ∧ b.1.finishes = true) :
    (runDiscipline r).Tries (q.endRun k st e now) g fun _ _ => True := by
  refine .bind (.mono (tries_updateRunState q hk hfin) fun g' _ _ => ?_)
  exact tries_leavesRuns (query rfl) fun _ => trivial

theorem makes_cascade (runId : String) (nodes : List WorkflowNode) :
    (q.cascadeSkipPendingNodes runId nodes).Makes fun s => s.leavesRuns = true :=
  q.makes_cascadeSkipPendingNodes runId nodes (fun _ => rfl) fun _ _ _ => rfl

theorem tries_submitWorkflow (sub : Submission) (hb : g.begun = some b)
    (hsub : b.1.method = .submitWorkflow sub) :
    (runDiscipline r).Tries (q.submitWorkflow codec sub) g fun _ _ => True := by
  refine .bind (.ofResult fun steps _ => ?_)
  refine .bind (.ofResult fun ordered _ => ?_)
  refine .bind (tries_leavesRuns
    (PyQueue.makes_submittedDefinition sub (fun _ _ => rfl) fun _ => rfl) fun definitionId => ?_)
  refine .bind (.newId fun runId => ?_)
  refine .bind (.nowMillis fun now => ?_)
  refine .bind (.query (fun _ => ⟨rfl, b, sub, hb, hsub⟩) fun _ _ => ?_)
  refine .bind (tries_leavesRuns
    (q.makes_submitNodes codec sub steps runId now (fun _ => rfl) (fun _ _ _ => rfl) ordered [])
    fun _ => ?_)
  refine .bind (.mono (tries_updateRunState q ?_ ?_) fun _ _ _ => .pure trivial)
  · intro hr
    simp [runDiscipline, nextMay, hr]
  · intro h
    cases h

/-- The runs below a run that a cancellation goes on to are open, and not visited. -/
theorem mem_pushChildren {visited stack : List String} {children : List WorkflowRun}
    (h : r ∈ PyQueue.pushChildren visited stack children) :
    (children.any fun c => c.id = r && !c.state.isTerminal) = true ∨ r ∈ stack := by
  unfold PyQueue.pushChildren at h
  obtain h | h := mem_append.1 h
  · obtain ⟨c, hc, rfl⟩ := mem_map.1 (mem_reverse.1 h)
    obtain ⟨hmem, hopen⟩ := mem_filter.1 hc
    refine .inl (any_eq_true.2 ⟨c, hmem, ?_⟩)
    simp only [and_eq_true] at hopen
    simpa using hopen.1
  · exact .inr h

theorem tries_cancelRuns (now : Int) {root : String} (fuel : Nat) :
    ∀ {visited stack : List String} {g : CallGhost} {b : WfCall × WfState},
      g.begun = some b → b.1.method = .cancelWorkflowRun root →
      (r ∈ stack → r ∉ visited → g.may = true) →
      (runDiscipline r).Tries (q.cancelRuns now fuel visited stack) g fun _ _ => True := by
  induction fuel with
  | zero =>
    intro visited stack g b _ _ _
    exact .pure trivial
  | succ fuel ih =>
    intro visited stack _ b hb hroot hmay
    cases stack with
    | nil => exact .pure trivial
    | cons runId stack =>
      unfold PyQueue.cancelRuns
      split
      · exact ih hb hroot fun hr hv => hmay (mem_cons_of_mem _ hr) hv
      · next hnew =>
        have hnew : runId ∉ visited := by simpa using hnew
        refine .bind (tries_leavesRuns (query rfl) fun nodes => ?_)
        refine .bind (tries_leavesRuns (makes_cascade q runId nodes) fun _ => ?_)
        refine .bind (.mono (tries_updateRunState q ?_ ?_) fun g₁ _ hg₁ => ?_)
        · rintro rfl
          exact hmay mem_cons_self hnew
        · exact fun _ => ⟨b, hb, by unfold WfCall.finishes; rw [hroot]⟩
        obtain ⟨hb₁, hmay₁⟩ := hg₁
        rw [hb] at hb₁
        refine .bind (tries_leavesRuns (query rfl) fun _ => ?_)
        have hchild : (runDiscipline r).permits g₁ (.childRuns q.namespace_ runId) :=
          ⟨b, root, hb₁, hroot⟩
        -- what the stack still holds was open before, or has just been found open
        have hstack : r ∈ stack → r ∉ runId :: visited → g₁.may = true := by
          intro hr hv
          refine hmay₁ (hmay (mem_cons_of_mem _ hr) fun h => hv (mem_cons_of_mem _ h)) ?_
          rintro ⟨rfl, -⟩
          exact hv mem_cons_self
        refine .bind (.orElse_query hchild (fun children _ => ?_) fun e _ => ?_)
        · refine ih hb₁ hroot fun hr hv => ?_
          obtain hfound | hr := mem_pushChildren hr
          · simp only [runDiscipline, nextMay, hfound, Bool.or_true]
          · simp only [runDiscipline, nextMay, hstack hr hv, Bool.true_or]
        · refine ih hb₁ hroot fun hr hv => ?_
          obtain hfound | hr := mem_pushChildren hr
          · cases hfound
          · exact hstack hr hv

theorem tries_finalizeRunIfTerminal (hk : k = r → g.may = true) :
    (runDiscipline r).Tries (q.finalizeRunIfTerminal k) g fun _ _ => True := by
  refine .bind (tries_leavesRuns (query rfl) fun nodes => ?_)
  split
  · exact .pure trivial
  · refine .bind (.nowMillis fun now => ?_)
    split
    all_goals exact .bind (.mono (tries_endRun q hk nofun) fun _ _ _ => .pure trivial)

theorem makes_failFast (runId : String) (succeeded skipCascade : Bool) :
    (q.failFast runId succeeded skipCascade).Makes fun s => s.leavesRuns = true := by
  unfold PyQueue.failFast
  split
  · exact pure ()
  · refine bind (query rfl) fun nodes => ?_
    exact makes_cascade q runId nodes

theorem tries_markWorkflowNodeResult (jobId : JobId) (succeeded : Bool) (error : Option String)
    (skipCascade : Bool) (resultHash : Option String) (hb : g.begun = some b)
    (hmay : g.may = (getJob jobId none b.2.db).all fun job =>
      (job.metadata.bind codec.route).any fun p => p.1 = r) :
    (runDiscipline r).Tries
      (q.markWorkflowNodeResult codec jobId succeeded error skipCascade resultHash) g
      fun _ _ => True := by
  refine .bind (.query trivial fun found hfound => ?_)
  show (runDiscipline r).Tries _ g _
  cases found with
  | none => exact .throw _
  | some job =>
    dsimp only
    split
    · exact .pure trivial
    · next runId _ hroute =>
      -- the job's metadata is what it was when the call was made
      have hwrites : runId = r → g.may = true := by
        rintro rfl
        rw [hmay]
        rcases hold : getJob jobId none b.2.db with _ | old
        · rfl
        · have hmeta : job.metadata = old.metadata := hfound b old job hb hold rfl
          rw [hmeta] at hroute
          simp [hroute]
      refine .bind (.nowMillis fun now => ?_)
      refine .bind (tries_leavesRuns ?_ fun _ => ?_)
      · unfold PyQueue.recordResult
        split <;> exact query rfl
      refine .bind (tries_leavesRuns (makes_failFast q runId succeeded skipCascade) fun _ => ?_)
      refine .bind (tries_leavesRuns (query rfl) fun nodes => ?_)
      split
      · exact .pure trivial
      · split
        all_goals exact .bind (.mono (tries_endRun q hwrites nofun) fun _ _ _ => .pure trivial)

theorem makes_skipWorkflowNode (runId nodeName : String) :
    (q.skipWorkflowNode runId nodeName).Makes fun s => s.leavesRuns = true := by
  refine bind (query rfl) fun node => ?_
  cases node with
  | none => exact pure ()
  | some node => exact (q.makes_cancelNodeJob node fun _ => rfl).bind fun _ => query rfl

theorem makes_resolveWorkflowGate (runId nodeName : String) (approved : Bool)
    (error : Option String) :
    (q.resolveWorkflowGate runId nodeName approved error).Makes fun s => s.leavesRuns = true := by
  refine nowMillis.bind fun now => ?_
  split <;> exact query rfl

theorem makes_expandFanOut (runId parent : String) (children : List (String × Bytes))
    (spec : PyQueue.JobSpec) :
    (q.expandFanOut codec runId parent children spec).Makes fun s => s.leavesRuns = true := by
  unfold PyQueue.expandFanOut
  split
  · exact throw _
  · refine bind (q.makes_requireVisibleRun runId rfl) fun _ => ?_
    refine nowMillis.bind fun now => ?_
    split
    · refine bind (query rfl) fun _ => ?_
      exact bind (query rfl) fun _ => pure []
    · refine (q.makes_enqueueChildren codec runId spec now (fun _ => rfl) children).bind
        fun ids => ?_
      refine bind (query rfl) fun _ => ?_
      exact bind (query rfl) fun _ => pure _

theorem makes_createDeferredJob (runId nodeName : String) (payload : Bytes)
    (spec : PyQueue.JobSpec) :
    (q.createDeferredJob codec runId nodeName payload spec).Makes
      fun s => s.leavesRuns = true := by
  refine bind (q.makes_requireVisibleRun runId rfl) fun _ => ?_
  refine nowMillis.bind fun now => ?_
  refine bind (PyQueue.makes_enqueue _ rfl) fun job => ?_
  exact bind (query rfl) fun _ => pure _

theorem makes_checkFanOutCompletion (runId parent : String) :
    (q.checkFanOutCompletion runId parent).Makes fun s => s.leavesRuns = true := by
  refine bind (query rfl) fun children => ?_
  split
  · exact pure none
  · refine nowMillis.bind fun now => ?_
    exact bind (query rfl) fun _ => pure _

end runDiscipline

/-- Whether a call may write run `r` as soon as it is made. -/
def WfCall.mayAtOnce (codec : WorkflowCodec) (r : String) (s : WfState) (c : WfCall) : Bool :=
  match c.method with
  | .submitWorkflow _ => false
  | .cancelWorkflowRun k => k = r
  | _ => c.writesRun codec r s

open runDiscipline in
theorem runDiscipline.follows_prog (dlq : MetadataCodec) (codec : WorkflowCodec) (c : WfCall)
    (s : WfState) : (c.prog dlq codec).Follows (runDiscipline r).toDiscipline
      ⟨some (c, s), c.mayAtOnce codec r s⟩ fun g' _ => (runDiscipline r).toDiscipline.done g' := by
  obtain ⟨q, m⟩ := c
  have hleaves : ∀ {α : Type} {p : WfProg α} {g : CallGhost},
      p.Makes (fun s => s.leavesRuns = true) → (runDiscipline r).Tries p g fun _ _ => True :=
    fun h => tries_leavesRuns h fun _ => trivial
  cases m
  all_goals refine follows_discard ?_
  case submitWorkflow sub => exact tries_submitWorkflow q codec sub rfl rfl
  case markWorkflowNodeResult j ok e skip h =>
    exact tries_markWorkflowNodeResult q codec j ok e skip h rfl rfl
  case finalizeRunIfTerminal => exact tries_finalizeRunIfTerminal q decide_eq_true
  case cancelWorkflowRun =>
    refine .bind (.nowMillis fun now => ?_)
    refine tries_cancelRuns q now q.fuel rfl rfl fun hr _ => ?_
    exact decide_eq_true (mem_singleton.1 hr).symm
  case setWorkflowRunCompletedWithFailures | setWorkflowRunCompensating =>
    exact .mono
      (tries_updateRunState q decide_eq_true nofun) fun _ _ _ => trivial
  case setWorkflowRunCompensated | setWorkflowRunCompensationFailed =>
    exact tries_endRun q decide_eq_true fun _ => ⟨_, rfl, rfl⟩
  case resolveWorkflowGate k n ok e =>
    exact hleaves (makes_resolveWorkflowGate q k n ok e)
  case setWorkflowNodeRunning =>
    refine .bind (.nowMillis fun now => ?_)
    exact hleaves (query rfl)
  case skipWorkflowNode k n => exact hleaves (makes_skipWorkflowNode q k n)
  case expandFanOut k n children spec =>
    exact hleaves (makes_expandFanOut q codec k n children spec)
  case createDeferredJob k n payload spec =>
    exact hleaves (makes_createDeferredJob q codec k n payload spec)
  case checkFanOutCompletion k n => exact hleaves (makes_checkFanOutCompletion q k n)
  case setWorkflowNodeWaitingApproval | setWorkflowNodeFanOutCount | failWorkflowNode
    | setWorkflowNodeCompensationJob | setWorkflowNodeCompensated
    | setWorkflowNodeCompensationFailed =>
    exact hleaves (query rfl)
  case store => exact hleaves (ofStore _ fun _ => rfl)

/-! ## The invariant -/

section Invariant

variable {dlq : MetadataCodec} {codec : WorkflowCodec}

/-- The statement ends run `r` for good. -/
def WfOp.EndsRun (r : String) (op : WfOp) : Prop :=
  ∃ ns st e, op = .stmt (.updateRunState ns r st e) ∧ st.isFinal = true

theorem runOver_exec {s : WfState}
    (hp : ∀ ns run, op = .stmt (.createRun ns run) → run.id = r → run.state.isFinal = false)
    (h : (op.exec world s).2.runOver r = true) : s.runOver r = true ∨ op.EndsRun r := by
  unfold WfState.runOver at h ⊢
  have hsame : (op.exec world s).2.wf.runs.find r = s.wf.runs.find r →
      (s.wf.runState r).any WorkflowState.isFinal = true := by
    intro hfind
    rwa [runState, hfind] at h
  obtain hruns | ⟨ns, k, st, e, rfl, hruns⟩ | ⟨ns, k, _, -, hruns⟩ | ⟨ns, run, rfl, hins⟩ :=
    runs_exec op world s
  · exact .inl (hsame (by rw [hruns]))
  · obtain hst | ⟨rfl, hst⟩ := runState_updateRunState s.wf ns k st e r
    · refine .inl ?_
      rwa [runState, hruns, ← runState, hst] at h
    · rw [runState, hruns, ← runState, hst] at h
      exact .inr ⟨ns, st, e, rfl, h⟩
  · refine .inl ?_
    rwa [runState, hruns, ← runState,
      runState_setRunCompleted] at h
  · by_cases hid : r = run.id
    · have hfind : (WfOp.exec (.stmt (.createRun ns run)) world s).2.wf.runs.find r =
          some { run with namespace_ := ns } := by
        rw [find_insert hins]
        exact if_pos hid
      rw [runState, hfind] at h
      have hopen := hp ns run rfl hid.symm
      exact absurd h (by simp [hopen])
    · exact .inl (hsame (by rw [find_insert hins]; exact if_neg hid))

/-- How a thread comes to be allowed to write the run: it was before and has not ended it, it
has just created the run, or it has just found the run open below another. -/
theorem nextMay_exec {may : Bool} {s : WfState}
    (h : nextMay r may stmt ((WfOp.stmt stmt).exec world s).1 = true) :
    (may = true ∧ ¬ (WfOp.stmt stmt).EndsRun r) ∨
    (∃ ns run, stmt = .createRun ns run ∧ run.id = r ∧ s.wf.runs.find r = none) ∨
    (∃ ns k run, stmt = .childRuns ns k ∧ s.wf.runs.find r = some run ∧
      run.parentRunId = some k ∧ run.state.isTerminal = false) := by
  cases stmt with
  | updateRunState =>
    simp only [nextMay, and_eq_true, not_eq_true', and_eq_false_imp,
      decide_eq_true_eq] at h
    refine .inl ⟨h.1, ?_⟩
    rintro ⟨_, _, _, heq, hfin⟩
    cases heq
    rw [h.2 rfl] at hfin
    cases hfin
  | createRun ns run =>
    by_cases hmay : may = true
    · refine .inl ⟨hmay, ?_⟩
      rintro ⟨_, _, _, heq, -⟩
      cases heq
    · refine .inr (.inl ⟨ns, run, rfl, ?_⟩)
      simp only [WfOp.exec] at h
      split at h
      · exact absurd h hmay
      · simp only [WfStmt.run] at h
        rcases hr : s.wf.createRun ns run with _ | _
        · rw [hr] at h
          exact absurd h hmay
        · rw [hr] at h
          have hid : run.id = r := by simpa [nextMay, WfState.write, hmay] using h
          have hfresh := find_of_insert (createRun_ok hr).1
          rw [workflowRunsSchema_key] at hfresh
          exact ⟨hid, hid ▸ hfresh⟩
  | childRuns ns k =>
    by_cases hmay : may = true
    · refine .inl ⟨hmay, ?_⟩
      rintro ⟨_, _, _, heq, -⟩
      cases heq
    · refine .inr (.inr ⟨ns, k, ?_⟩)
      simp only [WfOp.exec] at h
      split at h
      · exact absurd h hmay
      · simp only [WfStmt.run, nextMay, or_eq_true] at h
        obtain ⟨run, hmem, hrun⟩ := any_eq_true.1 (h.resolve_left hmay)
        simp only [and_eq_true, decide_eq_true_eq, not_eq_true'] at hrun
        obtain ⟨hid, hopen⟩ := hrun
        obtain ⟨hrow, hparent⟩ := mem_filter.1 hmem
        simp only [and_eq_true, decide_eq_true_eq] at hparent
        exact ⟨run, rfl, hid ▸ find_of_mem hrow, hparent.1, hopen⟩
  | job | enqueue | getDefinition | createDefinition | getRun | setRunCompleted | createNode
  | createNodesBatch | getNode | getNodes | nodesByPrefix | setNode | finalizeFanOutParent =>
    refine .inl ⟨h, ?_⟩
    rintro ⟨_, _, _, heq, -⟩
    cases heq

/-- The invariant: the guard of the run holds, and a call in progress still knows what it started
from. -/
structure RunInv {τ : Type} (r : String) (s : WfState)
    (K : Active wfMachine (wfClients dlq codec) τ) (G : τ → CallGhost) : Prop where
  knows : Knows r s K G
  guard : (runGuard dlq codec r).Holds CallGhost.may s K G

variable {τ : Type} {s : WfState} {K : Active wfMachine (wfClients dlq codec) τ} {G : τ → CallGhost}
  {t : τ} {b : Begun wfMachine (wfClients dlq codec)}

/-- What a thread reads of a job is what its call started from. -/
theorem RunInv.expects (h : RunInv r s K G) (ht : K t = some b) (op : WfOp) (world : WfWorld) :
    (runDiscipline r).toDiscipline.expects (G t) op (op.exec world s).1 := by
  cases op with
  | nowMillis | newId => trivial
  | stmt stmt =>
    cases stmt with
    | job o =>
      cases o with
      | getJob jobId ns => exact h.knows.readsMetadata ht jobId ns world
      | _ => trivial
    | _ => trivial

theorem RunInv.endsRun (h : RunInv r s K G) (ht : K t = some b)
    (hp : (runDiscipline r).toDiscipline.permits (G t) op)
    (hnow : (op.exec world s).2.runOver r = true) :
    s.runOver r = true ∨ op.EndsRun r ∧ (runGuard dlq codec r).ends b = true := by
  refine (runOver_exec ?_ hnow).imp_right ?_
  · rintro ns _ rfl hid
    exact (hp hid).1
  · rintro ⟨ns, st, e, rfl, hfin⟩
    obtain ⟨hmay, hends⟩ := hp rfl
    obtain ⟨_, hb', hb'fin⟩ := hends hfin
    rw [h.knows.begun t b ht] at hb'
    cases hb'
    exact ⟨⟨ns, st, e, rfl, hfin⟩, and_eq_true_iff.2 ⟨h.guard.writes t b ht hmay, hb'fin⟩⟩

/-- A thread that may write the run after a permitted statement is in a call that can. -/
theorem RunInv.writes (h : RunInv r s K G) (ht : K t = some b)
    (hp : (runDiscipline r).permits (G t) stmt)
    (hmay' : nextMay r (G t).may stmt ((WfOp.stmt stmt).exec world s).1 = true) :
    (runGuard dlq codec r).writes b = true := by
  obtain ⟨hmay, -⟩ | ⟨ns, run, rfl, hid, hnone⟩ | ⟨_, _, run, rfl, hrun, hparent, -⟩ :=
    nextMay_exec hmay'
  · exact h.guard.writes t b ht hmay
  · -- only a submission creates the run, and there was none when it was made
    obtain ⟨-, b', sub, hb', hsub⟩ := hp hid
    rw [h.knows.begun t b ht] at hb'
    cases hb'
    show WfCall.writesRun codec r b.since b.call = true
    unfold WfCall.writesRun
    rw [show WfCall.method b.call = .submitWorkflow sub from hsub]
    rcases hold : b.since.wf.runs.find r with _ | old
    · rfl
    · obtain ⟨run', hrun', -⟩ := (h.knows.since t b ht).run old hold
      rw [hnone] at hrun'
      cases hrun'
  · -- only a cancellation looks below a run, and the run it finds there has a parent
    obtain ⟨_, root, hb', hroot⟩ := hp
    rw [h.knows.begun t b ht] at hb'
    cases hb'
    show WfCall.writesRun codec r b.since b.call = true
    unfold WfCall.writesRun
    rw [show WfCall.method b.call = .cancelWorkflowRun root from hroot]
    refine or_eq_true_iff.2 (.inr ?_)
    rcases hold : b.since.wf.runs.find r with _ | old
    · rfl
    · obtain ⟨_, hrun', hparent'⟩ := (h.knows.since t b ht).run old hold
      rw [hrun] at hrun'
      cases hrun'
      show old.parentRunId.isSome = true
      rw [← hparent', hparent]
      rfl

/-- A thread that may write the run after a permitted statement finds it open. -/
theorem RunInv.isOpen (h : RunInv r s K G) (ht : K t = some b)
    (hp : (runDiscipline r).permits (G t) stmt)
    (hmay' : nextMay r (G t).may stmt ((WfOp.stmt stmt).exec world s).1 = true) :
    ((WfOp.stmt stmt).exec world s).2.runOver r = false := by
  refine eq_false_iff.2 fun hnow => ?_
  have hover := h.endsRun ht (show (runDiscipline r).toDiscipline.permits (G t) (.stmt stmt)
    from hp) hnow
  obtain ⟨hmay, hnot⟩ | ⟨ns, run, rfl, -, hnone⟩ | ⟨_, _, _, rfl, hrun, -, hopen⟩ :=
    nextMay_exec hmay'
  · obtain hbefore | ⟨hends, -⟩ := hover
    · rw [show s.runOver r = false from h.guard.isOpen t b ht hmay] at hbefore
      cases hbefore
    · exact hnot hends
  · obtain hbefore | ⟨⟨_, _, _, heq, -⟩, -⟩ := hover
    · rw [WfState.runOver, runState, hnone] at hbefore
      cases hbefore
    · cases heq
  · obtain hbefore | ⟨⟨_, _, _, heq, -⟩, -⟩ := hover
    · rw [WfState.runOver, runState, hrun] at hbefore
      rw [WorkflowState.isTerminal_of_isFinal hbefore] at hopen
      cases hopen
    · cases heq

variable [DecidableEq τ]

theorem RunInv.exec (h : RunInv r s K G) (ht : K t = some b)
    (hp : (runDiscipline r).toDiscipline.permits (G t) op)
    (hids : ∀ id ∈ op.newIds world, id ∉ s.issued) :
    RunInv r (op.exec world s).2 K (Function.update G t
      ((runDiscipline r).toDiscipline.next (G t) op (op.exec world s).1)) where
  knows := h.knows.step hids (by cases op <;> rfl)
  guard := by
    have hover : (op.exec world s).2.runOver r = true → _ := fun hnow =>
      (h.endsRun ht hp hnow).imp_right And.right
    cases op with
    | nowMillis | newId =>
      exact h.guard.step ht (h.guard.writes t b ht) (h.guard.isOpen t b ht) .inl
    | stmt => exact h.guard.step ht (h.writes ht hp) (h.isOpen ht hp) hover

theorem RunInv.start (h : RunInv r s K G) {call : WfCall}
    (hr : (runRules dlq codec r τ).mayStart s K t call) :
    RunInv r s (Function.update K t (some ⟨call, s⟩))
      (Function.update G t ⟨some (call, s), call.mayAtOnce codec r s⟩) where
  knows := h.knows.start call _
  guard := by
    obtain ⟨hover, hfree⟩ := hr
    have hwrites : call.mayAtOnce codec r s = true → call.writesRun codec r s = true := by
      intro hmay
      obtain ⟨q, m⟩ := call
      cases m with
      | submitWorkflow => cases hmay
      | cancelWorkflowRun => exact or_eq_true_iff.2 (.inl hmay)
      | _ => exact hmay
    refine h.guard.start hfree hwrites fun hmay => eq_false_iff.2 fun hnow => ?_
    have hother := hover (hwrites hmay) hnow
    obtain ⟨_, m⟩ := call
    cases m with
    | cancelWorkflowRun => exact of_decide_eq_true hother (of_decide_eq_true hmay)
    | _ => cases hother

theorem runSound : Session.Sound (runRules dlq codec r τ) (runDiscipline r).toDiscipline
    (RunInv r) where
  start s K G t call h _ _ hr := ⟨_, h.start hr, runDiscipline.follows_prog dlq codec call s⟩
  step s K G t op env h ht hp hr := by
    obtain ⟨_, hb⟩ := isSome_iff_exists.1 ht
    exact ⟨h.expects hb op env, h.exec hb hp hr⟩
  finish s K G t h _ := ⟨h.knows.finish t, h.guard.finish t⟩

theorem run_certified {c : Session wfMachine (wfClients dlq codec) τ}
    (h : Session.Reaches (runRules dlq codec r τ) (Session.idle WfState.init) c) :
    ∃ G, Session.Certified (runDiscipline r).toDiscipline (RunInv r) c G := by
  refine runSound.reachable (G := fun _ => ⟨none, false⟩) (.of_idle ?_ fun _ => trivial) h
  exact ⟨.idle _, .idle ..⟩

end Invariant

/-! ## A cancelled run -/

def oneStep : Submission where
  name := "w"
  version := 1
  ordered := .ok [⟨"a", []⟩]
  stepMetadata := .ok [("a", ⟨"t", none, none, none, none⟩)]
  nodePayloads := [("a", [])]
  queueDefault := "q"
  paramsJson := none
  deferredNodeNames := []
  parentRunId := none
  parentNodeName := none
  cacheHitNodes := []

/-- The workflow is submitted as run `r`, whose job `j` a worker takes; then the run is
cancelled. -/
def cancelMoves : List (Move wfMachine (wfClients plainCodec namesCodec) Unit) :=
  wfMoves () (.submitWorkflow oneStep) ["", "d", "", "r", "", "", "j", "", ""] ++
  wfMoves () (.store (.dequeueFrom ["q"] 1 none fun _ => .fifo)) [""] ++
  wfMoves () (.cancelWorkflowRun "r") ["", "", "", "", "", "", "", ""]

/-! ## The law -/

/-- **A run that is over stays as it is.** In every run of the system that keeps to the rules,
once the stored state of run `r` is one that no move leaves, it never changes again. -/
theorem final_run_stays (dlq : MetadataCodec) (codec : WorkflowCodec) {τ : Type} [DecidableEq τ]
    (r : String) {c c' : Session wfMachine (wfClients dlq codec) τ}
    (h : Session.Reaches (runRules dlq codec r τ) (Session.idle WfState.init) c)
    (h' : Session.Reaches (runRules dlq codec r τ) c c') {st : WorkflowState}
    (hst : c.state.wf.runState r = some st) (hfinal : ∀ target, st.canTransitionTo target = false) :
    c'.state.wf.runState r = some st := by
  obtain ⟨G, hG⟩ := run_certified h
  refine runSound.stable (P := fun s => s.wf.runState r = some st) ?_ hG h' hst
  intro s _ _ t op world hinv ht hp _ hs
  obtain ⟨b, hb⟩ := isSome_iff_exists.1 ht
  have hover : s.runOver r = true := by
    rw [WfState.runOver, hs]
    exact WorkflowState.isFinal_iff.2 hfinal
  obtain hruns | ⟨ns, k, st', e, rfl, hruns⟩ | ⟨ns, k, _, rfl, hruns⟩ | ⟨ns, run, rfl, hins⟩ :=
    runs_exec op world s
  · rw [runState, hruns]
    exact hs
  · rw [runState, hruns, ← runState]
    obtain hsame | ⟨rfl, -⟩ := runState_updateRunState s.wf ns k st' e r
    · rw [hsame, hs]
    · -- the thread may write the run, so the run is not over
      have hopen : s.runOver r = false := hinv.guard.isOpen t b hb (hp rfl).1
      rw [hover] at hopen
      cases hopen
  · rw [runState, hruns, ← runState, runState_setRunCompleted]
    exact hs
  · rw [runState, find_insert hins, if_neg]
    · exact hs
    · rintro rfl
      rw [runState, find_of_insert hins] at hs
      cases hs

/-- The cancelled run stays cancelled while one of its nodes is skipped. -/
theorem final_run_stays_cancelled :
    ∃ c c' : Session wfMachine (wfClients plainCodec namesCodec) Unit,
      Session.Reaches (runRules plainCodec namesCodec "r" Unit) (Session.idle WfState.init) c ∧
      Session.Reaches (runRules plainCodec namesCodec "r" Unit) c c' ∧
      c.state.wf.runState "r" = some .cancelled ∧ c'.state.wf.runState "r" = some .cancelled := by
  obtain ⟨c, c', h, h', hst⟩ := Session.exists_reaches (runRules plainCodec namesCodec "r" Unit)
    (.idle .init) cancelMoves (wfMoves () (.skipWorkflowNode "r" "a") ["", "", "", ""])
    (fun c _ => c.state.wf.runState "r" = some .cancelled) (by decide +kernel)
  exact ⟨c, c', h, h', hst, final_run_stays plainCodec namesCodec "r" h h' hst
    (WorkflowState.isFinal_iff.1 rfl)⟩

/-- The job completes, and its result is recorded. -/
def lateResultMoves : List (Move wfMachine (wfClients plainCodec namesCodec) Unit) :=
  wfMoves () (.store (.complete "j" none none 2)) [""] ++
  wfMoves () (.markWorkflowNodeResult "j" true none false none) ["", "", "", "", "", ""]

/-- The result of a job that was running when its run was cancelled ends the run again. -/
theorem cancelled_run_completes :
    ∃ c c' : Session wfMachine (wfClients plainCodec namesCodec) Unit,
      Session.Reaches (anyOrder plainCodec namesCodec Unit) (Session.idle WfState.init) c ∧
      Session.Reaches (anyOrder plainCodec namesCodec Unit) c c' ∧
      c.state.wf.runState "r" = some .cancelled ∧ c'.state.wf.runState "r" = some .completed := by
  refine Session.exists_reaches _ _ cancelMoves lateResultMoves _ ?_
  decide +kernel

end Flexiq
