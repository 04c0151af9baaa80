import Flexiq.WorkflowRules

/-!
# A node that has ended stays as it is

A node ends as completed, failed or skipped. Almost every way to write a node is an unconditional
update: the result of a job, a gate's decision, a skip, the count of a fan-out. Where a caller
looks at the status first, it looks in an earlier statement. So a gate that was approved can be
rejected after the fact (`approved_gate_fails`), and a skip decided on an old reading overwrites a
result that came in between. Only `finalize_fan_out_parent` compares before it sets.

`nodeRules` says what is enough for one node. A call that writes the node whatever its status is
not made once the node has ended, and neither such a call nor one that skips what it has read as
pending overlaps another call that can write the node. Then the status, the result and the end
time of a node that has ended never change (`ended_node_stays`).
-/

namespace Flexiq

open Option (any_some map_eq_some_iff map_some some)

open WfProg Makes WorkflowDb WfDiscipline

variable {k m : String} {stmt : WfStmt}

/-! ## Writes -/

def WorkflowNodeStatus.isEnded : WorkflowNodeStatus → Bool
  | completed | failed | skipped => true
  | _ => false

def WorkflowNodeStatus.isWaiting (st : WorkflowNodeStatus) : Bool := st = .pending || st = .ready

open WorkflowNodeStatus (isEnded isFinalized isWaiting)

/-- The status a write leaves; setting the job leaves the status. -/
def NodeWrite.newStatus : NodeWrite → Option WorkflowNodeStatus
  | status st => some st
  | job _ => none
  | completed _ _ => some .completed
  | error _ => some .failed
  | fanOutCount _ | running _ => some .running
  | compensationJob _ _ => some .compensating
  | compensated _ => some .compensated
  | compensationFailed _ _ => some .compensationFailed

theorem NodeWrite.apply_status (w : NodeWrite) (x : WorkflowNode) :
    (w.apply x).status = w.newStatus.getD x.status := by
  cases w <;> rfl

def WorkflowNode.outcome (x : WorkflowNode) : WorkflowNodeStatus × Option String × Option Int :=
  (x.status, x.resultHash, x.completedAt)

theorem NodeWrite.apply_outcome {w : NodeWrite} (h : w.newStatus = none) (x : WorkflowNode) :
    (w.apply x).outcome = x.outcome := by
  cases w <;> first | rfl | cases h

def WorkflowDb.nodeStatus (w : WorkflowDb) (r n : String) : Option WorkflowNodeStatus :=
  (w.nodes.find (r, n)).map WorkflowNode.status

def WfState.nodeOver (r n : String) (s : WfState) : Bool :=
  (s.wf.nodeStatus r n).any WorkflowNodeStatus.isEnded

/-! ## Calls that write a node -/

/-- The call, made in the given state, writes node `n` of run `r` whatever its status. The result
of a job that is not known yet may be one of this node. -/
def WfCall.writesNode (codec : WorkflowCodec) (r n : String) (s : WfState) (c : WfCall) : Bool :=
  match c.method with
  | .markWorkflowNodeResult jobId _ _ _ _ =>
    (getJob jobId none s.db).all fun job => (job.metadata.bind codec.route).any fun p => p = (r, n)
  | .resolveWorkflowGate k m _ _ | .setWorkflowNodeWaitingApproval k m
  | .setWorkflowNodeRunning k m | .setWorkflowNodeFanOutCount k m _ | .failWorkflowNode k m _
  | .skipWorkflowNode k m | .expandFanOut k m _ _ | .setWorkflowNodeCompensationJob k m _ _
  | .setWorkflowNodeCompensated k m _ | .setWorkflowNodeCompensationFailed k m _ _ =>
    k = r && m = n
  | _ => false

/-- The call, made in the given state, can skip any node of run `r` that it has read as not
started: a failed result that is to cascade, and a cancellation. -/
def WfCall.sweeps (codec : WorkflowCodec) (r : String) (s : WfState) (c : WfCall) : Bool :=
  match c.method with
  | .markWorkflowNodeResult jobId succeeded _ skipCascade _ =>
    !succeeded && !skipCascade &&
      (getJob jobId none s.db).all fun job => (job.metadata.bind codec.route).any fun p => p.1 = r
  | .cancelWorkflowRun _ => true
  | _ => false

def WfCall.finalizes (r n : String) (c : WfCall) : Bool :=
  match c.method with
  | .checkFanOutCompletion k m => k = r && m = n
  | _ => false

theorem WfCall.writes_of_finalizes {codec : WorkflowCodec} {r n : String} {s : WfState} {c : WfCall}
    (h : c.finalizes r n = true) : (c.writesNode codec r n s || c.sweeps codec r s) = false := by
  obtain ⟨_, m⟩ := c
  cases m <;> first | rfl | cases h

/-- What can happen to node `n` of run `r`. -/
def nodeGuard (dlq : MetadataCodec) (codec : WorkflowCodec) (r n : String) :
    Guard wfMachine (wfClients dlq codec) where
  isOver := WfState.nodeOver r n
  writes b := WfCall.writesNode codec r n b.since b.call || WfCall.sweeps codec r b.since b.call
  ends b := WfCall.writesNode codec r n b.since b.call || WfCall.sweeps codec r b.since b.call ||
    WfCall.finalizes r n b.call

/-- What keeps an ended node as it is: once it has ended, no call is made that writes it whatever
its status, and a call that writes it so, or that skips what it has read as not started, does not
overlap another call that can write it. New jobs get new ids. -/
abbrev nodeRules (dlq : MetadataCodec) (codec : WorkflowCodec) (r n : String) (τ : Type) :
    SessionRules wfMachine (wfClients dlq codec) τ where
  mayStart s K _ call :=
    (WfCall.writesNode codec r n s call = true → WfState.nodeOver r n s = false) ∧
    (nodeGuard dlq codec r n).Free K ⟨call, s⟩
  mayStep s _ op world := ∀ id ∈ WfOp.newIds op world, id ∉ WfState.issued s

/-! ## What a thread may write -/

/-- The node is among the nodes read, and has not started. -/
def foundWaiting (n : String) (nodes : List WorkflowNode) : Bool :=
  nodes.any fun x => x.nodeName = n && x.status.isWaiting

/-- The call of the thread can skip nodes of run `r`. -/
def CallGhost.sweeps (codec : WorkflowCodec) (r : String) (g : CallGhost) : Bool :=
  g.begun.any fun b => b.1.sweeps codec r b.2

/-- Whether a thread may write the node after a statement. Reading it as not started allows a
call that skips to do so; a write that ends it is the last. -/
def nextMayNode (codec : WorkflowCodec) (r n : String) (g : CallGhost) :
    (s : WfStmt) → Except QueueError s.Ans → Bool
  | .getNodes _ k, .ok nodes => g.may || (k = r && g.sweeps codec r && foundWaiting n nodes)
  | .setNode _ k m w, _ => g.may && !(k = r && m = n && w.newStatus.any (·.isEnded))
  | _, _ => g.may

/-- A thread writes the node only when it may, finalizes it only in a call that compares first,
and creates it only open. It reads a run's nodes once each, and of a job the metadata the job had
when the call was made. -/
def nodeDiscipline (codec : WorkflowCodec) (r n : String) : WfDiscipline CallGhost where
  permits g
    | .setNode _ k m w => k = r → m = n → w.newStatus ≠ none → g.may = true
    | .createNode _ node => node.status.isEnded = false
    | .createNodesBatch _ nodes => ∀ node ∈ nodes, node.status.isEnded = false
    | .finalizeFanOutParent _ k m _ _ _ => k = r → m = n →
      ∃ b, g.begun = some b ∧ b.1.finalizes r n = true
    | _ => True
  expects g
    | .job (.getJob jobId _) => g.ReadsMetadata jobId
    | .getNodes _ _ => fun ans => ∀ nodes, ans = .ok nodes → (nodes.map (·.nodeName)).Nodup
    | _ => fun _ => True
  next g s ans := { g with may := nextMayNode codec r n g s ans }

variable {codec : WorkflowCodec} {r n : String} {g : CallGhost}

/-- A statement that neither writes an existing node nor reads the nodes of a run. -/
def WfStmt.leavesNodes : WfStmt → Bool
  | .setNode _ _ _ w => w.newStatus = none
  | .createNode _ node => !node.status.isEnded
  | .createNodesBatch _ nodes => nodes.all fun node => !node.status.isEnded
  | .finalizeFanOutParent _ _ _ _ _ _ | .getNodes _ _ => false
  | _ => true

theorem passes_of_leavesNodes {s : WfStmt} (h : s.leavesNodes = true) :
    (nodeDiscipline codec r n).Passes g s := by
  cases s with
  | setNode ns k m w =>
    have hw : w.newStatus = none := of_decide_eq_true h
    refine ⟨fun _ _ hne => absurd hw hne, fun ans => ?_⟩
    simp [nodeDiscipline, nextMayNode, hw]
  | createNode | createNodesBatch =>
    exact ⟨by simpa [nodeDiscipline, WfStmt.leavesNodes] using h, fun _ => rfl⟩
  | finalizeFanOutParent | getNodes => cases h
  | _ => exact ⟨trivial, fun _ => rfl⟩

theorem tries_leavesNodes {α : Type} {p : WfProg α} {Q : CallGhost → α → Prop}
    (h : p.Makes fun s => s.leavesNodes = true) (hQ : ∀ a, Q g a) :
    (nodeDiscipline codec r n).Tries p g Q :=
  WfDiscipline.tries_of_makes (h.mono fun _ hs => passes_of_leavesNodes hs) hQ

/-! ## The methods -/

namespace nodeDiscipline

variable (q : PyQueue)

/-- A write to a node, which is to be one the thread may write if it is this node. -/
theorem tries_setNode {w : NodeWrite} (h : k = r → m = n → g.may = true) :
    (nodeDiscipline codec r n).Tries (query (.setNode q.namespace_ k m w)) g
      fun g' _ => g'.begun = g.begun ∧ (g.may = true → (k = r → m = n →
        w.newStatus.any (·.isEnded) = false) → g'.may = true) := by
  refine .query (fun hk hm _ => h hk hm) fun _ _ => ⟨rfl, fun hmay hopen => ?_⟩
  simp only [nodeDiscipline, nextMayNode, hmay, Bool.true_and, Bool.not_eq_true',
    Bool.and_eq_false_imp, Bool.and_eq_true, decide_eq_true_eq]
  exact fun hkm => hopen hkm.1 hkm.2

/-- Reading the nodes of a run: a call that skips may now write the node if it was read as not
started. -/
theorem tries_getNodes {Q : CallGhost → List WorkflowNode → Prop}
    (hQ : ∀ g' nodes, g'.begun = g.begun → (nodes.map (·.nodeName)).Nodup →
      (k = r → g.sweeps codec r = true → foundWaiting n nodes = true → g'.may = true) →
      Q g' nodes) :
    (nodeDiscipline codec r n).Tries (query (.getNodes q.namespace_ k)) g Q := by
  refine .query trivial fun nodes hnodes => hQ _ nodes rfl (hnodes nodes rfl) ?_
  intro hk hsweeps hfound
  simp only [nodeDiscipline, nextMayNode, hk, hsweeps, hfound, decide_true, Bool.and_self,
    Bool.or_true]

theorem tries_cascade (runId : String) :
    ∀ (nodes : List WorkflowNode) {g : CallGhost}, (nodes.map (·.nodeName)).Nodup →
      (runId = r → foundWaiting n nodes = true → g.may = true) →
      (nodeDiscipline codec r n).Tries (q.cascadeSkipPendingNodes runId nodes) g
        fun g' _ => g'.begun = g.begun := by
  intro nodes
  induction nodes with
  | nil => exact fun _ _ => .pure rfl
  | cons x rest ih =>
    intro g hnodup hmay
    obtain ⟨hx, hrest⟩ := List.nodup_cons.1 hnodup
    have htail : runId = r → foundWaiting n rest = true → g.may = true :=
      fun hr hfound => hmay hr (Bool.or_eq_true_iff.2 (.inr hfound))
    unfold PyQueue.cascadeSkipPendingNodes
    split
    · next hwait =>
      have hwaiting : x.status.isWaiting = true := by simpa [isWaiting] using hwait
      refine .bind (tries_leavesNodes (q.makes_cancelNodeJob x fun _ => rfl) fun _ => ?_)
      refine .bind ⟨?_, fun ans _ a _ => ?_⟩
      · intro hr hn _
        refine hmay hr (Bool.or_eq_true_iff.2 (.inl ?_))
        exact Bool.and_eq_true_iff.2 ⟨decide_eq_true hn, hwaiting⟩
      · refine .mono (ih hrest fun hr hfound => ?_) fun g' _ hg' => hg'
        -- the node is further down the list, so it is not the one just written
        have hne : x.nodeName ≠ n := by
          rintro rfl
          obtain ⟨y, hy, hyn⟩ := List.any_eq_true.1 hfound
          refine hx (List.mem_map.2 ⟨y, hy, ?_⟩)
          exact of_decide_eq_true (Bool.and_eq_true_iff.1 hyn).1
        simp [nodeDiscipline, WfDiscipline.toDiscipline, nextMayNode, htail hr hfound, hne]
    · exact ih hrest htail

theorem tries_failFast {runId : String} {succeeded skipCascade : Bool}
    (h : runId = r → succeeded = false → skipCascade = false → g.sweeps codec r = true) :
    (nodeDiscipline codec r n).Tries (q.failFast runId succeeded skipCascade) g
      fun g' _ => g'.begun = g.begun := by
  unfold PyQueue.failFast
  split
  · exact .pure rfl
  · next hcascade =>
    simp only [Bool.or_eq_true, not_or, Bool.not_eq_true] at hcascade
    refine .bind (tries_getNodes q fun g' nodes hg' hnodup hmay => ?_)
    refine .mono (tries_cascade q runId nodes hnodup fun hr hfound => ?_)
      fun g'' _ hg'' => hg''.trans hg'
    exact hmay hr (h hr hcascade.1 hcascade.2) hfound

theorem tries_markWorkflowNodeResult (jobId : JobId) (succeeded : Bool) (error : Option String)
    (skipCascade : Bool) (resultHash : Option String) {s : WfState}
    (hb : g.begun = some (⟨q, .markWorkflowNodeResult jobId succeeded error skipCascade
      resultHash⟩, s)) (hmay : g.may = (getJob jobId none s.db).all fun job =>
      (job.metadata.bind codec.route).any fun p => p = (r, n)) :
    (nodeDiscipline codec r n).Tries
      (q.markWorkflowNodeResult codec jobId succeeded error skipCascade resultHash) g
      fun _ _ => True := by
  refine .bind (.query trivial fun found hfound => ?_)
  show (nodeDiscipline codec r n).Tries _ g _
  cases found with
  | none => exact .throw _
  | some job =>
    dsimp only
    split
    · exact .pure trivial
    · next runId nodeName hroute =>
      -- the job's metadata is what it was when the call was made
      have hmeta : ∀ old, getJob jobId none s.db = some old → job.metadata = old.metadata :=
        fun old hold => hfound _ old job hb hold rfl
      have hwrites : runId = r → nodeName = n → g.may = true := by
        rintro rfl rfl
        rw [hmay]
        rcases hold : getJob jobId none s.db with _ | old
        · rfl
        · rw [hmeta old hold] at hroute
          simp [hroute]
      have hsweeps : runId = r → succeeded = false → skipCascade = false →
          g.sweeps codec r = true := by
        rintro rfl rfl rfl
        simp only [CallGhost.sweeps, hb, any_some, WfCall.sweeps, Bool.not_false,
          Bool.and_self, Bool.true_and]
        rcases hold : getJob jobId none s.db with _ | old
        · rfl
        · rw [hmeta old hold] at hroute
          simp [hroute]
      refine .bind (.nowMillis fun now => ?_)
      refine .bind (.mono (Q := fun g' _ => g'.begun = g.begun) ?_ fun g' _ hg' => ?_)
      · unfold PyQueue.recordResult
        split <;>
          exact .mono (tries_setNode q hwrites) fun _ _ h => h.1
      have hsweeps' : runId = r → succeeded = false → skipCascade = false →
          g'.sweeps codec r = true := by
        unfold CallGhost.sweeps
        rw [hg']
        exact hsweeps
      refine .bind (.mono (tries_failFast q hsweeps') fun g₂ _ _ => ?_)
      refine .bind (tries_getNodes q fun g₃ nodes _ _ _ => ?_)
      have hend : ∀ (st : WorkflowState) (e : Option String),
          (nodeDiscipline codec r n).Tries (do
            q.endRun runId st e now
            return some (runId, nodeName, some st)) g₃ fun _ _ => True := by
        intro _ _
        refine tries_leavesNodes (bind ?_ fun _ => pure _) fun _ => trivial
        exact bind (query rfl) fun _ => query rfl
      split
      · exact .pure trivial
      · split
        · exact hend .failed error
        · exact hend .completed none

theorem tries_cancelRuns (now : Int) (fuel : Nat) :
    ∀ {visited stack : List String} {g : CallGhost}, g.sweeps codec r = true →
      (nodeDiscipline codec r n).Tries (q.cancelRuns now fuel visited stack) g
        fun _ _ => True := by
  induction fuel with
  | zero => exact fun _ => .pure trivial
  | succ fuel ih =>
    intro _ stack _ hsweeps
    cases stack with
    | nil => exact .pure trivial
    | cons runId =>
      unfold PyQueue.cancelRuns
      split
      · exact ih hsweeps
      · refine .bind (tries_getNodes q fun g₁ nodes hg₁ hnodup hmay => ?_)
        refine .bind (.mono (tries_cascade q runId nodes hnodup fun hr hfound =>
          hmay hr hsweeps hfound) fun g₂ _ hg₂ => ?_)
        have hsweeps₂ : g₂.sweeps codec r = true := by
          rw [CallGhost.sweeps, hg₂, hg₁]
          exact hsweeps
        refine .bind (tries_leavesNodes (query rfl) fun _ => ?_)
        refine .bind (tries_leavesNodes (query rfl) fun _ => ?_)
        have hchildren : (orElse (query (.childRuns q.namespace_ runId)) []).Makes
            fun s => s.leavesNodes = true := by
          refine orElse ?_ []
          exact query rfl
        exact .bind (tries_leavesNodes hchildren fun children => ih hsweeps₂)

theorem makes_submitWorkflow (sub : Submission) :
    (q.submitWorkflow codec sub).Makes fun s => s.leavesNodes = true := by
  refine (Makes.ofResult _).bind fun steps => ?_
  refine (Makes.ofResult _).bind fun ordered => ?_
  refine (PyQueue.makes_submittedDefinition sub (fun _ _ => rfl) fun _ => rfl).bind fun d => ?_
  refine newId.bind fun runId => ?_
  refine nowMillis.bind fun now => ?_
  refine bind (query rfl) fun _ => ?_
  refine (q.makes_submitNodes codec sub steps runId now (fun _ => rfl) ?_ ordered []).bind
    fun _ => ?_
  · rintro _ - (hst | hst) <;> simp [WfStmt.leavesNodes, hst, isEnded]
  · exact bind (query rfl) fun _ => pure _

theorem makes_endRun (runId : String) (st : WorkflowState) (e : Option String) (now : Int) :
    (q.endRun runId st e now).Makes fun s => s.leavesNodes = true :=
  bind (query rfl) fun _ => query rfl

theorem tries_finalizeRunIfTerminal (runId : String) :
    (nodeDiscipline codec r n).Tries (q.finalizeRunIfTerminal runId) g fun _ _ => True := by
  refine .bind (tries_getNodes q fun g' nodes _ _ _ => ?_)
  refine tries_leavesNodes ?_ fun _ => trivial
  split
  · exact pure _
  · refine nowMillis.bind fun now => ?_
    split <;> exact (makes_endRun q ..).bind fun _ => pure _

theorem tries_skipWorkflowNode (h : k = r → m = n → g.may = true) :
    (nodeDiscipline codec r n).Tries (q.skipWorkflowNode k m) g fun _ _ => True := by
  refine .bind (tries_leavesNodes (query rfl) fun node => ?_)
  cases node with
  | none => exact .pure trivial
  | some node =>
    refine .bind (tries_leavesNodes (q.makes_cancelNodeJob node fun _ => rfl) fun _ => ?_)
    exact .mono (tries_setNode q h) fun _ _ _ => trivial

theorem tries_resolveWorkflowGate (approved : Bool) (error : Option String)
    (h : k = r → m = n → g.may = true) :
    (nodeDiscipline codec r n).Tries (q.resolveWorkflowGate k m approved error) g
      fun _ _ => True := by
  refine .bind (.nowMillis fun now => ?_)
  split <;> exact .mono (tries_setNode q h) fun _ _ _ => trivial

/-- An expansion writes the parent: its count, which leaves it running, and with no children its
end. -/
theorem tries_expandFanOut (children : List (String × Bytes)) (spec : PyQueue.JobSpec)
    (h : k = r → m = n → g.may = true) :
    (nodeDiscipline codec r n).Tries (q.expandFanOut codec k m children spec) g
      fun _ _ => True := by
  unfold PyQueue.expandFanOut
  split
  · exact .throw _
  · refine .bind (tries_leavesNodes (q.makes_requireVisibleRun k rfl) fun _ => ?_)
    refine .bind (.nowMillis fun now => ?_)
    split
    · refine .bind (.mono (tries_setNode q h) fun g' _ hg' => ?_)
      refine .bind (.mono (tries_setNode q ?_) fun _ _ _ => .pure trivial)
      exact fun hk hm => hg'.2 (h hk hm) fun _ _ => rfl
    · refine .bind (tries_leavesNodes
        (q.makes_enqueueChildren codec k spec now (fun _ => rfl) children) fun ids => ?_)
      refine .bind (tries_leavesNodes (query ?_) fun _ => ?_)
      · simp only [WfStmt.leavesNodes, List.all_map]
        exact List.all_eq_true.2 fun _ _ => rfl
      · exact .bind (.mono (tries_setNode q h) fun _ _ _ => .pure trivial)

theorem makes_createDeferredJob (k m : String) (payload : Bytes) (spec : PyQueue.JobSpec) :
    (q.createDeferredJob codec k m payload spec).Makes fun s => s.leavesNodes = true := by
  refine bind (q.makes_requireVisibleRun k rfl) fun _ => ?_
  refine nowMillis.bind fun now => ?_
  refine bind (PyQueue.makes_enqueue _ rfl) fun job => ?_
  exact bind (query rfl) fun _ => pure _

theorem tries_checkFanOutCompletion
    (h : k = r → m = n → ∃ b, g.begun = some b ∧ b.1.finalizes r n = true) :
    (nodeDiscipline codec r n).Tries (q.checkFanOutCompletion k m) g fun _ _ => True := by
  refine .bind (tries_leavesNodes (query rfl) fun children => ?_)
  split
  · exact .pure trivial
  · refine .bind (.nowMillis fun now => ?_)
    exact .bind (.query h fun _ _ => .pure trivial)

theorem follows_prog (dlq : MetadataCodec) (c : WfCall) (s : WfState) :
    (c.prog dlq codec).Follows (nodeDiscipline codec r n).toDiscipline
      ⟨some (c, s), c.writesNode codec r n s⟩
      fun g' _ => (nodeDiscipline codec r n).toDiscipline.done g' := by
  obtain ⟨q, m⟩ := c
  have hleaves : ∀ {α : Type} {p : WfProg α} {g : CallGhost},
      p.Makes (fun s => s.leavesNodes = true) →
      (nodeDiscipline codec r n).Tries p g fun _ _ => True :=
    fun h => tries_leavesNodes h fun _ => trivial
  have hnode : ∀ {k m : String}, k = r → m = n → (decide (k = r) && decide (m = n)) = true := by
    rintro k m rfl rfl
    simp
  cases m
  all_goals refine follows_discard ?_
  case submitWorkflow sub => exact hleaves (makes_submitWorkflow q sub)
  case markWorkflowNodeResult j ok e skip h =>
    exact tries_markWorkflowNodeResult q j ok e skip h rfl rfl
  case finalizeRunIfTerminal k => exact tries_finalizeRunIfTerminal q k
  case cancelWorkflowRun =>
    refine .bind (.nowMillis fun now => ?_)
    exact tries_cancelRuns q now q.fuel rfl
  case setWorkflowRunCompensated | setWorkflowRunCompensationFailed =>
    exact hleaves (makes_endRun q ..)
  case resolveWorkflowGate k m ok e => exact tries_resolveWorkflowGate q ok e hnode
  case setWorkflowNodeRunning =>
    refine .bind (.nowMillis fun now => ?_)
    exact .mono (tries_setNode q hnode) fun _ _ _ => trivial
  case skipWorkflowNode => exact tries_skipWorkflowNode q hnode
  case expandFanOut k m children spec =>
    exact tries_expandFanOut q children spec hnode
  case createDeferredJob k m payload spec =>
    exact hleaves (makes_createDeferredJob q k m payload spec)
  case checkFanOutCompletion =>
    exact tries_checkFanOutCompletion q fun hk hm => ⟨_, rfl, hnode hk hm⟩
  case setWorkflowNodeWaitingApproval | setWorkflowNodeFanOutCount | failWorkflowNode
    | setWorkflowNodeCompensationJob | setWorkflowNodeCompensated
    | setWorkflowNodeCompensationFailed =>
    exact .mono (tries_setNode q hnode) fun _ _ _ => trivial
  case setWorkflowRunCompletedWithFailures | setWorkflowRunCompensating =>
    exact hleaves (query rfl)
  case store => exact hleaves (ofStore _ fun _ => rfl)

end nodeDiscipline

/-! ## The invariant -/

section Invariant

variable {op : WfOp} {world : WfWorld} {s : WfState}

/-- The statement ends node `n` of run `r` by an unconditional write. -/
def WfOp.EndsNode (r n : String) (op : WfOp) : Prop :=
  ∃ ns w, op = .stmt (.setNode ns r n w) ∧ w.newStatus.any (·.isEnded) = true

/-- The statement finalizes node `n` of run `r` if it is open. -/
def WfOp.FinalizesNode (r n : String) (op : WfOp) : Prop :=
  ∃ ns ok e at_, op = .stmt (.finalizeFanOutParent ns r n ok e at_)

variable (world s) in
/-- What a permitted statement does to the row of the node: nothing, a write that keeps the
outcome, a write to an open node, or the insertion of an open one. -/
theorem node_exec (hp : (nodeDiscipline codec r n).toDiscipline.permits g op) :
    (op.exec world s).2.wf.nodes.find (r, n) = s.wf.nodes.find (r, n) ∨
    (∃ x x', s.wf.nodes.find (r, n) = some x ∧
      (op.exec world s).2.wf.nodes.find (r, n) = some x' ∧ (x'.outcome = x.outcome ∨
        (∃ ns w, op = .stmt (.setNode ns r n w) ∧ g.may = true ∧
          x'.status = w.newStatus.getD x.status ∧ w.newStatus ≠ none) ∨
        op.FinalizesNode r n ∧ x.status.isEnded = false)) ∨
    (s.wf.nodes.find (r, n) = none ∧ ∃ x', (op.exec world s).2.wf.nodes.find (r, n) = some x' ∧
      x'.status.isEnded = false) := by
  obtain hsame | ⟨ns, k, m, w, y, rfl, -, hnodes⟩ | ⟨ns, nodes, hop, hrows⟩ |
    ⟨ns, k, m, ok, e, at_, rfl, hnodes⟩ := nodes_exec op world s
  · exact .inl (by rw [hsame])
  · rw [hnodes, find_writeNode]
    by_cases hkey : (r, n) = (k, m)
    · obtain ⟨rfl, rfl⟩ := Prod.mk.inj hkey
      rw [if_pos rfl]
      rcases hf : s.wf.nodes.find (r, n) with _ | x
      · exact .inl rfl
      · refine .inr (.inl ⟨x, w.apply x, rfl, rfl, ?_⟩)
        rcases hw : w.newStatus with _ | _
        · exact .inl (NodeWrite.apply_outcome hw x)
        · refine .inr (.inl ⟨ns, w, rfl, hp rfl rfl (by simp [hw]), ?_, by simp [hw]⟩)
          exact w.apply_status x
    · exact .inl (if_neg hkey)
  · have hopen : ∀ node ∈ nodes, node.status.isEnded = false := by
      obtain rfl | ⟨_, rfl, rfl⟩ := hop
      · exact hp
      · exact fun y hy => List.mem_singleton.1 hy ▸ hp
    rw [find_of_append hrows]
    rcases hf : s.wf.nodes.find (r, n) with _ | x
    · rcases hnew : nodes.find? (fun x => workflowNodesSchema.key x = (r, n)) with _ | x'
      · exact .inl (by rw [Option.none_or])
      · exact .inr (.inr ⟨rfl, x', rfl, hopen x' (List.mem_of_find?_eq_some hnew)⟩)
    · exact .inl (by rw [Option.some_or])
  · rw [hnodes]
    obtain hsame | ⟨hkey, x, hx, hfin, -, hx'⟩ :=
      find_finalizeFanOutParent s.wf ns k m ok e at_ (r, n)
    · exact .inl hsame
    · obtain ⟨rfl, rfl⟩ := Prod.mk.inj hkey
      refine .inr (.inl ⟨x, _, hx, hx', .inr (.inr ⟨⟨ns, ok, e, at_, rfl⟩, ?_⟩)⟩)
      revert hfin
      cases x.status <;> simp [isFinalized, isEnded]

theorem nodeOver_exec (hp : (nodeDiscipline codec r n).toDiscipline.permits g op)
    (h : (op.exec world s).2.nodeOver r n = true) :
    s.nodeOver r n = true ∨ (op.EndsNode r n ∧ g.may = true) ∨ op.FinalizesNode r n := by
  unfold WfState.nodeOver nodeStatus at h ⊢
  obtain hsame | ⟨x, x', hx, hx', hcase⟩ | ⟨hx, x', hx', hopen⟩ := node_exec world
    s hp
  · exact .inl (by rwa [hsame] at h)
  · rw [hx'] at h
    rw [hx]
    obtain hkeep | ⟨ns, w, rfl, hmay, hst, hw⟩ | ⟨hfin, -⟩ := hcase
    · have hst : x'.status = x.status := congrArg Prod.fst hkeep
      exact .inl (by rwa [map_some, any_some, hst] at h)
    · refine .inr (.inl ⟨⟨ns, w, rfl, ?_⟩, hmay⟩)
      obtain ⟨_, hst'⟩ := Option.ne_none_iff_exists'.1 hw
      rw [hst'] at hst
      rw [map_some, any_some, hst] at h
      rw [hst']
      exact h
    · exact .inr (.inr hfin)
  · rw [hx', map_some, any_some, hopen] at h
    cases h

/-- The nodes a statement reads of a run are stored, one for each name. -/
theorem mem_getNodes {ns : Option String} {x : WorkflowNode} (h : x ∈ s.wf.getNodes ns k) :
    s.wf.nodes.find (k, x.nodeName) = some x := by
  unfold getNodes at h
  split at h
  · cases h
  · obtain ⟨hmem, hk⟩ := List.mem_filter.1 h
    obtain rfl : x.runId = k := of_decide_eq_true hk
    exact Table.find_of_mem hmem

theorem nodup_getNodes (ns : Option String) (k : String) :
    ((s.wf.getNodes ns k).map (·.nodeName)).Nodup := by
  have hnodup : (s.wf.getNodes ns k).Nodup := by
    unfold getNodes
    split
    · exact List.nodup_nil
    · exact (List.Nodup.of_map _ s.wf.nodes.nodup_key).filter _
  refine List.Nodup.map_on (fun x hx y hy hxy => ?_) hnodup
  have hx := mem_getNodes hx
  have hy := mem_getNodes hy
  rw [show x.nodeName = y.nodeName from hxy, hy] at hx
  exact (some.inj hx).symm

/-- How a thread comes to be allowed to write the node: it was before and has not ended it, or
its call skips what it reads as not started and it has just read the node so. -/
theorem nextMayNode_exec
    (h : nextMayNode codec r n g stmt ((WfOp.stmt stmt).exec world s).1 = true) :
    (g.may = true ∧ ¬ (WfOp.stmt stmt).EndsNode r n) ∨
    (∃ ns x, stmt = .getNodes ns r ∧ g.sweeps codec r = true ∧
      s.wf.nodes.find (r, n) = some x ∧ x.status.isWaiting = true) := by
  cases stmt with
  | setNode =>
    simp only [nextMayNode, Bool.and_eq_true, Bool.not_eq_true', Bool.and_eq_false_imp,
      decide_eq_true_eq] at h
    refine .inl ⟨h.1, ?_⟩
    rintro ⟨_, _, heq, hends⟩
    cases heq
    rw [h.2 ⟨rfl, rfl⟩] at hends
    cases hends
  | getNodes ns =>
    by_cases hmay : g.may = true
    · refine .inl ⟨hmay, ?_⟩
      rintro ⟨_, _, heq, -⟩
      cases heq
    · refine .inr ?_
      simp only [WfOp.exec] at h
      split at h
      · exact absurd h hmay
      · simp only [WfStmt.run, nextMayNode, Bool.or_eq_true] at h
        have h := h.resolve_left hmay
        simp only [Bool.and_eq_true, decide_eq_true_eq] at h
        obtain ⟨⟨rfl, hsweeps⟩, hfound⟩ := h
        obtain ⟨x, hmem, hx⟩ := List.any_eq_true.1 hfound
        obtain ⟨hname, hwait⟩ := Bool.and_eq_true_iff.1 hx
        obtain rfl : x.nodeName = n := of_decide_eq_true hname
        exact ⟨ns, x, rfl, hsweeps, mem_getNodes hmem, hwait⟩
  | job | enqueue | getDefinition | createDefinition | createRun | getRun | updateRunState
  | setRunCompleted | childRuns | createNode | createNodesBatch | getNode | nodesByPrefix
  | finalizeFanOutParent =>
    refine .inl ⟨h, ?_⟩
    rintro ⟨_, _, heq, -⟩
    cases heq

variable {dlq : MetadataCodec} {τ : Type} {K : Active wfMachine (wfClients dlq codec) τ}
  {G : τ → CallGhost}

/-- The invariant: the guard of the node holds, and a call in progress still knows what it
started from. -/
structure NodeInv (r n : String) (s : WfState) (K : Active wfMachine (wfClients dlq codec) τ)
    (G : τ → CallGhost) : Prop where
  knows : Knows r s K G
  guard : (nodeGuard dlq codec r n).Holds CallGhost.may s K G

variable {t : τ} {b : Begun wfMachine (wfClients dlq codec)}

theorem NodeInv.expects (h : NodeInv r n s K G) (ht : K t = some b) (op : WfOp) (world : WfWorld) :
    (nodeDiscipline codec r n).toDiscipline.expects (G t) op (op.exec world s).1 := by
  cases op with
  | nowMillis | newId => trivial
  | stmt stmt =>
    cases stmt with
    | job o =>
      cases o with
      | getJob jobId ns => exact h.knows.readsMetadata ht jobId ns world
      | _ => trivial
    | getNodes ns k =>
      intro _ hnodes
      simp only [WfOp.exec] at hnodes
      split at hnodes
      · cases hnodes
      · obtain rfl := Except.ok.inj hnodes
        exact nodup_getNodes ns k
    | _ => trivial

theorem NodeInv.endsNode (h : NodeInv r n s K G) (ht : K t = some b)
    (hp : (nodeDiscipline codec r n).toDiscipline.permits (G t) op)
    (hnow : (op.exec world s).2.nodeOver r n = true) :
    s.nodeOver r n = true ∨
      (op.EndsNode r n ∨ op.FinalizesNode r n) ∧ (nodeGuard dlq codec r n).ends b = true := by
  refine (nodeOver_exec hp hnow).imp_right ?_
  rintro (⟨hends, hmay⟩ | ⟨ns, ok, e, at_, rfl⟩)
  · exact ⟨.inl hends, Bool.or_eq_true_iff.2 (.inl (h.guard.writes t b ht hmay))⟩
  · obtain ⟨_, hb', hfin⟩ := hp rfl rfl
    rw [h.knows.begun t b ht] at hb'
    cases hb'
    exact ⟨.inr ⟨ns, ok, e, at_, rfl⟩, Bool.or_eq_true_iff.2 (.inr hfin)⟩

/-- A thread that may write the node after a permitted statement is in a call that can. -/
theorem NodeInv.writes (h : NodeInv r n s K G) (ht : K t = some b)
    (hmay' : nextMayNode codec r n (G t) stmt ((WfOp.stmt stmt).exec world s).1 = true) :
    (nodeGuard dlq codec r n).writes b = true := by
  obtain ⟨hmay, -⟩ | ⟨_, _, rfl, hsweeps, -, -⟩ := nextMayNode_exec hmay'
  · exact h.guard.writes t b ht hmay
  · rw [CallGhost.sweeps, h.knows.begun t b ht] at hsweeps
    exact Bool.or_eq_true_iff.2 (.inr hsweeps)

/-- A thread that may write the node after a permitted statement finds it open. -/
theorem NodeInv.isOpen (h : NodeInv r n s K G) (ht : K t = some b)
    (hp : (nodeDiscipline codec r n).permits (G t) stmt)
    (hmay' : nextMayNode codec r n (G t) stmt ((WfOp.stmt stmt).exec world s).1 = true) :
    ((WfOp.stmt stmt).exec world s).2.nodeOver r n = false := by
  refine Bool.eq_false_iff.2 fun hnow => ?_
  have hover := h.endsNode ht (show (nodeDiscipline codec r n).toDiscipline.permits (G t)
    (.stmt stmt) from hp) hnow
  obtain ⟨hmay, hnot⟩ | ⟨ns, x, rfl, -, hx, hwait⟩ := nextMayNode_exec hmay'
  · obtain hbefore | ⟨hends | ⟨_, _, _, _, heq⟩, -⟩ := hover
    · rw [show s.nodeOver r n = false from h.guard.isOpen t b ht hmay] at hbefore
      cases hbefore
    · exact hnot hends
    · -- a call that compares first never writes the node otherwise
      cases heq
      obtain ⟨_, hb', hfin⟩ := hp rfl rfl
      rw [h.knows.begun t b ht] at hb'
      cases hb'
      have hwrites : (WfCall.writesNode codec r n b.since b.call ||
          WfCall.sweeps codec r b.since b.call) = true := h.guard.writes t b ht hmay
      rw [WfCall.writes_of_finalizes hfin] at hwrites
      cases hwrites
  · obtain hbefore | ⟨⟨_, _, heq, -⟩ | ⟨_, _, _, _, heq⟩, -⟩ := hover
    · rw [WfState.nodeOver, nodeStatus, hx] at hbefore
      revert hwait hbefore
      rw [map_some, any_some]
      cases x.status <;> simp [isWaiting, isEnded]
    · cases heq
    · cases heq

variable [DecidableEq τ]

theorem NodeInv.exec (h : NodeInv r n s K G) (ht : K t = some b)
    (hp : (nodeDiscipline codec r n).toDiscipline.permits (G t) op)
    (hids : ∀ id ∈ op.newIds world, id ∉ s.issued) :
    NodeInv r n (op.exec world s).2 K (Function.update G t
      ((nodeDiscipline codec r n).toDiscipline.next (G t) op (op.exec world s).1)) where
  knows := h.knows.step hids (by cases op <;> rfl)
  guard := by
    have hover : (op.exec world s).2.nodeOver r n = true → _ := fun hnow =>
      (h.endsNode ht hp hnow).imp_right And.right
    cases op with
    | nowMillis | newId =>
      exact h.guard.step ht (h.guard.writes t b ht) (h.guard.isOpen t b ht) .inl
    | stmt => exact h.guard.step ht (h.writes ht) (h.isOpen ht hp) hover

theorem NodeInv.start (h : NodeInv r n s K G) {call : WfCall}
    (hr : (nodeRules dlq codec r n τ).mayStart s K t call) :
    NodeInv r n s (Function.update K t (some ⟨call, s⟩))
      (Function.update G t ⟨some (call, s), call.writesNode codec r n s⟩) where
  knows := h.knows.start call _
  guard := h.guard.start hr.2 (fun hmay => Bool.or_eq_true_iff.2 (.inl hmay)) hr.1

theorem nodeSound : Session.Sound (nodeRules dlq codec r n τ)
    (nodeDiscipline codec r n).toDiscipline (NodeInv r n) where
  start s K G t call h _ _ hr := ⟨_, h.start hr, nodeDiscipline.follows_prog dlq call s⟩
  step s K G t op env h ht hp hr := by
    obtain ⟨_, hb⟩ := Option.isSome_iff_exists.1 ht
    exact ⟨h.expects hb op env, h.exec hb hp hr⟩
  finish s K G t h _ := ⟨h.knows.finish t, h.guard.finish t⟩

theorem node_certified {c : Session wfMachine (wfClients dlq codec) τ}
    (h : Session.Reaches (nodeRules dlq codec r n τ) (Session.idle WfState.init) c) :
    ∃ G, Session.Certified (nodeDiscipline codec r n).toDiscipline (NodeInv r n) c G := by
  refine nodeSound.reachable (G := fun _ => ⟨none, false⟩) (.of_idle ?_ fun _ => trivial) h
  exact ⟨.idle _, .idle ..⟩

end Invariant

/-! ## A gate -/

/-- A submission of one step that the tracker decides. -/
def oneGate : Submission where
  name := "w"
  version := 1
  ordered := .ok [⟨"g", []⟩]
  stepMetadata := .ok []
  nodePayloads := []
  queueDefault := "q"
  paramsJson := none
  deferredNodeNames := ["g"]
  parentRunId := none
  parentNodeName := none
  cacheHitNodes := []

/-- Run `r` is submitted; its gate waits for approval and is approved. -/
def approveMoves : List (Move wfMachine (wfClients plainCodec namesCodec) Unit) :=
  wfMoves () (.submitWorkflow oneGate) ["", "d", "", "r", "", "", "", ""] ++
  wfMoves () (.setWorkflowNodeWaitingApproval "r" "g") [""] ++
  wfMoves () (.resolveWorkflowGate "r" "g" true none) ["", ""]

/-! ## The law -/

/-- **A node that has ended stays as it is.** In every run of the system that keeps to the rules,
once node `n` of run `r` is completed, failed or skipped, its status, its result and the time of
its completion never change again. -/
theorem ended_node_stays (dlq : MetadataCodec) (codec : WorkflowCodec) {τ : Type} [DecidableEq τ]
    (r n : String) {c c' : Session wfMachine (wfClients dlq codec) τ}
    (h : Session.Reaches (nodeRules dlq codec r n τ) (Session.idle WfState.init) c)
    (h' : Session.Reaches (nodeRules dlq codec r n τ) c c') {x : WorkflowNode}
    (hx : c.state.wf.nodes.find (r, n) = some x)
    (hst : x.status = .completed ∨ x.status = .failed ∨ x.status = .skipped) :
    ∃ x', c'.state.wf.nodes.find (r, n) = some x' ∧ x'.status = x.status ∧
      x'.resultHash = x.resultHash ∧ x'.completedAt = x.completedAt := by
  obtain ⟨G, hG⟩ := node_certified h
  have hended : x.status.isEnded = true := by obtain hst | hst | hst := hst <;> rw [hst] <;> rfl
  have hstays : (c'.state.wf.nodes.find (r, n)).map WorkflowNode.outcome = some x.outcome := by
    refine nodeSound.stable
      (P := fun s => (s.wf.nodes.find (r, n)).map WorkflowNode.outcome = some x.outcome) ?_ hG h' ?_
    · intro s _ _ t _ world hinv ht hp _ hs
      obtain ⟨b, hb⟩ := Option.isSome_iff_exists.1 ht
      obtain ⟨y, hy, hyx⟩ := map_eq_some_iff.1 hs
      have hyst : y.status = x.status := congrArg Prod.fst hyx
      obtain hsame | ⟨z, _, hz, hz', hcase⟩ | ⟨hnone, -⟩ := node_exec world s hp
      · rw [hsame]
        exact hs
      · obtain rfl : y = z := some.inj (hy.symm.trans hz)
        rw [hz']
        obtain hkeep | ⟨_, _, rfl, hmay, -, -⟩ | ⟨-, hopen⟩ := hcase
        · rw [map_some, hkeep, hyx]
        · -- the thread may write the node, so the node has not ended
          have hopen : s.nodeOver r n = false := hinv.guard.isOpen t b hb hmay
          rw [WfState.nodeOver, nodeStatus, hy, map_some, any_some, hyst,
            hended] at hopen
          cases hopen
        · rw [hyst, hended] at hopen
          cases hopen
      · rw [hnone] at hy
        cases hy
    · rw [hx]
      rfl
  obtain ⟨x', hx', hout⟩ := map_eq_some_iff.1 hstays
  simp only [WorkflowNode.outcome, Prod.mk.injEq] at hout
  exact ⟨x', hx', hout.1, hout.2.1, hout.2.2⟩

/-- The approved gate stays as it is while its run ends. -/
theorem ended_node_stays_approved :
    ∃ c c' : Session wfMachine (wfClients plainCodec namesCodec) Unit, ∃ x x',
      Session.Reaches (nodeRules plainCodec namesCodec "r" "g" Unit) (Session.idle WfState.init) c ∧
      Session.Reaches (nodeRules plainCodec namesCodec "r" "g" Unit) c c' ∧
      c.state.wf.nodes.find ("r", "g") = some x ∧ x.status = .completed ∧
      c'.state.wf.nodes.find ("r", "g") = some x' ∧ x'.status = x.status ∧
      x'.resultHash = x.resultHash ∧ x'.completedAt = x.completedAt := by
  obtain ⟨c, c', h, h', hst⟩ := Session.exists_reaches
    (nodeRules plainCodec namesCodec "r" "g" Unit) (.idle .init) approveMoves
    (wfMoves () (.finalizeRunIfTerminal "r") ["", "", "", ""])
    (fun c _ => c.state.wf.nodeStatus "r" "g" = some .completed) (by decide +kernel)
  obtain ⟨x, hx, hxst⟩ := map_eq_some_iff.1 hst
  obtain ⟨x', hx'⟩ := ended_node_stays plainCodec namesCodec "r" "g" h h' hx (.inl hxst)
  exact ⟨c, c', x, x', h, h', hx, hxst, hx'⟩

/-- A gate that one caller has approved is rejected by another. -/
theorem approved_gate_fails :
    ∃ c c' : Session wfMachine (wfClients plainCodec namesCodec) Unit,
      Session.Reaches (anyOrder plainCodec namesCodec Unit) (Session.idle WfState.init) c ∧
      Session.Reaches (anyOrder plainCodec namesCodec Unit) c c' ∧
      c.state.wf.nodeStatus "r" "g" = some .completed ∧
      c'.state.wf.nodeStatus "r" "g" = some .failed := by
  refine Session.exists_reaches _ _ approveMoves
    (wfMoves () (.resolveWorkflowGate "r" "g" false (some "rejected")) ["", ""]) _ ?_
  decide +kernel

end Flexiq
