import Flexiq.Table
import Flexiq.Job

/-!
# The workflow tables

A **workflow run** is one execution of a graph of steps, a **node** the state of one step in
it. Both are rows that the queue's processes share: a run has its state, a node its status, the
job that executes it, and what it ended with.

The tables are updated by single statements (`WorkflowDb.setNode` and its members, and the
statements on runs). None of them looks at the status or the state it overwrites, with one
exception: `finalizeFanOutParent` is a compare-and-set. `WorkflowState.canTransitionTo` says
which moves of a run are meant; no statement asks it.

Nodes carry no namespace of their own. A store that is scoped to a namespace first checks that
the run is in it (`runOutOfScope`) and answers as if the run did not exist when it is not.
-/

namespace Flexiq

/-! ## States of a run -/

inductive WorkflowState where
  | pending
  | running
  | paused
  | completed
  | completedWithFailures
  | failed
  | cancelled
  | compensating
  | compensated
  | compensationFailed
  deriving DecidableEq

namespace WorkflowState

/-- The run has ended, for now: a failed or completed run may still be compensated. -/
def isTerminal : WorkflowState → Bool
  | completed | completedWithFailures | failed | cancelled | compensated
  | compensationFailed => true
  | pending | running | paused | compensating => false

/-- The moves of a run that are meant. -/
def canTransitionTo : WorkflowState → WorkflowState → Bool
  | pending, running
  | running, completed
  | running, completedWithFailures
  | running, failed
  | running, cancelled
  | running, paused
  | running, compensating
  | paused, running
  | paused, cancelled
  | completedWithFailures, compensating
  | completed, compensating
  | failed, compensating
  | compensating, compensated
  | compensating, compensationFailed => true
  | _, _ => false

/-- A state that no meant move leaves. -/
def isFinal : WorkflowState → Bool
  | cancelled | compensated | compensationFailed => true
  | _ => false

variable {s : WorkflowState}

theorem isFinal_iff : s.isFinal = true ↔ ∀ target, s.canTransitionTo target = false := by
  constructor
  · intro h target
    cases s <;> cases h <;> cases target <;> rfl
  · intro h
    cases s with
    | pending => cases h running
    | running => cases h completed
    | paused => cases h running
    | completed => cases h compensating
    | completedWithFailures => cases h compensating
    | failed => cases h compensating
    | compensating => cases h compensated
    | cancelled | compensated | compensationFailed => rfl

theorem isTerminal_of_isFinal (h : s.isFinal = true) : s.isTerminal = true := by
  cases s <;> first | rfl | cases h

end WorkflowState

/-! ## Statuses of a node -/

inductive WorkflowNodeStatus where
  | pending
  | ready
  | running
  | completed
  | failed
  | skipped
  | waitingApproval
  | cacheHit
  | compensating
  | compensated
  | compensationFailed
  deriving DecidableEq

namespace WorkflowNodeStatus

/-- The run-level finalizer counts the node as done. -/
def isTerminal : WorkflowNodeStatus → Bool
  | completed | failed | skipped | cacheHit | compensated | compensationFailed => true
  | pending | ready | running | waitingApproval | compensating => false

/-- The statuses a fan-out parent is not finalized from again. -/
def isFinalized : WorkflowNodeStatus → Bool
  | completed | failed | skipped | cacheHit => true
  | _ => false

end WorkflowNodeStatus

/-! ## Rows -/

/-- A workflow definition; only what a submission looks up. -/
structure WorkflowDefinition where
  id : String
  name : String
  version : Int
  deriving DecidableEq

structure WorkflowRun where
  id : String
  definitionId : String
  params : Option String
  state : WorkflowState
  startedAt : Option Int
  completedAt : Option Int
  error : Option String
  /-- The run whose node started this one. -/
  parentRunId : Option String
  parentNodeName : Option String
  createdAt : Int
  namespace_ : Option String
  deriving DecidableEq

structure WorkflowNode where
  runId : String
  nodeName : String
  jobId : Option JobId
  status : WorkflowNodeStatus
  resultHash : Option String
  fanOutCount : Option Int
  startedAt : Option Int
  completedAt : Option Int
  error : Option String
  compensationJobId : Option JobId
  compensationStartedAt : Option Int
  compensationCompletedAt : Option Int
  compensationError : Option String
  deriving DecidableEq

def WorkflowNode.fresh (runId nodeName : String) (jobId : Option JobId)
    (status : WorkflowNodeStatus) : WorkflowNode where
  runId := runId
  nodeName := nodeName
  jobId := jobId
  status := status
  resultHash := none
  fanOutCount := none
  startedAt := none
  completedAt := none
  error := none
  compensationJobId := none
  compensationStartedAt := none
  compensationCompletedAt := none
  compensationError := none

/-- `workflow_definitions`: keyed by id, one a name and version. -/
def workflowDefinitionsSchema : Schema WorkflowDefinition String (String × Int) where
  key := WorkflowDefinition.id
  index d := some (d.name, d.version)

/-- `workflow_runs`: keyed by id. -/
def workflowRunsSchema : Schema WorkflowRun String Unit where
  key := WorkflowRun.id
  index _ := none

/-- `workflow_nodes`: a name is used once within a run. -/
def workflowNodesSchema : Schema WorkflowNode (String × String) Unit where
  key n := (n.runId, n.nodeName)
  index _ := none

@[simp] theorem workflowRunsSchema_key (r : WorkflowRun) : workflowRunsSchema.key r = r.id := rfl

structure WorkflowDb where
  definitions : Table workflowDefinitionsSchema
  runs : Table workflowRunsSchema
  nodes : Table workflowNodesSchema
  deriving DecidableEq

/-- The tables after their migrations have run. -/
def WorkflowDb.empty : WorkflowDb := ⟨.empty, .empty, .empty⟩

/-! ## Statements -/

/-- The error of a setter that touched no row. -/
def nodeNotFound (runId nodeName : String) : QueueError :=
  .other ("node '" ++ nodeName ++ "' not found in workflow run " ++ runId)

/-- The error of a create against a run the store cannot see. -/
def runNotFound (runId : String) : QueueError := .other ("workflow run not found: " ++ runId)

inductive NodeWrite where
  | status (status : WorkflowNodeStatus)
  | job (jobId : JobId)
  | completed (completedAt : Int) (resultHash : Option String)
  | error (error : String)
  | fanOutCount (count : Int)
  | running (startedAt : Int)
  | compensationJob (jobId : JobId) (startedAt : Int)
  | compensated (completedAt : Int)
  | compensationFailed (error : String) (completedAt : Int)
  deriving DecidableEq

def NodeWrite.apply : NodeWrite → WorkflowNode → WorkflowNode
  | status st, n => { n with status := st }
  | job jobId, n => { n with jobId := some jobId }
  | completed completedAt resultHash, n =>
    { n with status := .completed, completedAt := some completedAt, resultHash := resultHash }
  | error e, n => { n with status := .failed, error := some e }
  | fanOutCount count, n => { n with fanOutCount := some count, status := .running }
  | running startedAt, n => { n with status := .running, startedAt := some startedAt }
  | compensationJob jobId startedAt, n =>
    { n with
      status := .compensating
      compensationJobId := some jobId
      compensationStartedAt := some startedAt }
  | compensated completedAt, n =>
    { n with status := .compensated, compensationCompletedAt := some completedAt }
  | compensationFailed e completedAt, n =>
    { n with
      status := .compensationFailed
      compensationCompletedAt := some completedAt
      compensationError := some e }

@[simp] theorem NodeWrite.apply_runId (w : NodeWrite) (n : WorkflowNode) :
    (w.apply n).runId = n.runId := by
  cases w <;> rfl

@[simp] theorem NodeWrite.apply_nodeName (w : NodeWrite) (n : WorkflowNode) :
    (w.apply n).nodeName = n.nodeName := by
  cases w <;> rfl

namespace WorkflowDb

/-- A run is outside the namespace of the store, which is to answer as if it did not exist. A
store without a namespace sees every run, and every id. -/
def runOutOfScope (namespace_ : Option String) (runId : String) (w : WorkflowDb) : Bool :=
  match namespace_ with
  | none => false
  | some ns => ((w.runs.find runId).filter fun r => r.namespace_ = some ns).isNone

/-- The rows of one run that the store can see. -/
def sees (namespace_ : Option String) (runId : String) (r : WorkflowRun) : Bool :=
  decide (r.id = runId) && jobInNamespace r.namespace_ namespace_

theorem preserves_run {f : WorkflowRun → WorkflowRun} (hf : ∀ r, (f r).id = r.id)
    (p : WorkflowRun → Bool) : Table.Preserves workflowRunsSchema p f :=
  fun r _ => ⟨hf r, Or.inl rfl⟩

theorem preserves_node {f : WorkflowNode → WorkflowNode} (hr : ∀ n, (f n).runId = n.runId)
    (hn : ∀ n, (f n).nodeName = n.nodeName) (p : WorkflowNode → Bool) :
    Table.Preserves workflowNodesSchema p f :=
  fun n _ => ⟨Prod.ext (hr n) (hn n), Or.inl rfl⟩

/-- A run the store can see. -/
def getRun (namespace_ : Option String) (runId : String) (w : WorkflowDb) : Option WorkflowRun :=
  (w.runs.find runId).filter fun r => jobInNamespace r.namespace_ namespace_

/-- Set a run's state and error, whatever they are. -/
def updateRunState (namespace_ : Option String) (runId : String) (state : WorkflowState)
    (error : Option String) (w : WorkflowDb) : WorkflowDb :=
  { w with
    runs := w.runs.update (sees namespace_ runId)
      (fun r => { r with state := state, error := error }) (preserves_run (fun _ => rfl) _) }

/-- Stamp the end of a run. -/
def setRunCompleted (namespace_ : Option String) (runId : String) (completedAt : Int)
    (w : WorkflowDb) : WorkflowDb :=
  { w with
    runs := w.runs.update (sees namespace_ runId)
      (fun r => { r with completedAt := some completedAt }) (preserves_run (fun _ => rfl) _) }

/-- The parent of a run, if it has one, is outside the namespace of the store. -/
def parentOutOfScope (namespace_ : Option String) (run : WorkflowRun) (w : WorkflowDb) : Bool :=
  match run.parentRunId with
  | some parent => runOutOfScope namespace_ parent w
  | none => false

/-- Insert a run, in the namespace of the store; its parent must be one the store can see. -/
def createRun (namespace_ : Option String) (run : WorkflowRun) (w : WorkflowDb) :
    Except QueueError WorkflowDb :=
  if parentOutOfScope namespace_ run w then
    .error (.other ("parent workflow run not found: " ++ run.parentRunId.getD ""))
  else
    match w.runs.insert { run with namespace_ := namespace_ } with
    | some runs => .ok { w with runs }
    | none => .error (.storage .uniqueViolation)

def childRuns (namespace_ : Option String) (parentRunId : String) (w : WorkflowDb) :
    List WorkflowRun :=
  w.runs.select fun r =>
    decide (r.parentRunId = some parentRunId) && jobInNamespace r.namespace_ namespace_

def insertNode (node : WorkflowNode) (w : WorkflowDb) : Except QueueError WorkflowDb :=
  match w.nodes.insert node with
  | some nodes => .ok { w with nodes }
  | none => .error (.storage .uniqueViolation)

/-- Insert node rows, one after the other. -/
def insertNodes : List WorkflowNode → WorkflowDb → Except QueueError WorkflowDb
  | [], w => .ok w
  | node :: rest, w => do
    let w ← insertNode node w
    insertNodes rest w

/-- Insert nodes in one transaction, all of runs the store can see. -/
def createNodesBatch (namespace_ : Option String) (nodes : List WorkflowNode) (w : WorkflowDb) :
    Except QueueError WorkflowDb :=
  match nodes.find? fun n => runOutOfScope namespace_ n.runId w with
  | some n => .error (runNotFound n.runId)
  | none => insertNodes nodes w

def createNode (namespace_ : Option String) (node : WorkflowNode) (w : WorkflowDb) :
    Except QueueError WorkflowDb :=
  createNodesBatch namespace_ [node] w

def getNode (namespace_ : Option String) (runId nodeName : String) (w : WorkflowDb) :
    Option WorkflowNode :=
  if runOutOfScope namespace_ runId w then none else w.nodes.find (runId, nodeName)

def getNodes (namespace_ : Option String) (runId : String) (w : WorkflowDb) :
    List WorkflowNode :=
  if runOutOfScope namespace_ runId w then [] else w.nodes.select fun n => n.runId = runId

def isNode (runId nodeName : String) (n : WorkflowNode) : Bool :=
  n.runId = runId ∧ n.nodeName = nodeName

def writeNode (runId nodeName : String) (write : NodeWrite) (w : WorkflowDb) : WorkflowDb :=
  { w with
    nodes := w.nodes.update (isNode runId nodeName) write.apply
      (preserves_node write.apply_runId write.apply_nodeName _) }

/-- A node setter: write the node, whatever its status; a node that does not exist, or belongs to
a run the store cannot see, is an error. -/
def setNode (namespace_ : Option String) (runId nodeName : String) (write : NodeWrite)
    (w : WorkflowDb) : Except QueueError WorkflowDb :=
  if runOutOfScope namespace_ runId w then .error (nodeNotFound runId nodeName)
  else if w.nodes.count (isNode runId nodeName) = 0 then .error (nodeNotFound runId nodeName)
  else .ok (writeNode runId nodeName write w)

/-- How a fan-out parent ends. -/
def fanOutOutcome (succeeded : Bool) (error : Option String) (completedAt : Int)
    (n : WorkflowNode) : WorkflowNode :=
  if succeeded then { n with status := .completed, completedAt := some completedAt }
  else { n with status := .failed, error := some (error.getD "fan-out child failed") }

variable {succeeded : Bool} {error : Option String} {completedAt : Int}

theorem fanOutOutcome_runId (n : WorkflowNode) :
    (fanOutOutcome succeeded error completedAt n).runId = n.runId := by
  unfold fanOutOutcome
  split <;> rfl

theorem fanOutOutcome_nodeName (n : WorkflowNode) :
    (fanOutOutcome succeeded error completedAt n).nodeName = n.nodeName := by
  unfold fanOutOutcome
  split <;> rfl

/-- The node a compare-and-set would finalize. -/
def isOpenNode (runId nodeName : String) (n : WorkflowNode) : Bool :=
  isNode runId nodeName n && !n.status.isFinalized

/-- Finalize a fan-out parent unless it is finalized already; the answer says which. -/
def finalizeFanOutParent (namespace_ : Option String) (runId nodeName : String)
    (succeeded : Bool) (error : Option String) (completedAt : Int) (w : WorkflowDb) :
    Bool × WorkflowDb :=
  if runOutOfScope namespace_ runId w then (false, w)
  else (decide (0 < w.nodes.count (isOpenNode runId nodeName)),
    { w with
      nodes := w.nodes.update (isOpenNode runId nodeName)
        (fanOutOutcome succeeded error completedAt)
        (preserves_node fanOutOutcome_runId fanOutOutcome_nodeName _) })

end WorkflowDb

/-! ## Names that match a pattern -/

/-- An ASCII letter in lower case; `LIKE` ignores the case of these. -/
def asciiLower (c : Char) : Char :=
  if 'A' ≤ c ∧ c ≤ 'Z' then Char.ofNat (c.toNat + 32) else c

/-- Some suffix of the text passes the test: what may follow a `%`. -/
def likeSuffix (test : List Char → Bool) : List Char → Bool
  | [] => test []
  | c :: text => test (c :: text) || likeSuffix test text

/-- SQLite's `LIKE`: `%` stands for any text, `_` for any character. -/
def like : List Char → List Char → Bool
  | [], text => text.isEmpty
  | p :: pattern, text =>
    if p = '%' then likeSuffix (like pattern) text
    else
      match text with
      | [] => false
      | c :: text => (p = '_' || asciiLower p = asciiLower c) && like pattern text

/-- The nodes of a run whose names start with a text, as the pattern query finds them. -/
def WorkflowDb.nodesByPrefix (namespace_ : Option String) (runId start : String)
    (w : WorkflowDb) : List WorkflowNode :=
  (w.getNodes namespace_ runId).filter fun n => like (start ++ "%").toList n.nodeName.toList

end Flexiq
