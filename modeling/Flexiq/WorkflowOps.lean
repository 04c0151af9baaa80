import Flexiq.Workflow
import Flexiq.Operations
import Flexiq.Effect

/-!
# The workflow methods of a queue

The methods through which the processes of a queue drive workflow runs: submit and cancel a run,
record the result of a node's job, resolve a gate, skip or fail a node, expand a fan-out, create
a deferred job, and the setters of a saga. Each method is a program over single **statements** —
a transaction of the job store or a statement on the workflow tables — so any other client may
run between two statements of one method.

Every statement can fail (`WfWorld.fault`), and a failure ends the method as `?` does in the
source: the methods are written with exceptions (`WfProg`), and `attempt` is where the source
logs an error and goes on.

The routing information of a job is text inside its JSON metadata. The JSON library is not
modelled: a `WorkflowCodec` writes it and reads it back.
-/

namespace Flexiq

/-- The workflow routing inside a job's JSON metadata. -/
structure WorkflowCodec where
  buildMetadataJson : (runId nodeName : String) → String
  /-- `workflow_run_id` and `workflow_node_name`, when the text is JSON that holds both. -/
  route : String → Option (String × String)
  route_build : ∀ runId nodeName, route (buildMetadataJson runId nodeName) = some (runId, nodeName)

/-- Two texts one after the other: the characters of the first are marked. -/
def joinNames (first second : List Char) : List Char :=
  match first with
  | [] => '0' :: second
  | c :: rest => '1' :: c :: joinNames rest second

/-- Take joined texts apart. -/
def splitNames : List Char → Option (List Char × List Char)
  | '0' :: second => some ([], second)
  | '1' :: c :: rest => (splitNames rest).map fun p => (c :: p.1, p.2)
  | _ => none

theorem splitNames_joinNames (first second : List Char) :
    splitNames (joinNames first second) = some (first, second) := by
  induction first with
  | nil => rfl
  | cons c rest ih => simp [joinNames, splitNames, ih]

/-- A codec that writes nothing but the two names. -/
def namesCodec : WorkflowCodec where
  buildMetadataJson runId nodeName := String.ofList (joinNames runId.toList nodeName.toList)
  route text := (splitNames text.toList).map fun p => (String.ofList p.1, String.ofList p.2)
  route_build runId nodeName := by simp [splitNames_joinNames]

/-! ## Statements -/

/-- One statement on the job store or the workflow tables. -/
inductive WfStmt where
  | job (op : StoreOp)
  /-- Insert a new job, under an id and a time drawn there. -/
  | enqueue (newJob : NewJob)
  | getDefinition (name : String) (version : Int)
  | createDefinition (definition : WorkflowDefinition)
  | createRun (namespace_ : Option String) (run : WorkflowRun)
  | getRun (namespace_ : Option String) (runId : String)
  | updateRunState (namespace_ : Option String) (runId : String) (state : WorkflowState)
      (error : Option String)
  | setRunCompleted (namespace_ : Option String) (runId : String) (completedAt : Int)
  | childRuns (namespace_ : Option String) (parentRunId : String)
  | createNode (namespace_ : Option String) (node : WorkflowNode)
  | createNodesBatch (namespace_ : Option String) (nodes : List WorkflowNode)
  | getNode (namespace_ : Option String) (runId nodeName : String)
  | getNodes (namespace_ : Option String) (runId : String)
  | nodesByPrefix (namespace_ : Option String) (runId start : String)
  | setNode (namespace_ : Option String) (runId nodeName : String) (write : NodeWrite)
  | finalizeFanOutParent (namespace_ : Option String) (runId nodeName : String)
      (succeeded : Bool) (error : Option String) (completedAt : Int)

/-- What a statement answers when it does not fail. -/
@[reducible] def WfStmt.Ans : WfStmt → Type
  | job op => op.Res
  | enqueue _ => Except QueueError Job
  | getDefinition _ _ => Option String
  | createDefinition _ | createRun _ _ | updateRunState _ _ _ _ | setRunCompleted _ _ _
  | createNode _ _ | createNodesBatch _ _ | setNode _ _ _ _ => Unit
  | getRun _ _ => Option WorkflowRun
  | childRuns _ _ => List WorkflowRun
  | getNode _ _ _ => Option WorkflowNode
  | getNodes _ _ | nodesByPrefix _ _ _ => List WorkflowNode
  | finalizeFanOutParent _ _ _ _ _ _ => Bool

/-- The job store, the workflow tables, and every job id that was ever handed out. -/
structure WfState where
  db : Db
  wf : WorkflowDb
  issued : List JobId

/-- Nothing stored. -/
def WfState.init : WfState := ⟨.empty, .empty, []⟩

/-- What the world decides at one step: the clock, a fresh id, and whether storage fails. -/
structure WfWorld where
  now : Int
  id : String
  fault : Option QueueError

/-- A statement that changes the workflow tables or fails. -/
def WfState.write (s : WfState) : Except QueueError WorkflowDb → Except QueueError Unit × WfState
  | .ok wf => (.ok (), { s with wf })
  | .error e => (.error e, s)

def WfState.transact (s : WfState) (op : StoreOp) : op.Res × WfState :=
  ((op.exec s.db).1, { s with db := (op.exec s.db).2, issued := op.newIds ++ s.issued })

def insertDefinition (definition : WorkflowDefinition) (w : WorkflowDb) :
    Except QueueError WorkflowDb :=
  match w.definitions.insert definition with
  | some definitions => .ok { w with definitions }
  | none => .error (.storage .uniqueViolation)

/-- One statement that does not fail outright. -/
def WfStmt.run : (stmt : WfStmt) → WfWorld → WfState → Except QueueError stmt.Ans × WfState
  | job op, _, s => (.ok (s.transact op).1, (s.transact op).2)
  | enqueue newJob, world, s =>
    (.ok (s.transact (.enqueue ⟨newJob, world.id, world.now⟩)).1,
      (s.transact (.enqueue ⟨newJob, world.id, world.now⟩)).2)
  | getDefinition name version, _, s =>
    (.ok ((s.wf.definitions.select fun d => d.name = name ∧ d.version = version).head?.map
      WorkflowDefinition.id), s)
  | createDefinition definition, _, s => s.write (insertDefinition definition s.wf)
  | createRun ns run, _, s => s.write (s.wf.createRun ns run)
  | getRun ns runId, _, s => (.ok (s.wf.getRun ns runId), s)
  | updateRunState ns runId state error, _, s =>
    (.ok (), { s with wf := s.wf.updateRunState ns runId state error })
  | setRunCompleted ns runId completedAt, _, s =>
    (.ok (), { s with wf := s.wf.setRunCompleted ns runId completedAt })
  | childRuns ns parentRunId, _, s => (.ok (s.wf.childRuns ns parentRunId), s)
  | createNode ns node, _, s => s.write (s.wf.createNode ns node)
  | createNodesBatch ns nodes, _, s => s.write (s.wf.createNodesBatch ns nodes)
  | getNode ns runId nodeName, _, s => (.ok (s.wf.getNode ns runId nodeName), s)
  | getNodes ns runId, _, s => (.ok (s.wf.getNodes ns runId), s)
  | nodesByPrefix ns runId start, _, s => (.ok (s.wf.nodesByPrefix ns runId start), s)
  | setNode ns runId nodeName write, _, s => s.write (s.wf.setNode ns runId nodeName write)
  | finalizeFanOutParent ns runId nodeName succeeded error completedAt, _, s =>
    let r := s.wf.finalizeFanOutParent ns runId nodeName succeeded error completedAt
    (.ok r.1, { s with wf := r.2 })

/-- The atomic operations of the methods. -/
inductive WfOp where
  | nowMillis
  | newId
  | stmt (s : WfStmt)

/-- What an operation answers. -/
@[reducible] def WfOp.Res : WfOp → Type
  | nowMillis => Int
  | newId => String
  | stmt s => Except QueueError s.Ans

/-- One operation; a failed statement leaves everything as it was. -/
def WfOp.exec : (op : WfOp) → WfWorld → WfState → op.Res × WfState
  | nowMillis, world, s => (world.now, s)
  | newId, world, s => (world.id, s)
  | stmt st, world, s =>
    match world.fault with
    | some e => (.error e, s)
    | none => st.run world s

abbrev wfSig : Signature := ⟨WfOp, WfOp.Res⟩

abbrev wfMachine : Machine wfSig := ⟨WfState, WfWorld, WfOp.exec⟩

/-- A program that may end in an error. -/
abbrev WfProg (α : Type) := ExceptT QueueError (Prog wfSig) α

namespace WfProg

/-- The clock. -/
def nowMillis : WfProg Int := ExceptT.lift (Prog.perform (S := wfSig) .nowMillis)

def newId : WfProg String := ExceptT.lift (Prog.perform (S := wfSig) .newId)

/-- One statement. -/
def query (s : WfStmt) : WfProg s.Ans := ExceptT.mk (Prog.perform (S := wfSig) (.stmt s))

def ofResult {α : Type} (r : Except QueueError α) : WfProg α := ExceptT.mk (pure r)

/-- Log an error and go on. -/
def attempt {α : Type} (p : WfProg α) : WfProg Unit :=
  ExceptT.mk (p.run >>= fun _ => pure (.ok ()))

/-- Go on with a default value after an error. -/
def orElse {α : Type} (p : WfProg α) (default : α) : WfProg α :=
  ExceptT.mk (p.run >>= fun r => pure (.ok (r.toOption.getD default)))

/-- An operation of the job store. -/
def ofStore {α : Type} (p : StoreProg α) : WfProg α :=
  ExceptT.mk (p.guarded (T := wfSig) (fun op => .stmt (.job op)) (fun _ r => r.toOption) >>=
    fun r => pure (r.elim (.error (.other "storage failure")) .ok))

end WfProg

open WfProg

/-! ## Submissions -/

/-- What the methods read of a step's metadata. -/
structure StepMetadata where
  taskName : String
  queue : Option String
  maxRetries : Option Int
  timeoutMs : Option Int
  priority : Option Int
  deriving DecidableEq

/-- A node of the graph with its direct predecessors. -/
structure TopologicalNode where
  name : String
  predecessors : List String
  deriving DecidableEq

/-- The arguments of a submission. `ordered` is what the graph library makes of the graph: its
nodes in topological order, or an error; `stepMetadata` is the parsed metadata. -/
structure Submission where
  name : String
  version : Int
  ordered : Except QueueError (List TopologicalNode)
  stepMetadata : Except QueueError (List (String × StepMetadata))
  nodePayloads : List (String × Bytes)
  queueDefault : String
  paramsJson : Option String
  deferredNodeNames : List String
  parentRunId : Option String
  parentNodeName : Option String
  /-- The nodes whose results an earlier run already has, with the hash of each. -/
  cacheHitNodes : List (String × String)

/-- The settings of a queue that its workflow methods read. -/
structure PyQueue where
  namespace_ : Option String
  defaultTimeout : Int
  defaultPriority : Int
  defaultRetry : Int
  resultTtlMs : Option Int
  /-- Bounds the loops that the source leaves unbounded. -/
  fuel : Nat
  deriving DecidableEq

/-- What a submission hands back. -/
structure WorkflowHandle where
  runId : String
  name : String
  definitionId : String
  deriving DecidableEq

namespace PyQueue

variable (q : PyQueue) (codec : WorkflowCodec)

/-- The definition of a submission: the stored one, or a new one. -/
def submittedDefinition (sub : Submission) : WfProg String := do
  match ← query (.getDefinition sub.name sub.version) with
  | some id => return id
  | none => do
    let id ← newId
    query (.createDefinition ⟨id, sub.name, sub.version⟩)
    return id

/-- The jobs a step waits for: those of its predecessors that have one from the start. -/
def stepDependencies (sub : Submission) (jobIds : List (String × JobId)) (name : String) :
    List String → Except QueueError (List JobId)
  | [] => .ok []
  | p :: rest =>
    if sub.deferredNodeNames.contains p then stepDependencies sub jobIds name rest
    else
      match jobIds.lookup p with
      | none =>
        .error (.other ("predecessor '" ++ p ++ "' of step '" ++ name ++ "' has no job id"))
      | some id => do
        let ids ← stepDependencies sub jobIds name rest
        return id :: ids

def stepJob (sub : Submission) (runId name : String) (step : StepMetadata) (payload : Bytes)
    (dependsOn : List JobId) (now : Int) : NewJob where
  queue := step.queue.getD sub.queueDefault
  taskName := step.taskName
  payload := payload
  priority := step.priority.getD q.defaultPriority
  scheduledAt := now
  maxRetries := step.maxRetries.getD q.defaultRetry
  timeoutMs := step.timeoutMs.getD (q.defaultTimeout * 1000)
  uniqueKey := none
  metadata := some (codec.buildMetadataJson runId name)
  notes := none
  dependsOn := dependsOn
  expiresAt := none
  resultTtlMs := q.resultTtlMs
  namespace_ := q.namespace_
  debounceKey := none

/-- Enqueue a job; a rejected dependency has its own error. -/
def enqueue (newJob : NewJob) : WfProg Job := do
  let r ← query (.enqueue newJob)
  ofResult (r.mapError dependencyError)

/-- Create one node of a submission: without a job when its result is cached or the tracker is
to create the job later, with a job that waits for its predecessors otherwise. -/
def submitNode (sub : Submission) (steps : List (String × StepMetadata)) (runId : String)
    (now : Int) (jobIds : List (String × JobId)) (topo : TopologicalNode) :
    WfProg (List (String × JobId)) := do
  match sub.cacheHitNodes.lookup topo.name with
  | some resultHash =>
    query (.createNode q.namespace_ { WorkflowNode.fresh runId topo.name none .cacheHit with
      resultHash := some resultHash
      completedAt := some now })
    return jobIds
  | none =>
    if sub.deferredNodeNames.contains topo.name then do
      query (.createNode q.namespace_ (.fresh runId topo.name none .pending))
      return jobIds
    else
      match steps.lookup topo.name, sub.nodePayloads.lookup topo.name with
      | none, _ => throw (.other ("step '" ++ topo.name ++ "' missing from step_metadata"))
      | some _, none => throw (.other ("step '" ++ topo.name ++ "' missing from node_payloads"))
      | some step, some payload => do
        let dependsOn ← ofResult (stepDependencies sub jobIds topo.name topo.predecessors)
        let job ← enqueue (q.stepJob codec sub runId topo.name step payload dependsOn now)
        query (.createNode q.namespace_ (.fresh runId topo.name (some job.id) .pending))
        return (topo.name, job.id) :: jobIds

/-- Create the nodes of a submission, in topological order. -/
def submitNodes (sub : Submission) (steps : List (String × StepMetadata)) (runId : String)
    (now : Int) : List (String × JobId) → List TopologicalNode → WfProg Unit
  | _, [] => return ()
  | jobIds, topo :: rest => do
    let jobIds ← q.submitNode codec sub steps runId now jobIds topo
    submitNodes sub steps runId now jobIds rest

def submitWorkflow (sub : Submission) : WfProg WorkflowHandle := do
  let steps ← ofResult sub.stepMetadata
  let ordered ← ofResult sub.ordered
  let definitionId ← submittedDefinition sub
  let runId ← newId
  let now ← nowMillis
  query (.createRun q.namespace_
    { id := runId, definitionId := definitionId, params := sub.paramsJson, state := .pending,
      startedAt := some now, completedAt := none, error := none,
      parentRunId := sub.parentRunId, parentNodeName := sub.parentNodeName, createdAt := now,
      namespace_ := q.namespace_ })
  q.submitNodes codec sub steps runId now [] ordered
  query (.updateRunState q.namespace_ runId .running none)
  return ⟨runId, sub.name, definitionId⟩

/-! ## Skipping and cancelling -/

def cancelJob (jobId : JobId) : WfProg Unit := do
  let now ← nowMillis
  let r ← ofStore (Ops.cancelJob jobId q.namespace_ now q.fuel)
  let _ ← ofResult r
  return ()

/-- Cancel a node's job, if it has one, and go on whatever comes of it. -/
def cancelNodeJob (node : WorkflowNode) : WfProg Unit :=
  match node.jobId with
  | some jobId => WfProg.attempt (q.cancelJob jobId)
  | none => return ()

/-- Mark every node of the list that was pending or ready as skipped and cancel its job. -/
def cascadeSkipPendingNodes (runId : String) : List WorkflowNode → WfProg Unit
  | [] => return ()
  | node :: rest =>
    if node.status = .pending ∨ node.status = .ready then do
      q.cancelNodeJob node
      WfProg.attempt (query (.setNode q.namespace_ runId node.nodeName (.status .skipped)))
      cascadeSkipPendingNodes runId rest
    else cascadeSkipPendingNodes runId rest

/-- The runs to cancel next: the children of a run that have not ended and were not visited, on
top of the stack. -/
def pushChildren (visited stack : List String) (children : List WorkflowRun) : List String :=
  ((children.filter fun r => !r.state.isTerminal && !visited.contains r.id).map
    WorkflowRun.id).reverse ++ stack

/-- Cancel the runs on the stack and their descendants. -/
def cancelRuns (now : Int) : Nat → List String → List String → WfProg Unit
  | 0, _, _ => return ()
  | _ + 1, _, [] => return ()
  | fuel + 1, visited, runId :: stack =>
    if visited.contains runId then cancelRuns now fuel visited stack
    else do
      let nodes ← query (.getNodes q.namespace_ runId)
      q.cascadeSkipPendingNodes runId nodes
      query (.updateRunState q.namespace_ runId .cancelled none)
      query (.setRunCompleted q.namespace_ runId now)
      let children ← orElse (query (.childRuns q.namespace_ runId)) []
      cancelRuns now fuel (runId :: visited) (pushChildren (runId :: visited) stack children)

/-- Cancel a run and all of its descendants. Nodes already running are left alone. -/
def cancelWorkflowRun (runId : String) : WfProg Unit := do
  let now ← nowMillis
  q.cancelRuns now q.fuel [] [runId]

/-! ## Ending a run -/

/-- Write the end of a run whose nodes have all ended. -/
def endRun (runId : String) (state : WorkflowState) (error : Option String) (now : Int) :
    WfProg Unit := do
  query (.updateRunState q.namespace_ runId state error)
  query (.setRunCompleted q.namespace_ runId now)

def anyFailed (nodes : List WorkflowNode) : Bool := nodes.any fun n => n.status = .failed

def allTerminal (nodes : List WorkflowNode) : Bool := nodes.all fun n => n.status.isTerminal

/-- Override a run that ended as failed. -/
def setWorkflowRunCompletedWithFailures (runId : String) : WfProg Unit :=
  query (.updateRunState q.namespace_ runId .completedWithFailures none)

/-- End the run if all its nodes have ended; the answer is the state it ended in. -/
def finalizeRunIfTerminal (runId : String) : WfProg (Option WorkflowState) := do
  let nodes ← query (.getNodes q.namespace_ runId)
  if !allTerminal nodes then return none
  else
    let now ← nowMillis
    if anyFailed nodes then do
      q.endRun runId .failed (some "fan-out child failed") now
      return some .failed
    else do
      q.endRun runId .completed none now
      return some .completed

/-! ## Nodes -/

/-- Write how a node's job ended. -/
def recordResult (runId nodeName : String) (succeeded : Bool) (error resultHash : Option String)
    (now : Int) : WfProg Unit :=
  if succeeded then query (.setNode q.namespace_ runId nodeName (.completed now resultHash))
  else query (.setNode q.namespace_ runId nodeName (.error (error.getD "failed")))

/-- Fail fast: skip what has not started, unless the tracker decides that. -/
def failFast (runId : String) (succeeded skipCascade : Bool) : WfProg Unit :=
  if succeeded || skipCascade then return ()
  else do
    let nodes ← query (.getNodes q.namespace_ runId)
    q.cascadeSkipPendingNodes runId nodes

/-- Record the outcome of a node's job, and end the run if that was the last node. The answer
names the node, with the state the run ended in; there is none for a job of no workflow. -/
def markWorkflowNodeResult (jobId : JobId) (succeeded : Bool) (error : Option String)
    (skipCascade : Bool) (resultHash : Option String) :
    WfProg (Option (String × String × Option WorkflowState)) := do
  match ← query (.job (.getJob jobId q.namespace_)) with
  | none => throw (.other ("job '" ++ jobId ++ "' not found"))
  | some job =>
    match job.metadata.bind codec.route with
    | none => return none
    | some (runId, nodeName) => do
      let now ← nowMillis
      q.recordResult runId nodeName succeeded error resultHash now
      q.failFast runId succeeded skipCascade
      let nodes ← query (.getNodes q.namespace_ runId)
      if !allTerminal nodes then return some (runId, nodeName, none)
      else if anyFailed nodes || !succeeded then do
        q.endRun runId .failed error now
        return some (runId, nodeName, some .failed)
      else do
        q.endRun runId .completed none now
        return some (runId, nodeName, some .completed)

/-- Let a gate wait for approval. -/
def setWorkflowNodeWaitingApproval (runId nodeName : String) : WfProg Unit :=
  query (.setNode q.namespace_ runId nodeName (.status .waitingApproval))

/-- Promote the node of a sub-workflow that was submitted. -/
def setWorkflowNodeRunning (runId nodeName : String) : WfProg Unit := do
  let now ← nowMillis
  query (.setNode q.namespace_ runId nodeName (.running now))

def setWorkflowNodeFanOutCount (runId nodeName : String) (count : Int) : WfProg Unit :=
  query (.setNode q.namespace_ runId nodeName (.fanOutCount count))

def failWorkflowNode (runId nodeName error : String) : WfProg Unit :=
  query (.setNode q.namespace_ runId nodeName (.error error))

def skipWorkflowNode (runId nodeName : String) : WfProg Unit := do
  match ← query (.getNode q.namespace_ runId nodeName) with
  | none => return ()
  | some node => do
    q.cancelNodeJob node
    query (.setNode q.namespace_ runId nodeName (.status .skipped))

def resolveWorkflowGate (runId nodeName : String) (approved : Bool) (error : Option String) :
    WfProg Unit := do
  let now ← nowMillis
  if approved then query (.setNode q.namespace_ runId nodeName (.completed now none))
  else query (.setNode q.namespace_ runId nodeName (.error (error.getD "rejected")))

/-! ## Fan-out and deferred jobs -/

/-- Children a fan-out may expand into. -/
def maxFanOut : Nat := 10000

/-- The run must be one the queue can see. -/
def requireVisibleRun (runId : String) : WfProg Unit := do
  match ← query (.getRun q.namespace_ runId) with
  | none => throw (runNotFound runId)
  | some _ => return ()

/-- How the job of a node that is created at run time is enqueued. -/
structure JobSpec where
  taskName : String
  queue : String
  maxRetries : Int
  timeoutMs : Int
  priority : Int
  deriving DecidableEq

def nodeJob (runId nodeName : String) (payload : Bytes) (spec : JobSpec) (now : Int) :
    NewJob where
  queue := spec.queue
  taskName := spec.taskName
  payload := payload
  priority := spec.priority
  scheduledAt := now
  maxRetries := spec.maxRetries
  timeoutMs := spec.timeoutMs
  uniqueKey := none
  metadata := some (codec.buildMetadataJson runId nodeName)
  notes := none
  dependsOn := []
  expiresAt := none
  resultTtlMs := q.resultTtlMs
  namespace_ := q.namespace_
  debounceKey := none

def enqueueChildren (runId : String) (spec : JobSpec) (now : Int) :
    List (String × Bytes) → WfProg (List (String × JobId))
  | [] => return []
  | (name, payload) :: rest => do
    let job ← enqueue (q.nodeJob codec runId name payload spec now)
    let ids ← enqueueChildren runId spec now rest
    return (name, job.id) :: ids

/-- Expand a fan-out node: enqueue a job for each child, then insert the children's nodes, then
set the count of the parent and let it run. Without children the parent completes at once. -/
def expandFanOut (runId parentNodeName : String) (children : List (String × Bytes))
    (spec : JobSpec) : WfProg (List JobId) :=
  if maxFanOut < children.length then
    throw (.other ("fan-out of " ++ toString children.length ++
      " children exceeds the limit of " ++ toString maxFanOut))
  else do
    q.requireVisibleRun runId
    let now ← nowMillis
    if children.isEmpty then do
      q.setWorkflowNodeFanOutCount runId parentNodeName 0
      query (.setNode q.namespace_ runId parentNodeName (.completed now none))
      return []
    else do
      let ids ← q.enqueueChildren codec runId spec now children
      query (.createNodesBatch q.namespace_
        (ids.map fun e => WorkflowNode.fresh runId e.1 (some e.2) .pending))
      q.setWorkflowNodeFanOutCount runId parentNodeName children.length
      return ids.map Prod.snd

def createDeferredJob (runId nodeName : String) (payload : Bytes) (spec : JobSpec) :
    WfProg JobId := do
  q.requireVisibleRun runId
  let now ← nowMillis
  let job ← enqueue (q.nodeJob codec runId nodeName payload spec now)
  query (.setNode q.namespace_ runId nodeName (.job job.id))
  return job.id

/-- When all children of a fan-out have ended, finalize the parent. The answer, for the one
caller that finalizes it, is whether all succeeded, and the children's jobs. -/
def checkFanOutCompletion (runId parentNodeName : String) :
    WfProg (Option (Bool × List JobId)) := do
  let children ← query (.nodesByPrefix q.namespace_ runId (parentNodeName ++ "["))
  if children.isEmpty || !allTerminal children then return none
  else
    let failed := anyFailed children
    let now ← nowMillis
    let transitioned ← query (.finalizeFanOutParent q.namespace_ runId parentNodeName (!failed)
      (if failed then some "fan-out child failed" else none) now)
    return if transitioned then some (!failed, children.filterMap WorkflowNode.jobId) else none

/-! ## Sagas -/

def setWorkflowRunCompensating (runId : String) : WfProg Unit :=
  query (.updateRunState q.namespace_ runId .compensating none)

def setWorkflowRunCompensated (runId : String) (completedAt : Int) : WfProg Unit :=
  q.endRun runId .compensated none completedAt

def setWorkflowRunCompensationFailed (runId : String) (completedAt : Int)
    (error : Option String) : WfProg Unit :=
  q.endRun runId .compensationFailed error completedAt

def setWorkflowNodeCompensationJob (runId nodeName : String) (jobId : JobId) (startedAt : Int) :
    WfProg Unit :=
  query (.setNode q.namespace_ runId nodeName (.compensationJob jobId startedAt))

def setWorkflowNodeCompensated (runId nodeName : String) (completedAt : Int) : WfProg Unit :=
  query (.setNode q.namespace_ runId nodeName (.compensated completedAt))

def setWorkflowNodeCompensationFailed (runId nodeName error : String) (completedAt : Int) :
    WfProg Unit :=
  query (.setNode q.namespace_ runId nodeName (.compensationFailed error completedAt))

end PyQueue

/-! ## Clients -/

/-- A workflow method with its arguments, or any operation of the job store. -/
inductive WfMethod where
  | submitWorkflow (sub : Submission)
  | markWorkflowNodeResult (jobId : JobId) (succeeded : Bool) (error : Option String)
      (skipCascade : Bool) (resultHash : Option String)
  | finalizeRunIfTerminal (runId : String)
  | cancelWorkflowRun (runId : String)
  | setWorkflowRunCompletedWithFailures (runId : String)
  | resolveWorkflowGate (runId nodeName : String) (approved : Bool) (error : Option String)
  | setWorkflowNodeWaitingApproval (runId nodeName : String)
  | setWorkflowNodeRunning (runId nodeName : String)
  | setWorkflowNodeFanOutCount (runId nodeName : String) (count : Int)
  | failWorkflowNode (runId nodeName error : String)
  | skipWorkflowNode (runId nodeName : String)
  | expandFanOut (runId parentNodeName : String) (children : List (String × Bytes))
      (spec : PyQueue.JobSpec)
  | createDeferredJob (runId nodeName : String) (payload : Bytes) (spec : PyQueue.JobSpec)
  | checkFanOutCompletion (runId parentNodeName : String)
  | setWorkflowRunCompensating (runId : String)
  | setWorkflowRunCompensated (runId : String) (completedAt : Int)
  | setWorkflowRunCompensationFailed (runId : String) (completedAt : Int) (error : Option String)
  | setWorkflowNodeCompensationJob (runId nodeName : String) (jobId : JobId) (startedAt : Int)
  | setWorkflowNodeCompensated (runId nodeName : String) (completedAt : Int)
  | setWorkflowNodeCompensationFailed (runId nodeName error : String) (completedAt : Int)
  | store (call : StoreCall)

/-- A call of a method on a queue. -/
structure WfCall where
  queue : PyQueue
  method : WfMethod

/-- A program run for its effects. -/
def WfProg.discard {α : Type} (p : WfProg α) : Prog wfSig Unit := do
  let _ ← p.run
  return ()

def WfCall.prog (dlq : MetadataCodec) (codec : WorkflowCodec) (c : WfCall) : Prog wfSig Unit :=
  match c.method with
  | .submitWorkflow sub => (c.queue.submitWorkflow codec sub).discard
  | .markWorkflowNodeResult j ok e skip h =>
    (c.queue.markWorkflowNodeResult codec j ok e skip h).discard
  | .finalizeRunIfTerminal r => (c.queue.finalizeRunIfTerminal r).discard
  | .cancelWorkflowRun r => (c.queue.cancelWorkflowRun r).discard
  | .setWorkflowRunCompletedWithFailures r =>
    (c.queue.setWorkflowRunCompletedWithFailures r).discard
  | .resolveWorkflowGate r n ok e => (c.queue.resolveWorkflowGate r n ok e).discard
  | .setWorkflowNodeWaitingApproval r n => (c.queue.setWorkflowNodeWaitingApproval r n).discard
  | .setWorkflowNodeRunning r n => (c.queue.setWorkflowNodeRunning r n).discard
  | .setWorkflowNodeFanOutCount r n k => (c.queue.setWorkflowNodeFanOutCount r n k).discard
  | .failWorkflowNode r n e => (c.queue.failWorkflowNode r n e).discard
  | .skipWorkflowNode r n => (c.queue.skipWorkflowNode r n).discard
  | .expandFanOut r n children spec => (c.queue.expandFanOut codec r n children spec).discard
  | .createDeferredJob r n payload spec =>
      (c.queue.createDeferredJob codec r n payload spec).discard
  | .checkFanOutCompletion r n => (c.queue.checkFanOutCompletion r n).discard
  | .setWorkflowRunCompensating r => (c.queue.setWorkflowRunCompensating r).discard
  | .setWorkflowRunCompensated r at_ => (c.queue.setWorkflowRunCompensated r at_).discard
  | .setWorkflowRunCompensationFailed r at_ e =>
    (c.queue.setWorkflowRunCompensationFailed r at_ e).discard
  | .setWorkflowNodeCompensationJob r n j at_ =>
    (c.queue.setWorkflowNodeCompensationJob r n j at_).discard
  | .setWorkflowNodeCompensated r n at_ => (c.queue.setWorkflowNodeCompensated r n at_).discard
  | .setWorkflowNodeCompensationFailed r n e at_ =>
    (c.queue.setWorkflowNodeCompensationFailed r n e at_).discard
  | .store call => (WfProg.ofStore (call.prog dlq)).discard

/-- The clients of the workflow methods and of the job store. -/
abbrev wfClients (dlq : MetadataCodec) (codec : WorkflowCodec) : Clients wfSig :=
  ⟨WfCall, WfCall.prog dlq codec⟩

end Flexiq
