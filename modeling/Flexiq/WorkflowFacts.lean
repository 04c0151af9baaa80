import Flexiq.WorkflowOps
import Flexiq.Rows

/-!
# What a statement changes

A statement changes the runs, the nodes or the job store, never two of them, and in one of few
ways (`runs_exec`, `nodes_exec`, `db_exec`). Everything later modules need to know about a step
of a workflow method is read off here: which statement can change a run's state or a node's row,
and that a job keeps the metadata it was enqueued with (`Db.Tells.exec`).
-/

namespace Flexiq

open Table (find updated)

open Option Table WorkflowDb

variable {db : Db} {k : JobId} {m : Option String} {job : Job} {nodes : List WorkflowNode}

/-! ## The metadata of a job -/

/-- Whatever row the job has, live or archived, its metadata is `m`. -/
def Db.Tells (db : Db) (k : JobId) (m : Option String) : Prop :=
  ∀ row, db.jobs.find k = some row ∨ db.archivedJobs.find k = some row → row.metadata = m

variable {op : StoreOp} {ns : Option String}

/-- **A job's metadata never changes**, as long as its id is not given to another job. -/
theorem Db.Tells.exec (h : db.Tells k m) (hk : k ∉ op.newIds) : (op.exec db).2.Tells k m := by
  refine (exec_effects op db).invariant (P := fun mid => mid.Tells k m) ?_ h
  intro _ _ _ he hstep hmid
  rintro row (hlive | harch)
  · obtain hsame | ⟨_, rfl, entry, hmem, -, rfl⟩ | ⟨job, -, hjob, ⟨_, -, -, rfl⟩ | rfl⟩ :=
      row_of_effect hstep hlive
    · exact hmid row (.inl hsame)
    · exact absurd (he.insert_newIds entry hmem) hk
    · exact hmid job (.inl hjob)
    · rw [he.keepsMetadata]
      exact hmid job (.inl hjob)
  · obtain hsame | ⟨job, final, rfl, rfl, rfl⟩ := archived_cases hstep harch
    · exact hmid row (.inr hsame)
    · show final.metadata = m
      rw [he.keepsMetadata]
      exact hmid job (.inl (by rw [hstep.2.1]; exact hstep.1))

/-- A job that a transaction leaves behind was there before, or is one it drew an id for. -/
theorem Db.Has.of_exec (h : (op.exec db).2.Has k) (hk : k ∉ op.newIds) : db.Has k := by
  by_contra hnot
  -- nothing is stored of the job, so any metadata at all is what its rows tell
  have htells : ∀ m, db.Tells k m := by
    rintro _ row (hlive | harch)
    · exact absurd (.inl (isSome_of_eq_some hlive)) hnot
    · exact absurd (.inr (isSome_of_eq_some harch)) hnot
  have habsurd : ∀ row, (op.exec db).2.jobs.find k = some row ∨
      (op.exec db).2.archivedJobs.find k = some row → False := by
    intro row hrow
    have hnone := (htells none).exec hk row hrow
    have hsome := (htells (some "")).exec hk row hrow
    rw [hnone] at hsome
    cases hsome
  obtain hlive | harch := h
  · obtain ⟨row, hrow⟩ := isSome_iff_exists.1 hlive
    exact habsurd row (.inl hrow)
  · obtain ⟨row, hrow⟩ := isSome_iff_exists.1 harch
    exact habsurd row (.inr hrow)

/-- What a lookup answers is stored. -/
theorem Db.Has.of_getJob (h : Flexiq.getJob k ns db = some job) : db.Has k := by
  unfold Flexiq.getJob at h
  split at h
  · next _ hrow => exact .inl (isSome_of_eq_some hrow)
  · exact .inr (isSome_of_eq_some (filter_eq_some_iff.1 h).1)

/-- A lookup tells the metadata of the job. -/
theorem Partition.tells (hp : Partition db) (h : Flexiq.getJob k ns db = some job) :
    db.Tells k job.metadata := by
  unfold Flexiq.getJob at h
  rintro _ (hlive | harch)
  · rw [hlive] at h
    dsimp only at h
    split at h
    · cases h
      rfl
    · cases h
  · split at h
    · next _ hrow' =>
      rw [hp.disjoint hrow'] at harch
      cases harch
    · have h := (filter_eq_some_iff.1 h).1
      rw [harch] at h
      cases h
      rfl

/-- What a lookup of the job answers. -/
theorem Db.Tells.getJob (h : db.Tells k m) (hjob : Flexiq.getJob k ns db = some job) :
    job.metadata = m := by
  unfold Flexiq.getJob at hjob
  split at hjob
  · next _ hrow =>
    split at hjob
    · cases hjob
      exact h _ (.inl hrow)
    · cases hjob
  · exact h _ (.inr (filter_eq_some_iff.1 hjob).1)

/-! ## Statements on the tables -/

namespace WorkflowDb

variable {w w' : WorkflowDb} {ns : Option String} {r n : String}

theorem createRun_ok {run : WorkflowRun} (h : w.createRun ns run = .ok w') :
    w.runs.insert { run with namespace_ := ns } = some w'.runs ∧ w'.nodes = w.nodes := by
  unfold createRun at h
  split at h
  · cases h
  · split at h
    · next _ hruns =>
      cases h
      exact ⟨hruns, rfl⟩
    · cases h

theorem insertNode_ok {node : WorkflowNode} (h : w.insertNode node = .ok w') :
    w'.nodes.rows = w.nodes.rows ++ [node] ∧ w'.runs = w.runs := by
  unfold insertNode at h
  split at h
  · next _ hnodes =>
    cases h
    exact ⟨ofRows_eq_some hnodes, rfl⟩
  · cases h

theorem insertNodes_ok (h : w.insertNodes nodes = .ok w') :
    w'.nodes.rows = w.nodes.rows ++ nodes ∧ w'.runs = w.runs := by
  induction nodes generalizing w with
  | nil =>
    cases h
    exact ⟨(List.append_nil _).symm, rfl⟩
  | cons node rest ih =>
    obtain ⟨_, hmid, hrest⟩ := bind_eq_ok.1 h
    obtain ⟨hrow, hruns⟩ := insertNode_ok hmid
    obtain ⟨hrows, hruns'⟩ := ih hrest
    rw [hrows, hrow, List.append_assoc]
    exact ⟨rfl, hruns'.trans hruns⟩

theorem createNodesBatch_ok (h : w.createNodesBatch ns nodes = .ok w') :
    w'.nodes.rows = w.nodes.rows ++ nodes ∧ w'.runs = w.runs := by
  unfold createNodesBatch at h
  split at h
  · cases h
  · exact insertNodes_ok h

/-- A row that is there when rows are appended stays what it is. -/
theorem find_of_append {t t' : Table workflowNodesSchema} (h : t'.rows = t.rows ++ nodes)
    (k : String × String) :
    t'.find k = (t.find k).or (nodes.find? fun x => workflowNodesSchema.key x = k) := by
  unfold find
  rw [h, List.find?_append]

theorem find_writeNode (write : NodeWrite) (k : String × String) :
    (w.writeNode r n write).nodes.find k =
      if k = (r, n) then (w.nodes.find k).map write.apply else w.nodes.find k := by
  unfold writeNode
  simp only [find_update]
  rcases hf : w.nodes.find k with _ | x
  · simp
  · have hx : (x.runId, x.nodeName) = k := find_key hf
    subst hx
    by_cases hk : (x.runId, x.nodeName) = (r, n)
    · rw [if_pos hk]
      obtain ⟨h₁, h₂⟩ := Prod.mk.inj hk
      simp [updated, isNode, h₁, h₂]
    · rw [if_neg hk]
      have : isNode r n x = false := by
        refine decide_eq_false fun h => hk ?_
        rw [h.1, h.2]
      simp [updated, this]

theorem setNode_ok {write : NodeWrite} (h : w.setNode ns r n write = .ok w') :
    w' = w.writeNode r n write ∧ ∃ x, w.nodes.find (r, n) = some x := by
  unfold setNode at h
  split at h
  · cases h
  · split at h
    · cases h
    · next hcount =>
      cases h
      refine ⟨rfl, ?_⟩
      rw [count_eq_zero] at hcount
      push Not at hcount
      obtain ⟨x, hx, hp⟩ := hcount
      have hp : isNode r n x = true := by simpa using hp
      obtain ⟨rfl, rfl⟩ : x.runId = r ∧ x.nodeName = n := of_decide_eq_true hp
      exact ⟨x, find_of_mem hx⟩

variable (w ns r n) in
theorem find_finalizeFanOutParent (ok : Bool) (e : Option String) (at_ : Int)
    (k : String × String) :
    (w.finalizeFanOutParent ns r n ok e at_).2.nodes.find k = w.nodes.find k ∨
    k = (r, n) ∧ ∃ x, w.nodes.find k = some x ∧ x.status.isFinalized = false ∧
      (w.finalizeFanOutParent ns r n ok e at_).1 = true ∧
      (w.finalizeFanOutParent ns r n ok e at_).2.nodes.find k =
        some (fanOutOutcome ok e at_ x) := by
  unfold finalizeFanOutParent
  split
  · exact .inl rfl
  · simp only [find_update]
    rcases hf : w.nodes.find k with _ | x
    · exact .inl rfl
    · by_cases hx : isOpenNode r n x = true
      · refine .inr ?_
        obtain ⟨hnode, hopen⟩ := Bool.and_eq_true_iff.1 hx
        obtain ⟨rfl, rfl⟩ : x.runId = r ∧ x.nodeName = n := of_decide_eq_true hnode
        refine ⟨(find_key hf).symm, x, rfl, by simpa using hopen, ?_, ?_⟩
        · refine decide_eq_true (Nat.pos_of_ne_zero fun hzero => ?_)
          rw [count_eq_zero] at hzero
          rw [hzero x (mem_of_find hf)] at hx
          cases hx
        · show some (updated _ _ x) = _
          rw [updated, if_pos hx]
      · refine .inl ?_
        show some (updated _ _ x) = _
        rw [updated, if_neg hx]

theorem runs_finalizeFanOutParent (ok : Bool) (e : Option String) (at_ : Int) :
    (w.finalizeFanOutParent ns r n ok e at_).2.runs = w.runs := by
  unfold finalizeFanOutParent
  split <;> rfl

def runState (w : WorkflowDb) (r : String) : Option WorkflowState :=
  (w.runs.find r).map WorkflowRun.state

theorem find_updateRunState (st : WorkflowState) (e : Option String) (k : String) :
    (w.updateRunState ns r st e).runs.find k = (w.runs.find k).map
      (updated (sees ns r) fun x => { x with state := st, error := e }) :=
  find_update w.runs (sees ns r) (fun x => { x with state := st, error := e })
    (preserves_run (fun _ => rfl) _) k

theorem find_setRunCompleted (at_ : Int) (k : String) :
    (w.setRunCompleted ns r at_).runs.find k = (w.runs.find k).map
      (updated (sees ns r) fun x => { x with completedAt := some at_ }) :=
  find_update w.runs (sees ns r) (fun x => { x with completedAt := some at_ })
    (preserves_run (fun _ => rfl) _) k

variable (w ns r) in
theorem runState_updateRunState (st : WorkflowState) (e : Option String) (k : String) :
    (w.updateRunState ns r st e).runState k = w.runState k ∨
      k = r ∧ (w.updateRunState ns r st e).runState k = some st := by
  unfold runState
  rw [find_updateRunState]
  rcases hf : w.runs.find k with _ | x
  · exact .inl rfl
  · have hx : x.id = k := find_key hf
    by_cases hsees : sees ns r x = true
    · refine .inr ⟨?_, ?_⟩
      · rw [← hx]
        exact of_decide_eq_true (Bool.and_eq_true_iff.1 hsees).1
      · simp [updated, hsees]
    · refine .inl ?_
      simp [updated, hsees]

theorem runState_setRunCompleted (at_ : Int) (k : String) :
    (w.setRunCompleted ns r at_).runState k = w.runState k := by
  unfold runState
  rw [find_setRunCompleted, map_map]
  refine congrArg (fun f => Option.map f (w.runs.find k)) (funext fun x => ?_)
  simp only [Function.comp_apply, updated]
  split <;> rfl

end WorkflowDb

/-! ## One step -/

section Exec

variable (op : WfOp) (world : WfWorld) (s : WfState)

/-- What a step does to the job store: nothing, or one transaction. -/
theorem db_exec :
    ((op.exec world s).2.db = s.db ∧ (op.exec world s).2.issued = s.issued) ∨
    ∃ o, (op = .stmt (.job o) ∨
        ∃ newJob, op = .stmt (.enqueue newJob) ∧ o = .enqueue ⟨newJob, world.id, world.now⟩) ∧
      (op.exec world s).2.db = (o.exec s.db).2 ∧
      (op.exec world s).2.issued = o.newIds ++ s.issued := by
  have hwrite : ∀ r, (s.write r).2.db = s.db ∧ (s.write r).2.issued = s.issued := by
    intro r
    cases r <;> exact ⟨rfl, rfl⟩
  cases op with
  | nowMillis | newId => exact .inl ⟨rfl, rfl⟩
  | stmt st =>
    simp only [WfOp.exec]
    split
    · exact .inl ⟨rfl, rfl⟩
    · cases st with
      | job o => exact .inr ⟨o, .inl rfl, rfl, rfl⟩
      | enqueue newJob => exact .inr ⟨_, .inr ⟨newJob, rfl, rfl⟩, rfl, rfl⟩
      | createDefinition | createRun | createNode | createNodesBatch | setNode =>
          exact .inl (hwrite _)
      | _ => exact .inl ⟨rfl, rfl⟩

/-- What a step does to the runs. -/
theorem runs_exec :
    (op.exec world s).2.wf.runs = s.wf.runs ∨
    (∃ ns r st e, op = .stmt (.updateRunState ns r st e) ∧
      (op.exec world s).2.wf.runs = (s.wf.updateRunState ns r st e).runs) ∨
    (∃ ns r at_, op = .stmt (.setRunCompleted ns r at_) ∧
      (op.exec world s).2.wf.runs = (s.wf.setRunCompleted ns r at_).runs) ∨
    (∃ ns run, op = .stmt (.createRun ns run) ∧
      s.wf.runs.insert { run with namespace_ := ns } = some (op.exec world s).2.wf.runs) := by
  have hwrite : ∀ r, (∀ wf, r = .ok wf → wf.runs = s.wf.runs) →
      (s.write r).2.wf.runs = s.wf.runs := by
    intro r hr
    cases r with
    | ok wf => exact hr wf rfl
    | error => rfl
  cases op with
  | nowMillis | newId => exact .inl rfl
  | stmt st =>
    simp only [WfOp.exec]
    split
    · exact .inl rfl
    · cases st with
      | updateRunState ns r st e => exact .inr (.inl ⟨ns, r, st, e, rfl, rfl⟩)
      | setRunCompleted ns r at_ => exact .inr (.inr (.inl ⟨ns, r, at_, rfl, rfl⟩))
      | createRun ns run =>
        simp only [WfStmt.run]
        rcases hr : s.wf.createRun ns run with e | wf
        · exact .inl rfl
        · exact .inr (.inr (.inr ⟨ns, run, rfl, (createRun_ok hr).1⟩))
      | createDefinition =>
        refine .inl (hwrite _ fun wf hwf => ?_)
        unfold insertDefinition at hwf
        split at hwf
        · cases hwf
          rfl
        · cases hwf
      | createNode | createNodesBatch =>
        exact .inl (hwrite _ fun wf hwf => (createNodesBatch_ok hwf).2)
      | setNode =>
        refine .inl (hwrite _ fun wf hwf => ?_)
        rw [(setNode_ok hwf).1]
        rfl
      | finalizeFanOutParent ns r n ok e at_ => exact .inl (runs_finalizeFanOutParent ok e at_)
      | _ => exact .inl rfl

/-- What a step does to the nodes. -/
theorem nodes_exec :
    (op.exec world s).2.wf.nodes = s.wf.nodes ∨
    (∃ ns r n write x, op = .stmt (.setNode ns r n write) ∧ s.wf.nodes.find (r, n) = some x ∧
      (op.exec world s).2.wf.nodes = (s.wf.writeNode r n write).nodes) ∨
    (∃ ns nodes, (op = .stmt (.createNodesBatch ns nodes) ∨
        ∃ node, op = .stmt (.createNode ns node) ∧ nodes = [node]) ∧
      (op.exec world s).2.wf.nodes.rows = s.wf.nodes.rows ++ nodes) ∨
    (∃ ns r n ok e at_, op = .stmt (.finalizeFanOutParent ns r n ok e at_) ∧
      (op.exec world s).2.wf.nodes = (s.wf.finalizeFanOutParent ns r n ok e at_).2.nodes) := by
  cases op with
  | nowMillis | newId => exact .inl rfl
  | stmt st =>
    simp only [WfOp.exec]
    split
    · exact .inl rfl
    · cases st with
      | setNode ns r n write =>
        simp only [WfStmt.run]
        rcases hr : s.wf.setNode ns r n write with e | wf
        · exact .inl rfl
        · obtain ⟨rfl, x, hx⟩ := setNode_ok hr
          exact .inr (.inl ⟨ns, r, n, write, x, rfl, hx, rfl⟩)
      | createNodesBatch ns nodes =>
        simp only [WfStmt.run]
        rcases hr : s.wf.createNodesBatch ns nodes with e | wf
        · exact .inl rfl
        · exact .inr (.inr (.inl ⟨ns, nodes, .inl rfl,
            (createNodesBatch_ok hr).1⟩))
      | createNode ns node =>
        simp only [WfStmt.run]
        rcases hr : s.wf.createNode ns node with e | wf
        · exact .inl rfl
        · exact .inr (.inr (.inl ⟨ns, [node], .inr ⟨node, rfl, rfl⟩,
            (createNodesBatch_ok hr).1⟩))
      | finalizeFanOutParent ns r n ok e at_ =>
        exact .inr (.inr (.inr ⟨ns, r, n, ok, e, at_, rfl, rfl⟩))
      | createRun ns run =>
        simp only [WfStmt.run]
        rcases hr : s.wf.createRun ns run with _ | _
        · exact .inl rfl
        · exact .inl (createRun_ok hr).2
      | createDefinition =>
        simp only [WfStmt.run, insertDefinition]
        split <;> exact .inl rfl
      | _ => exact .inl rfl

def WfOp.newIds : WfOp → WfWorld → List JobId
  | .stmt (.job o), _ => o.newIds
  | .stmt (.enqueue _), world => [world.id]
  | _, _ => []

/-- The job store is in order, and every job in it was handed an id. -/
structure WfState.Sane (s : WfState) : Prop where
  partition : Partition s.db
  issued : ∀ k, s.db.Has k → k ∈ s.issued

theorem WfState.sane_init : WfState.init.Sane where
  partition := partition_empty
  issued k h := by obtain h | h := h <;> cases h

variable {op world s}

/-- A step under fresh job ids keeps the job store in order. -/
theorem WfState.Sane.exec (h : s.Sane) (hids : ∀ id ∈ op.newIds world, id ∉ s.issued) :
    (op.exec world s).2.Sane := by
  obtain ⟨hdb, hissued⟩ | ⟨o, hop, hdb, hissued⟩ := db_exec op world s
  · refine ⟨?_, fun k hk => ?_⟩
    · rw [hdb]
      exact h.partition
    · rw [hdb] at hk
      rw [hissued]
      exact h.issued k hk
  · have hnew : op.newIds world = o.newIds := by obtain rfl | ⟨_, rfl, rfl⟩ := hop <;> rfl
    rw [hnew] at hids
    refine ⟨?_, fun k hk => ?_⟩
    · rw [hdb]
      refine h.partition.exec fun id hid => ?_
      have hnot : ¬ s.db.Has id := fun hhas => hids id hid (h.issued id hhas)
      simpa [Db.Has] using hnot
    · rw [hdb] at hk
      rw [hissued, List.mem_append]
      by_cases hknew : k ∈ o.newIds
      · exact .inl hknew
      · exact .inr (h.issued k (hk.of_exec hknew))

/-- A step under fresh job ids leaves the metadata of a job that was handed out. -/
theorem Db.Tells.step (h : s.db.Tells k m) (hk : k ∈ s.issued)
    (hids : ∀ id ∈ op.newIds world, id ∉ s.issued) :
    (op.exec world s).2.db.Tells k m ∧ k ∈ (op.exec world s).2.issued := by
  obtain ⟨hdb, hissued⟩ | ⟨o, hop, hdb, hissued⟩ := db_exec op world s
  · rw [hdb, hissued]
    exact ⟨h, hk⟩
  · have hnew : op.newIds world = o.newIds := by obtain rfl | ⟨_, rfl, rfl⟩ := hop <;> rfl
    rw [hnew] at hids
    rw [hdb, hissued]
    exact ⟨h.exec fun hmem => hids k hmem hk, List.mem_append_right _ hk⟩

end Exec

end Flexiq
