import Flexiq.Operations

/-!
# Periodic tasks

Every scheduler looks for due periodic tasks on its own: it lists the tasks whose `next_run` has
come, enqueues a job for each of them under a unique key, and then moves the task's `next_run`
on. Listing, enqueue and schedule update are separate transactions, the update overwrites
whatever is there, and the unique key holds the scheduler's **own clock reading** — not the
`next_run` it fires for — so two schedulers that list one occurrence a millisecond apart enqueue
it twice (`periodic_fires_twice`).

An **occurrence** is a task with the `next_run` it was listed under. Beside the store the machine
keeps, for no program to read, the occurrences for which a job was inserted (`fired`) and those
whose enqueue went through and whose schedule update has not (`owed`). `periodic_fires_once` proves
the law for the runs in which a scheduler only enqueues a task whose `next_run` is still the one it
listed, and not while an earlier enqueue of the same task still owes its update.
-/

namespace Flexiq

open Function

variable {o : Occurrence} {op : StoreOp}

/-! ## The tables -/

structure PeriodicTask where
  /-- Unique schedule name. -/
  name : String
  /-- Task to enqueue on each firing. -/
  taskName : String
  cronExpr : String
  /-- Serialized positional arguments. -/
  args : Option Bytes
  queue : String
  /-- Whether the schedule is active. -/
  enabled : Bool
  lastRun : Option Int
  /-- When the task is due. -/
  nextRun : Int
  timezone : Option String
  deriving DecidableEq

/-- `periodic_tasks`: keyed by name. -/
def periodicSchema : Schema PeriodicTask String Unit where
  key := PeriodicTask.name
  index _ := none

/-- A task, due at the `next_run` it is listed under. -/
structure Occurrence where
  name : String
  nextRun : Int
  deriving DecidableEq

def PeriodicTask.occurrence (task : PeriodicTask) : Occurrence := ⟨task.name, task.nextRun⟩

/-- The cron library: the first time after `after` that matches an expression, in a timezone;
none for an expression it cannot read or that has no next time. -/
structure Cron where
  next : (cronExpr : String) → (timezone : Option String) → (after : Int) → Option Int
  later : ∀ {cronExpr timezone after t}, next cronExpr timezone after = some t → after < t

structure PeriodicState where
  db : Db
  tasks : Table periodicSchema
  /-- The occurrences for which a job was inserted, latest first. -/
  fired : List Occurrence
  /-- The occurrences whose enqueue went through and whose schedule update has not. -/
  owed : List Occurrence

/-- Nothing has fired yet. -/
def PeriodicState.init (db : Db) (tasks : Table periodicSchema) : PeriodicState :=
  ⟨db, tasks, [], []⟩

/-- The tasks that are due at `now`. -/
def getDuePeriodic (now : Int) (tasks : Table periodicSchema) : List PeriodicTask :=
  tasks.select fun t => t.enabled ∧ t.nextRun ≤ now

/-- Move a task's schedule on. -/
def updatePeriodicSchedule (name : String) (lastRun nextRun : Int)
    (tasks : Table periodicSchema) : Table periodicSchema :=
  tasks.update (fun t => t.name = name)
    (fun t => { t with lastRun := some lastRun, nextRun := nextRun }) fun _ _ => ⟨rfl, .inl rfl⟩

theorem find_updatePeriodicSchedule (name : String) (lastRun nextRun : Int)
    (tasks : Table periodicSchema) (k : String) :
    (updatePeriodicSchedule name lastRun nextRun tasks).find k =
      (tasks.find k).map fun t =>
        if t.name = name then { t with lastRun := some lastRun, nextRun := nextRun } else t := by
  refine (tasks.find_update _ _ _ k).trans ?_
  rcases tasks.find k with _ | _
  · rfl
  · simp only [Option.map_some, Table.updated, decide_eq_true_eq]

/-! ## The operations -/

/-- The atomic steps of the schedulers, and of the other clients of the store. -/
inductive PeriodicOp where
  | nowMillis
  | newUuid
  | getDuePeriodic (now : Int)
  /-- A transaction of the enqueue for an occurrence. -/
  | store (o : Occurrence) (op : StoreOp)
  | updatePeriodicSchedule (o : Occurrence) (lastRun nextRun : Int)
  /-- A transaction of another client. -/
  | client (op : StoreOp)

/-- What a step answers; `none` is a failed call. -/
@[reducible] def PeriodicOp.Res : PeriodicOp → Type
  | nowMillis => Int
  | newUuid => String
  | getDuePeriodic _ => Option (List PeriodicTask)
  | store _ op => Option op.Res
  | updatePeriodicSchedule _ _ _ => Option Unit
  | client op => op.Res

abbrev periodicSig : Signature := ⟨PeriodicOp, PeriodicOp.Res⟩

/-- What the world decides at one step. -/
structure PeriodicWorld where
  /-- The call fails. -/
  fault : Bool
  number : Int
  text : String

/-- The enqueue ends successfully with this answer: the job was inserted, or there is one. -/
def enqueueEnds : (op : StoreOp) → op.Res → Bool
  | .enqueueUnique _, .ok _ => true
  | .activeWithKey _, some _ => true
  | _, _ => false

/-- The transaction inserts a job. -/
def inserts (op : StoreOp) (db : Db) : Bool :=
  db.jobs.rows.length < (op.exec db).2.jobs.rows.length

/-- One atomic step. -/
def PeriodicOp.exec : (op : PeriodicOp) → PeriodicWorld → PeriodicState → op.Res × PeriodicState
  | nowMillis, w, st => (w.number, st)
  | newUuid, w, st => (w.text, st)
  | getDuePeriodic now, w, st =>
    if w.fault then (none, st) else (some (Flexiq.getDuePeriodic now st.tasks), st)
  | store o op, w, st =>
    if w.fault then (none, st)
    else (some (op.exec st.db).1, { st with
      db := (op.exec st.db).2
      fired := if inserts op st.db then o :: st.fired else st.fired
      owed := if enqueueEnds op (op.exec st.db).1 then o :: st.owed else st.owed })
  | updatePeriodicSchedule o lastRun nextRun, w, st =>
    if w.fault then (none, st)
    else (some (), { st with
      tasks := Flexiq.updatePeriodicSchedule o.name lastRun nextRun st.tasks
      owed := st.owed.erase o })
  | client op, _, st => ((op.exec st.db).1, { st with db := (op.exec st.db).2 })

open PeriodicOp (exec)

abbrev periodicMachine : Machine periodicSig := ⟨PeriodicState, PeriodicWorld, PeriodicOp.exec⟩

abbrev PeriodicProg (α : Type) := Prog periodicSig α

def stepOf (op : PeriodicOp) : PeriodicProg op.Res := Prog.perform (S := periodicSig) op

/-- The answer of a storage call, as the store's. -/
def occurrenceAnswer (o : Occurrence) (op : StoreOp) (r : (PeriodicOp.store o op).Res) :
    Option op.Res := r

/-- An operation of the store on behalf of an occurrence; the first failed call ends it. -/
def onBehalf {α : Type} (o : Occurrence) (p : StoreProg α) : PeriodicProg (Option α) :=
  p.guarded (T := periodicSig) (PeriodicOp.store o) (occurrenceAnswer o)

/-! ## The program -/

/-- Retry budget of a periodic job. -/
def periodicDefaultMaxRetries : Int := 3

def periodicDefaultTimeoutMs : Int := 300000

def PeriodicTask.newJob (task : PeriodicTask) (now : Int) (namespace_ : Option String) :
    NewJob where
  queue := task.queue
  taskName := task.taskName
  payload := task.args.getD []
  priority := 0
  scheduledAt := now
  maxRetries := periodicDefaultMaxRetries
  timeoutMs := periodicDefaultTimeoutMs
  uniqueKey := some ("periodic:" ++ task.name ++ ":" ++ toString now)
  metadata := none
  notes := none
  dependsOn := []
  expiresAt := none
  resultTtlMs := none
  namespace_ := namespace_
  debounceKey := none

/-- Enqueue one due task and move its schedule on. An error is logged, and the task is left to
the next check. -/
def firePeriodic (cron : Cron) (namespace_ : Option String) (now : Int) (task : PeriodicTask) :
    PeriodicProg Unit := do
  let id ← stepOf .newUuid
  let createdAt ← stepOf .nowMillis
  match ← onBehalf task.occurrence
      (Ops.enqueueUnique ⟨task.newJob now namespace_, id, createdAt⟩) with
  | some (.ok _) =>
    match cron.next task.cronExpr task.timezone now with
    | some nextRun =>
      let _ ← stepOf (.updatePeriodicSchedule task.occurrence now nextRun)
      return ()
    | none => return ()
  | _ => return ()

/-- Check for periodic tasks that are due and enqueue them. -/
def checkPeriodic (cron : Cron) (namespace_ : Option String) : PeriodicProg Unit := do
  let now ← stepOf .nowMillis
  match ← stepOf (.getDuePeriodic now) with
  | none => return ()
  | some dueTasks => Prog.forEach dueTasks (firePeriodic cron namespace_ now)

/-- What clients do: a scheduler of some namespace checks its periodic tasks, or someone else
runs a transaction. -/
inductive PeriodicCall where
  | check (namespace_ : Option String)
  | client (op : StoreOp)

def periodicClients (cron : Cron) : Clients periodicSig where
  Call := PeriodicCall
  prog
    | .check namespace_ => checkPeriodic cron namespace_
    | .client op => do
      let _ ← stepOf (.client op)
      return ()

/-! ## What a scheduler may do -/

/-- A scheduler carries the occurrence whose enqueue went through last. Only it moves the schedule
of the task on, and past the occurrence. -/
def periodicDiscipline : Discipline periodicSig (Option Occurrence) where
  permits
    | _, .store _ (.enqueueUnique _) => True
    | _, .store _ (.activeWithKey _) => True
    | _, .store _ _ => False
    | g, .updatePeriodicSchedule o _ nextRun => g = some o ∧ o.nextRun < nextRun
    | _, _ => True
  expects
    | _, .getDuePeriodic now, r => ∀ due, r = some due → ∀ task ∈ due, task.nextRun ≤ now
    | _, _, _ => True
  next
    | g, .store o op, r => if (occurrenceAnswer o op r).any (enqueueEnds op) then some o else g
    | _, .updatePeriodicSchedule _ _ _, _ => none
    | g, _, _ => g
  done _ := True

/-- A deduplicating enqueue that returns a job leaves its scheduler with the occurrence. -/
theorem follows_enqueueUnique (o : Occurrence) (d : Draft) (attempts : Nat)
    (g : Option Occurrence) :
    (onBehalf o (Ops.enqueueUniqueAttempts d attempts)).Follows periodicDiscipline g
      fun g' r => ∀ job, r = some (.ok job) → g' = some o := by
  induction attempts generalizing g with
  | zero =>
    intro job hjob
    cases hjob
  | succ attempts ih =>
    refine .guarded_bind (.guarded_perform trivial fun r _ => ?_)
    rcases r with _ | (e | job)
    · intro job hjob
      cases hjob
    · -- the insert was refused: another attempt, a job that is there, or an error
      by_cases he : e = .storage .uniqueViolation
      · subst he
        cases hkey : d.newJob.uniqueKey with
        | none =>
          simp only [Ops.uniqueWinner, hkey]
          exact ih g
        | some =>
          simp only [Ops.uniqueWinner, hkey]
          refine .guarded_bind (.guarded_perform trivial fun r _ => ?_)
          rcases r with _ | (_ | job)
          · intro job hjob
            cases hjob
          · exact ih g
          · intro job' _
            rfl
      · simp only [occurrenceAnswer]
        intro _ hjob
        cases hjob
    · intro _ _
      rfl

theorem follows_firePeriodic (cron : Cron) (ns : Option String) {now : Int} {task : PeriodicTask}
    (hdue : task.nextRun ≤ now) (g : Option Occurrence) :
    (firePeriodic cron ns now task).Follows periodicDiscipline g fun _ _ => True := by
  refine .bind (.perform trivial fun id _ => ?_)
  refine .bind (.perform trivial fun createdAt _ => ?_)
  refine .bind ((follows_enqueueUnique task.occurrence _ 3 g).mono fun g' r hr => ?_)
  rcases r with _ | (_ | job)
  · trivial
  · trivial
  · cases hr job rfl
    cases hnext : cron.next task.cronExpr task.timezone now with
    | none => trivial
    | some nextRun =>
      have hlater : task.occurrence.nextRun < nextRun := lt_of_le_of_lt hdue (cron.later hnext)
      exact .bind (.perform ⟨rfl, hlater⟩ fun _ _ => trivial)

theorem follows_periodicCall (cron : Cron) (call : PeriodicCall) (g : Option Occurrence) :
    ((periodicClients cron).prog call).Follows periodicDiscipline g fun _ _ => True := by
  cases call with
  | client => exact .bind (.perform trivial fun _ _ => trivial)
  | check ns =>
    refine .bind (.perform trivial fun now _ => ?_)
    refine .bind (.perform trivial fun due hdue => ?_)
    rcases due with _ | due
    · trivial
    · exact .forEach (fun _ => True) trivial fun task htask g _ =>
        follows_firePeriodic cron ns (hdue due rfl task htask) g

/-! ## The law -/

/-- The stored task waits for the occurrence, and no earlier enqueue of the task still owes its
schedule update. -/
def Timely (st : PeriodicState) : PeriodicOp → Prop
  | .store o _ => (st.tasks.find o.name).any (fun t => t.nextRun = o.nextRun) = true ∧
      ∀ o' ∈ st.owed, o'.name ≠ o.name
  | _ => True

instance (st : PeriodicState) : DecidablePred (Timely st) := fun op => by
  unfold Timely
  split <;> infer_instance

/-- The runs in which every enqueue is timely. -/
abbrev timelyPeriodic (cron : Cron) (τ : Type) :
    Rules periodicMachine (periodicClients cron) τ where
  mayStart _ _ _ := True
  mayStep st _ op _ := Timely st op

abbrev anyPeriodic (cron : Cron) (τ : Type) : Rules periodicMachine (periodicClients cron) τ where
  mayStart _ _ _ := True
  mayStep _ _ _ _ := True

/-- The stored `next_run` of the task satisfies `P`. -/
def NextRun (tasks : Table periodicSchema) (name : String) (P : Int → Prop) : Prop :=
  ∃ task, tasks.find name = some task ∧ P task.nextRun

/-- What has fired is past, or its schedule update is still owed. -/
structure OncePerOccurrence {τ : Type} (st : PeriodicState) (G : τ → Option Occurrence) :
    Prop where
  /-- Nothing fired twice. -/
  once : st.fired.Nodup
  past : ∀ o ∈ st.fired, o ∈ st.owed ∨ NextRun st.tasks o.name (o.nextRun < ·)
  current : ∀ o ∈ st.owed, NextRun st.tasks o.name (· = o.nextRun)
  /-- A task owes one update at most. -/
  single : (st.owed.map Occurrence.name).Nodup
  carried : ∀ t o, G t = some o → o ∈ st.owed
  /-- No two schedulers carry one occurrence. -/
  apart : ∀ t u o, G t = some o → G u = some o → t = u

/-- A permitted transaction that inserts a job ends the enqueue. -/
theorem enqueueEnds_of_inserts {g : Option Occurrence} {db : Db}
    (hop : periodicDiscipline.permits g (.store o op)) (h : inserts op db = true) :
    enqueueEnds op (op.exec db).1 = true := by
  have hgrow : db.jobs.rows.length < (op.exec db).2.jobs.rows.length := of_decide_eq_true h
  cases op with
  | enqueueUnique d =>
    rcases writeTransaction_cases (enqueueUnique d.job d.newJob.dependsOn) db with
      ⟨e, -, htxn⟩ | ⟨job, db', -, htxn⟩
    · simp only [StoreOp.exec, htxn, lt_irrefl] at hgrow
    · simp only [StoreOp.exec, htxn, enqueueEnds]
  | activeWithKey => exact absurd hgrow (lt_irrefl _)
  | _ => cases hop

namespace OncePerOccurrence

variable {τ : Type} [DecidableEq τ] {st : PeriodicState} {G : τ → Option Occurrence}

omit [DecidableEq τ] in
theorem fresh (h : OncePerOccurrence st G) (htimely : Timely st (.store o op)) :
    o ∉ st.fired ∧ o ∉ st.owed ∧ NextRun st.tasks o.name (· = o.nextRun) := by
  obtain ⟨hcurrent, howed⟩ := htimely
  obtain ⟨task, htask, hnext⟩ := (Option.any_eq_true _ _).1 hcurrent
  have hnext : task.nextRun = o.nextRun := of_decide_eq_true hnext
  have hnot : o ∉ st.owed := fun ho => howed o ho rfl
  refine ⟨fun ho => ?_, hnot, task, htask, hnext⟩
  rcases h.past o ho with hmem | ⟨_, htask', _⟩
  · exact hnot hmem
  · cases htask.symm.trans htask'
    omega

theorem store (h : OncePerOccurrence st G) (t : τ)
    (hop : periodicDiscipline.permits (G t) (.store o op)) (htimely : Timely st (.store o op)) :
    OncePerOccurrence
      { st with
        db := (op.exec st.db).2
        fired := if inserts op st.db then o :: st.fired else st.fired
        owed := if enqueueEnds op (op.exec st.db).1 then o :: st.owed else st.owed }
      (update G t (if enqueueEnds op (op.exec st.db).1 then some o else G t)) := by
  obtain ⟨hfired, howed, hcurrent⟩ := h.fresh htimely
  by_cases hend : enqueueEnds op (op.exec st.db).1 = true
  · simp only [hend, if_true]
    refine ⟨?_, ?_, ?_, ?_, ?_, ?_⟩
    · split
      · exact List.nodup_cons.2 ⟨hfired, h.once⟩
      · exact h.once
    · intro o' ho'
      by_cases heq : o' = o
      · exact .inl (heq ▸ List.mem_cons_self)
      · have hold : o' ∈ st.fired := by
          split at ho'
          · exact (List.mem_cons.1 ho').resolve_left heq
          · exact ho'
        exact (h.past o' hold).imp_left (List.mem_cons_of_mem o)
    · intro o' ho'
      rcases List.mem_cons.1 ho' with rfl | ho'
      · exact hcurrent
      · exact h.current o' ho'
    · rw [List.map_cons, List.nodup_cons]
      refine ⟨fun hname => ?_, h.single⟩
      obtain ⟨o', ho', heq⟩ := List.mem_map.1 hname
      exact htimely.2 o' ho' heq
    · intro u o' hu
      obtain ⟨-, rfl⟩ | ⟨-, hu⟩ := found_update hu
      · exact List.mem_cons_self
      · exact List.mem_cons_of_mem o (h.carried u o' hu)
    · -- the new debt is nobody else's, for it was not owed before
      have hnot : ∀ u, u ≠ t → G u ≠ some o := fun u _ hu => howed (h.carried u o hu)
      intro u v o' hu hv
      obtain ⟨rfl, rfl⟩ | ⟨hut, hu'⟩ := found_update hu
      · obtain ⟨rfl, -⟩ | ⟨hvt, hv⟩ := found_update hv
        · rfl
        · exact absurd hv (hnot v hvt)
      · obtain ⟨rfl, rfl⟩ | ⟨-, hv⟩ := found_update hv
        · exact absurd hu' (hnot u hut)
        · exact h.apart u v o' hu' hv
  · have hins : ¬ inserts op st.db = true := fun hi => hend (enqueueEnds_of_inserts hop hi)
    simp only [hend, hins, if_false, Bool.false_eq_true, update_eq_self]
    exact ⟨h.once, h.past, h.current, h.single, h.carried, h.apart⟩

theorem drop (h : OncePerOccurrence st G) (t : τ) : OncePerOccurrence st (update G t none) := by
  exact ⟨h.once, h.past, h.current, h.single, fun u o hu => h.carried u o (found_of_none hu),
    fun u v o hu hv => h.apart u v o (found_of_none hu) (found_of_none hv)⟩

theorem updateSchedule (h : OncePerOccurrence st G) (t : τ) {lastRun nextRun : Int}
    (ht : G t = some o) (hlater : o.nextRun < nextRun) :
    OncePerOccurrence
      { st with
        tasks := updatePeriodicSchedule o.name lastRun nextRun st.tasks
        owed := st.owed.erase o }
      (update G t none) := by
  have howed := h.carried t o ht
  have hnodup : st.owed.Nodup := List.Nodup.of_map _ h.single
  -- another debt is another task's
  have hname : ∀ o' ∈ st.owed, o' ≠ o → o'.name ≠ o.name := fun o' ho' hne heq =>
    hne (List.inj_on_of_nodup_map h.single ho' howed heq)
  have hsame : ∀ {name : String} {P : Int → Prop}, name ≠ o.name → NextRun st.tasks name P →
      NextRun (updatePeriodicSchedule o.name lastRun nextRun st.tasks) name P := by
    rintro name _ hne ⟨task, htask, hP⟩
    have hkey : task.name = name := Table.find_key htask
    refine ⟨task, ?_, hP⟩
    rw [find_updatePeriodicSchedule, htask, Option.map_some, if_neg (hkey ▸ hne)]
  refine ⟨h.once, ?_, ?_, ?_, ?_, ?_⟩
  · intro o' ho'
    by_cases hsamename : o'.name = o.name
    · -- everything of this task that fired lies at or before the occurrence
      obtain ⟨task, htask, hcur⟩ := h.current o howed
      have hle : o'.nextRun ≤ o.nextRun := by
        rcases h.past o' ho' with hmem | ⟨_, htask', _⟩
        · by_contra hgt
          exact hname o' hmem (fun heq => hgt (heq ▸ le_refl _)) hsamename
        · rw [hsamename, htask] at htask'
          cases htask'
          omega
      refine .inr ⟨{ task with lastRun := some lastRun, nextRun := nextRun }, ?_, ?_⟩
      · have hkey : task.name = o.name := Table.find_key htask
        rw [find_updatePeriodicSchedule, hsamename, htask, Option.map_some, if_pos hkey]
      · exact lt_of_le_of_lt hle hlater
    · have hne : o' ≠ o := fun heq => hsamename (heq ▸ rfl)
      exact (h.past o' ho').imp (fun hmem => (List.mem_erase_of_ne hne).2 hmem)
        (hsame hsamename)
  · intro o' ho'
    obtain ⟨hne, hmem⟩ := hnodup.mem_erase_iff.1 ho'
    exact hsame (hname o' hmem hne) (h.current o' hmem)
  · exact h.single.sublist (List.erase_sublist.map Occurrence.name)
  · intro u o' hu
    by_cases hut : u = t
    · subst hut
      rw [update_self] at hu
      cases hu
    · rw [update_of_ne hut] at hu
      have hne : o' ≠ o := fun heq => hut (h.apart u t o (heq ▸ hu) ht)
      exact (List.mem_erase_of_ne hne).2 (h.carried u o' hu)
  · exact (h.drop t).apart

end OncePerOccurrence

theorem periodic_sound (cron : Cron) (τ : Type) [DecidableEq τ] :
    Pool.Sound (timelyPeriodic cron τ) periodicDiscipline OncePerOccurrence where
  start st G t call h _ _ := by
    refine ⟨G t, ?_, follows_periodicCall cron call (G t)⟩
    rw [update_eq_self]
    exact h
  step st G t op w h hop hrule := by
    cases op with
    | nowMillis | newUuid | client =>
      refine ⟨trivial, ?_⟩
      simp only [exec, periodicDiscipline, update_eq_self]
      exact ⟨h.once, h.past, h.current, h.single, h.carried, h.apart⟩
    | getDuePeriodic =>
      simp only [exec]
      split
      · refine ⟨fun due (hdue : none = some due) => (by cases hdue), ?_⟩
        simp only [periodicDiscipline, update_eq_self]
        exact h
      · refine ⟨?_, ?_⟩
        · rintro _ hdue _ htask
          cases hdue
          exact (of_decide_eq_true (Table.mem_select.1 htask).2).2
        · simp only [periodicDiscipline, update_eq_self]
          exact h
    | store =>
      refine ⟨trivial, ?_⟩
      simp only [exec]
      split
      · simp only [periodicDiscipline, occurrenceAnswer, Option.any_none, Bool.false_eq_true,
          if_false, update_eq_self]
        exact h
      · exact h.store t hop hrule
    | updatePeriodicSchedule =>
      refine ⟨trivial, ?_⟩
      simp only [exec]
      split
      · exact h.drop t
      · exact h.updateSchedule t hop.1 hop.2

/-- **Periodic tasks fire once.** In every run of any number of schedulers, beside any other
client of the store, in which each enqueue for a task happens while the task still waits for the
occurrence that was listed, and while no earlier enqueue of it owes its schedule update, at most
one job is inserted for every occurrence. -/
theorem periodic_fires_once (cron : Cron) {τ : Type} [DecidableEq τ] (db : Db)
    (tasks : Table periodicSchema) {c : Pool periodicMachine τ}
    (h : Pool.Reaches (timelyPeriodic cron τ) (Pool.idle (PeriodicState.init db tasks)) c)
    (o : Occurrence) : c.state.fired.count o ≤ 1 := by
  have hstart : Pool.Certified periodicDiscipline OncePerOccurrence
      (.idle (.init db tasks) : Pool periodicMachine τ) fun _ => none := by
    refine .idle ⟨List.nodup_nil, ?_, ?_, List.nodup_nil, ?_, ?_⟩ fun _ => trivial
    · intro o ho
      cases ho
    · intro o ho
      cases ho
    · intro t o ho
      cases ho
    · intro _ _ o ho
      cases ho
  obtain ⟨G, honce, -⟩ := (periodic_sound cron τ).reachable hstart h
  exact List.nodup_iff_count_le_one.1 honce.once o

/-- A schedule that comes round every minute. -/
def everyMinute : Cron where
  next _ _ after := some (after + 60000)
  later h := by
    cases h
    omega

/-- One task, due at time 100. -/
def reportTasks : Table periodicSchema :=
  ⟨[⟨"report", "t", "0 * * * * *", none, "q", true, none, 100, none⟩], by decide, by decide⟩

/-- The world at a step: a clock reading and an identifier. -/
def reading (now : Int) (id : String) : PeriodicWorld := ⟨false, now, id⟩

/-- A scheduler checks alone: it fires the task and moves its schedule on, and the other, which
checks afterwards, finds nothing due. -/
def oneAfterTheOther : List (Move periodicMachine (periodicClients everyMinute) Bool) :=
  .start true (.check none) :: List.replicate 6 (.step true (reading 100 "a")) ++
    .start false (.check none) :: List.replicate 2 (.step false (reading 101 "b"))

theorem periodic_fires_once_sample :
    ∃ c, Pool.Reaches (timelyPeriodic everyMinute Bool)
        (Pool.idle (PeriodicState.init Db.empty reportTasks)) c ∧
      c.state.fired = [⟨"report", 100⟩] ∧ c.state.fired.count ⟨"report", 100⟩ ≤ 1 := by
  refine Pool.exists_reaches_and oneAfterTheOther ?_ fun c hc =>
    periodic_fires_once everyMinute .empty reportTasks hc ⟨"report", 100⟩
  decide +kernel

/-- Both schedulers list the task, a millisecond apart, before either moves its schedule on. -/
def bothAtOnce : List (Move periodicMachine (periodicClients everyMinute) Bool) :=
  .start true (.check none) :: .start false (.check none) ::
    List.replicate 2 (.step true (reading 100 "a")) ++
    List.replicate 5 (.step false (reading 101 "b")) ++
    List.replicate 3 (.step true (reading 100 "a"))

/-- Two schedulers whose clocks differ by a millisecond enqueue one occurrence twice. -/
theorem periodic_fires_twice :
    ∃ c, Pool.Reaches (anyPeriodic everyMinute Bool)
        (Pool.idle (PeriodicState.init Db.empty reportTasks)) c ∧
      c.state.fired.count ⟨"report", 100⟩ = 2 ∧ c.state.db.jobs.rows.length = 2 :=
  Pool.exists_reaches _ _ bothAtOnce _ (by decide +kernel)

end Flexiq
