import Flexiq.TenurePrograms

/-!
# Results and timeouts speak for one attempt

A worker's result belongs to the attempt its job was dispatched with, and so does a timeout. By
the time either is handled the job may be at another attempt. The scheduler fences this off with
the in-flight record of the job — but the record is looked up by the **job**, not by the attempt,
and when there is none the fence is skipped.

So the laws of this file hold in the runs where every handler takes the record of the very run it
speaks for: a result never changes a job that is at another attempt (`attempt_fence`), and a
timeout is counted at most once and never against a later attempt (`timeouts_once`). A run is
settled once, whatever settles it (`settled_once`), and no job is out with two workers
(`one_worker`). The first two fail without that: `attempt_fence_broken` completes a job with the
late result of an attempt that timed out, and in `timeouts_once_broken` two schedulers count one
timeout twice.

The laws are about the **history** of a run: the machine keeps every operation it executed, with
the state before and after it.
-/

namespace Flexiq

open List Option SchedState

/-- An executed operation of the schedulers. -/
abbrev SchedEvent (σ : Type) [DecidableEq σ] := Event (schedMachine σ)

/-- Everything the store has of a job: its live row, its archived row, its dead letters. -/
def Db.stored (db : Db) (j : JobId) : Option Job × Option Job × List DeadLetterRow :=
  (db.jobs.find j, db.archivedJobs.find j,
    db.deadLetter.rows.filter fun d => d.originalJobId = j)

/-- On whose behalf an operation runs. -/
def SchedOp.cause {σ : Type} : SchedOp σ → Cause
  | store _ why _ | releaseInFlight _ why _ => why
  | _ => .loop

namespace SchedEvent

variable {σ : Type} [DecidableEq σ]

/-- On whose behalf the operation ran. -/
def cause (ev : SchedEvent σ) : Cause := SchedOp.cause ev.op

abbrev Changes (ev : SchedEvent σ) (j : JobId) : Prop :=
  ev.after.db.stored j ≠ ev.before.db.stored j

/-- The operation changed a job on behalf of that run of it. -/
abbrev Settles (ev : SchedEvent σ) (e : Execution) : Prop :=
  e ∈ ev.cause.executions ∧ ev.Changes e.job

abbrev TimesOut (ev : SchedEvent σ) (e : Execution) : Prop := ev.cause = .reap e ∧ ev.Changes e.job

end SchedEvent

/-! ## Operations that leave what is stored alone -/

/-- The effect changes nothing that is stored of job `j`. -/
def Effect.Spares (j : JobId) : Effect → Prop
  | claim _ _ _ | unclaim | step _ _ _ | diagnostics => True
  | edit row _ | archive row _ => row.id ≠ j
  | deadLetter entry => entry.originalJobId ≠ j
  | _ => False

variable {j : JobId} {db : Db} {op : StoreOp}

theorem stored_of_effect {e : Effect} (he : e.Spares j) {db' : Db} (h : e.Holds db db') :
    db'.stored j = db.stored j := by
  cases e with
  | archive row final =>
    obtain ⟨-, hid, ha⟩ := h
    have hne : ¬ j = final.id := fun heq => he (heq.trans hid).symm
    rw [Db.stored, find_jobs_archive ha, find_archived_archive ha, if_neg hne, if_neg hne,
      (archiveJobRow_ok ha).2]
    rfl
  | deadLetter entry =>
    obtain ⟨hins, hdb'⟩ := h
    have hrows : db'.deadLetter.rows = db.deadLetter.rows ++ [entry] := Table.ofRows_eq_some hins
    have hne : decide (entry.originalJobId = j) = false := decide_eq_false he
    have hj : db'.jobs = db.jobs := by rw [hdb']
    have ha : db'.archivedJobs = db.archivedJobs := by rw [hdb']
    simp [Db.stored, hj, ha, hrows, filter_append, hne]
  | edit =>
    have ha : db'.archivedJobs = db.archivedJobs := by rw [h.2.2]
    have hd : db'.deadLetter = db.deadLetter := by rw [h.2.2]
    rw [Db.stored, h.2.1, if_neg fun heq => he heq.symm, ha, hd]
    rfl
  | insert | claimRun | dropDead | purge => exact he.elim
  | _ => grind [Db.stored, Effect.Holds]

theorem stored_of_spares (hop : ∀ e, op.Effects e → e.Spares j) (db : Db) :
    (op.exec db).2.stored j = db.stored j :=
  (exec_effects op db).invariant (P := fun mid => mid.stored j = db.stored j)
    (fun e _ _ he h hmid => (stored_of_effect (hop e he) h).trans hmid) rfl

theorem stored_cascade {root : JobId} (hroot : db.jobs.find root = none) (reason : String)
    (ids : List JobId) (ns : Option String) (now : Int) :
    ((StoreOp.cascadeArchive root reason ids ns now).exec db).2.stored root = db.stored root := by
  refine ((exec_effects (.cascadeArchive root reason ids ns now) db).invariant
    (P := fun mid => mid.stored root = db.stored root ∧ mid.jobs.find root = none) ?_
    ⟨rfl, hroot⟩).1
  rintro _ mid mid' ⟨row, -, -, rfl⟩ h ⟨hmid, hnone⟩
  have hne : row.id ≠ root := by
    intro heq
    have hrow := h.1
    rw [heq, hnone] at hrow
    cases hrow
  have hsame : mid'.stored root = mid.stored root := stored_of_effect (e := .archive row _) hne h
  refine ⟨hsame.trans hmid, ?_⟩
  have hjobs : mid'.jobs.find root = mid.jobs.find root := congrArg Prod.fst hsame
  exact hjobs.trans hnone

/-- A transaction that ends runs, and changes what is stored of a live job, ends the run of that
job. -/
theorem gone_of_ending (hop : op.isEnding = true) (hp : Partition db) (hlive : db.Live j)
    (hchange : (op.exec db).2.stored j ≠ db.stored j) : (op.exec db).2.jobs.find j = none := by
  -- every effect but a dead letter of `j` itself archives the job or leaves it alone
  have hcases : (∀ e, op.Effects e →
      e.Spares j ∨ ∃ row final, row.id = j ∧ e = .archive row final) →
      (op.exec db).2.jobs.find j = none := by
    intro hop'
    have hinv := (exec_effects op db).invariant
      (P := fun mid => mid.jobs.find j = none ∨ mid.stored j = db.stored j) ?_ (.inr rfl)
    · obtain hnone | hsame := hinv
      · exact hnone
      · exact absurd hsame hchange
    · intro e mid mid' he h hmid
      obtain hspare | ⟨row, _, rfl, rfl⟩ := hop' e he
      · have hsame := stored_of_effect hspare h
        have hjobs : mid'.jobs.find j = mid.jobs.find j := congrArg Prod.fst hsame
        rw [hjobs, hsame]
        exact hmid
      · rw [find_jobs_archive h.2.2, if_pos h.2.1.symm]
        exact .inl rfl
  cases op <;> simp only [StoreOp.isEnding, Bool.false_eq_true] at hop
  case complete id result ns now =>
    refine hcases fun e he => ?_
    obtain ⟨row, -, -, -, rfl⟩ := he
    by_cases hj : row.id = j
    · exact .inr ⟨row, _, hj, rfl⟩
    · exact .inl hj
  case completeBatch cs ns now =>
    refine hcases fun e he => ?_
    obtain rfl | ⟨_, -, row, -, -, -, rfl⟩ := he
    · exact .inl trivial
    · by_cases hj : row.id = j
      · exact .inr ⟨row, _, hj, rfl⟩
      · exact .inl hj
  case markCancelled id ns now =>
    refine hcases fun e he => ?_
    obtain ⟨row, -, -, rfl⟩ := he
    by_cases hj : row.id = j
    · exact .inr ⟨row, _, hj, rfl⟩
    · exact .inl hj
  case deadLetter job dlqId error metadata count shed now =>
    by_cases hid : job.id = j
    · subst hid
      rcases hr : (StoreOp.exec
          (.deadLetter job dlqId error metadata count shed now) db).1 with e | _
      · have hsame :
            ((StoreOp.deadLetter job dlqId error metadata count shed now).exec db).2 = db :=
          writeTransaction_error hr
        exact absurd (by rw [hsame]) hchange
      · obtain ⟨row, hrow, -⟩ := archived_of_deadLetter hlive hr
        refine eq_none_iff_forall_ne_some.2 fun r hr => ?_
        have hnone := (hp.exec (.of_newIds rfl)).disjoint hr
        rw [hrow] at hnone
        cases hnone
    · refine hcases fun e he => ?_
      obtain rfl | ⟨_, hrow, rfl⟩ := he
      · exact .inl hid
      · exact .inl fun heq => hid (hrow.symm.trans heq)

/-! ## One event -/

section

variable {σ τ : Type} [DecidableEq σ] [DecidableEq τ] {cfg : σ → Scheduler}

omit [DecidableEq τ] in
/-- **What an operation on behalf of a run does to its job**: it finds the job in that very run,
and leaves it finished or waiting for the next attempt. -/
theorem Tenured.event {st : SchedState σ} {G : τ → Grip σ} (h : Tenured cfg st G) {t : τ}
    {op : SchedOp σ} (w : World) (hperm : (tenureDiscipline cfg).permits (G t) op)
    (hstop : ∀ s ∈ op.sched, s ∉ st.stopped) {e : Execution} (he : e ∈ op.cause.executions)
    (hchange : (op.exec w st).2.db.stored e.job ≠ st.db.stored e.job) :
    st.db.AtRun e ∧ ∀ row, (op.exec w st).2.db.jobs.find e.job = some row →
      row.retryCount = e.attempt + 1 := by
  cases op with
  | store s why op =>
    simp only [SchedOp.exec] at hchange ⊢
    split at hchange
    · exact absurd rfl hchange
    next hfault =>
    rw [if_neg hfault]
    have hs := hstop s rfl
    -- a transaction that settles runs acts on the run that is held
    have hrun : (G t).MaySettle s why op → st.db.AtRun e := by
      intro hsettle
      obtain ⟨x, hx, rfl, rfl⟩ := hsettle.2 e he
      exact (h.held t x hx hs).atRun
    have hend : op.isEnding = true → (G t).MaySettle s why op →
        st.db.AtRun e ∧ ∀ row, (op.exec st.db).2.jobs.find e.job = some row →
          row.retryCount = e.attempt + 1 := by
      intro hop hsettle
      have hat := hrun hsettle
      obtain ⟨row, hrow, -⟩ := hat
      have hgone := gone_of_ending hop h.partition (isSome_iff_exists.2 ⟨row, hrow⟩) hchange
      refine ⟨hrun hsettle, fun row' hrow' => ?_⟩
      rw [hgone] at hrow'
      cases hrow'
    have hspare : (∀ e', op.Effects e' → e'.Spares e.job) →
        st.db.AtRun e ∧ ∀ row, (op.exec st.db).2.jobs.find e.job = some row →
          row.retryCount = e.attempt + 1 :=
      fun hop => absurd (stored_of_spares hop st.db) hchange
    cases op with
    | complete | completeBatch | markCancelled | deadLetter => exact hend rfl hperm
    | retry id next ns =>
      by_cases hid : e.job = id
      · subst hid
        obtain ⟨row, hrow, hrunning, hcount⟩ := hrun hperm
        refine ⟨⟨row, hrow, hrunning, hcount⟩, fun row' hrow' => ?_⟩
        obtain ⟨hsame, -⟩ | ⟨-, -, -, first, hfirst, hafter⟩ := retry_shift e.job next ns st.db
        · exact absurd (by rw [hsame]) hchange
        · cases hrow.symm.trans hfirst
          cases hafter.symm.trans hrow'
          exact congrArg (· + 1) hcount
      · refine hspare fun e' he' => ?_
        obtain rfl | ⟨row, hrow, -, rfl⟩ := he'
        · trivial
        · exact fun heq => hid (heq.symm.trans hrow)
    | reschedule | dequeue | dequeueBatch =>
      cases hperm.1
      cases he
    | claimExecution | deleteClaim | reclaimExecution =>
      exact hspare fun e' he' => by rw [show e' = _ from he']; trivial
    | claimExecutionBatch =>
      refine hspare fun e' he' => ?_
      obtain ⟨id, -, rfl⟩ := he'
      trivial
    | cascadeArchive root reason ids ns now =>
      obtain ⟨hdead, hroot⟩ := hperm
      cases hroot e he
      have hnone : st.db.jobs.find e.job = none := by
        refine eq_none_iff_forall_ne_some.2 fun row hrow => ?_
        have harch := h.dead t _ hdead
        rw [h.partition.disjoint hrow] at harch
        cases harch
      exact absurd (stored_cascade hnone reason ids ns now) hchange
    | reapOrphanedJobs => exact hspare fun e' he' => he'.elim
    | _ =>
      obtain ⟨-, rfl | hside⟩ := hperm
      · cases he
      · refine hspare fun e' he' => ?_
        first
        | exact he'.elim
        | (rw [show e' = _ from he']; trivial)
        | cases hside
  | releaseInFlight s why id => exact absurd rfl hchange
  | _ => cases he

/-! ## Runs -/

variable (cfg) (codec : MetadataCodec)

/-- Clients enqueue; a result that is handled is the result of a run that was sent. -/
def Sched.Call.Genuine (st : SchedState σ) : Sched.Call σ → Prop
  | .client c => c.isEnqueue = true
  | .handleResult s k r => (s, ⟨r.jobId, k⟩) ∈ st.runs
  | .handleResults s rs => ∀ p ∈ rs, (s, ⟨p.2.jobId, p.1⟩) ∈ st.runs
  | _ => True

/-- Any number of schedulers work on one store, with the results of the runs they sent, while
clients enqueue jobs under new ids. A scheduler that stopped does nothing any more. Every handler
of a result or a timeout takes the record of that very run. -/
abbrev attestedRules (τ : Type) : Rules (schedMachine σ).logged (schedClients cfg codec) τ where
  mayStart st _ call := Sched.Call.Genuine st.1 call
  mayStep st _ op _ := ((∀ s ∈ SchedOp.sched op, s ∉ st.1.stopped) ∧
    SchedOp.NeverUsed st.1 op) ∧ SchedOp.Attested st.1 op

/-- The same, when a sweep for orphans also knows every scheduler that is still running. -/
abbrev informedRules (τ : Type) : Rules (schedMachine σ).logged (schedClients cfg codec) τ where
  mayStart st _ call := Sched.Call.Genuine st.1 call
  mayStep st _ op _ := (((∀ s ∈ SchedOp.sched op, s ∉ st.1.stopped) ∧
    SchedOp.NeverUsed st.1 op) ∧ SchedOp.Attested st.1 op) ∧ SchedOp.Informed cfg st.1 op

variable {cfg codec}

/-- What a history says about the runs it acted for: each change found its job in that run, left
it finished or waiting for the next attempt, and the run has not come back since. -/
structure Orderly (st : SchedState σ) (log : List (SchedEvent σ)) : Prop where
  event : ∀ ev ∈ log, ∀ e ∈ ev.cause.executions, ev.Changes e.job →
    Partition ev.before.db ∧ ev.before.db.AtRun e ∧
      ∀ row, ev.after.db.jobs.find e.job = some row → row.retryCount = e.attempt + 1
  past : ∀ ev ∈ log, ∀ e ∈ ev.cause.executions, ev.Changes e.job → st.db.Has e.job ∧
    ∀ row, st.db.jobs.find e.job = some row → e.attempt < row.retryCount
  once : ∀ e, (log.filter fun ev => ev.TimesOut e).length ≤ 1

theorem Orderly.not_atRun {st : SchedState σ} {log : List (SchedEvent σ)} (h : Orderly st log)
    {ev : SchedEvent σ} (hev : ev ∈ log) {e : Execution} (hset : ev.Settles e) :
    ¬ st.db.AtRun e := by
  rintro ⟨row, hrow, -, hcount⟩
  have hlt := (h.past ev hev e hset.1 hset.2).2 row hrow
  rw [hcount] at hlt
  exact lt_irrefl _ hlt

omit [DecidableEq σ] in
theorem not_purge_of_permits {g : Grip σ} {op : SchedOp σ} (h : (tenureDiscipline cfg).permits g op)
    {o : StoreOp} (ho : o ∈ op.transaction) (p : ArchivePurge) : o ≠ .purgeArchived p := by
  rintro rfl
  cases op with
  | client =>
    cases ho
    cases h
  | store =>
    cases ho
    cases h.1
  | _ => cases ho

omit [DecidableEq τ] in
/-- One more operation: jobs are not lost, and their attempts only go up. -/
theorem Orderly.step {st : SchedState σ} {G : τ → Grip σ} {log : List (SchedEvent σ)}
    (hlog : Orderly st log) (h : Tenured cfg st G) {t : τ} {op : SchedOp σ} (w : World)
    (hperm : (tenureDiscipline cfg).permits (G t) op) (hstop : ∀ s ∈ op.sched, s ∉ st.stopped)
    (hnew : op.NeverUsed st) : Orderly (op.exec w st).2 (⟨op, st, (op.exec w st).2⟩ :: log) := by
  have hhas : ∀ {k}, st.db.Has k → (op.exec w st).2.db.Has k := by
    intro k hk
    obtain hdb | ⟨o, ho, hdb⟩ := op.exec_db w st
    · rwa [hdb]
    · rw [hdb]
      exact hk.exec (not_purge_of_permits hperm ho)
  have hup : ∀ {k row'}, st.db.Has k → (op.exec w st).2.db.jobs.find k = some row' →
      ∃ row, st.db.jobs.find k = some row ∧ row.retryCount ≤ row'.retryCount := by
    intro k row' hk hrow'
    obtain hdb | ⟨o, ho, hdb⟩ := op.exec_db w st
    · exact ⟨row', hdb ▸ hrow', le_refl _⟩
    · rw [hdb] at hrow'
      refine retryCount_le (fun hid => ?_) hrow'
      obtain ⟨hlive, harch⟩ := (hnew o ho).1 k hid
      obtain hk | hk := hk
      · rw [hlive] at hk
        cases hk
      · rw [harch] at hk
        cases hk
  have hevent := fun {e} (he : e ∈ op.cause.executions) => h.event w hperm hstop he
  refine ⟨fun ev hev e he hchange => ?_, fun ev hev e he hchange => ?_, fun e => ?_⟩
  · obtain rfl | hev := mem_cons.1 hev
    · exact ⟨h.partition, hevent he hchange⟩
    · exact hlog.event ev hev e he hchange
  · obtain rfl | hev := mem_cons.1 hev
    · obtain ⟨⟨row, hrow, -⟩, hafter⟩ := hevent he hchange
      refine ⟨hhas (.inl (isSome_iff_exists.2 ⟨row, hrow⟩)), fun row' hrow' => ?_⟩
      rw [hafter row' hrow']
      exact Int.lt_succ e.attempt
    · obtain ⟨hk, hlt⟩ := hlog.past ev hev e he hchange
      refine ⟨hhas hk, fun row' hrow' => ?_⟩
      obtain ⟨row, hrow, hle⟩ := hup hk hrow'
      exact lt_of_lt_of_le (hlt row hrow) hle
  · by_cases hnow : SchedEvent.TimesOut ⟨op, st, (op.exec w st).2⟩ e
    · -- an earlier timeout of the run would have moved the job past it
      obtain ⟨⟨row, hrow, -, hcount⟩, -⟩ := hevent (by
        rw [show op.cause = .reap e from hnow.1]
        exact mem_singleton.2 rfl) hnow.2
      have hnone : (log.filter fun ev => ev.TimesOut e) = [] := by
        refine filter_eq_nil_iff.2 fun ev hev hthen => ?_
        obtain ⟨hcause, hchange⟩ := of_decide_eq_true hthen
        have hlt := (hlog.past ev hev e (by rw [hcause]; exact mem_singleton.2 rfl)
          hchange).2 row hrow
        rw [hcount] at hlt
        exact lt_irrefl _ hlt
      rw [filter_cons, if_pos (decide_eq_true hnow), hnone]
      exact le_refl _
    · rw [filter_cons, if_neg (by simpa using hnow)]
      exact hlog.once e

/-- The discipline is sound for the invariant and the history together. -/
theorem fleet_sound :
    Pool.Sound (informedRules cfg codec τ) (tenureDiscipline cfg)
      fun st G => Tenured cfg st.1 G ∧ Orderly st.1 st.2 where
  start st G t call hinv _ hcall := by
    refine ⟨.empty, ⟨hinv.1.weaken (Grip.empty_le _), hinv.2⟩, follows_call call (fun c hc => ?_) _⟩
    subst hc
    exact hcall
  step st G t op w hinv hperm hstep := by
    obtain ⟨⟨⟨hstop, hnew⟩, hatt⟩, hinf⟩ := hstep
    obtain ⟨hexp, hten⟩ := hinv.1.step w hperm hstop hnew hatt hinf
    exact ⟨hexp, hten, hinv.2.step hinv.1 w hperm hstop hnew⟩

/-- A store as schedulers leave it: only running jobs have a claim. -/
structure Db.Tidy (db : Db) : Prop where
  partition : Partition db
  claimed : ∀ {k w}, db.owner k = some w →
    ∃ row, db.jobs.find k = some row ∧ row.status = .running

theorem tidy_empty : Db.empty.Tidy := ⟨partition_empty, nofun⟩

/-- The runs that are out with workers of running schedulers are current, and of different jobs. -/
def SchedState.OneWorker (st : SchedState σ) : Prop :=
  ∀ s e, s ∉ st.stopped → st.Out s e → st.db.AtRun e ∧
    ∀ s' e', s' ∉ st.stopped → st.Out s' e' → e.job = e'.job → s = s' ∧ e = e'

variable (hdb : db.Tidy) {c : Pool (schedMachine σ).logged τ}
  (h : Pool.Reaches (informedRules cfg codec τ) (Pool.idle (SchedState.init db, [])) c)
include hdb h

theorem fleet_reachable :
    ∃ G : τ → Grip σ, Tenured cfg c.state.1 G ∧ Orderly c.state.1 c.state.2 := by
  have hidle : Pool.Certified (M := (schedMachine σ).logged) (tenureDiscipline cfg)
      (fun st G => Tenured cfg st.1 G ∧ Orderly st.1 st.2)
      (.idle (init db, []) : Pool (schedMachine σ).logged τ)
      fun _ => .empty := by
    refine .idle ⟨.init hdb.partition hdb.claimed, ?_⟩ fun _ => trivial
    exact ⟨(fun ev hev => by cases hev), (fun ev hev => by cases hev), fun e => Nat.zero_le 1⟩
  obtain ⟨G, hG⟩ := fleet_sound.reachable hidle h
  exact ⟨G, hG.inv⟩

theorem orderly_reachable : Orderly c.state.1 c.state.2 :=
  (fleet_reachable hdb h).elim fun _ hG => hG.2

/-- **No job is with two workers**, in every informed run of any number of schedulers. -/
theorem one_worker : c.state.1.OneWorker := by
  obtain ⟨_, hten, -⟩ := fleet_reachable hdb h
  intro s e hs hout
  have hrun := hten.out hs hout
  refine ⟨hrun, fun s' e' hs' hout' hjob => ⟨hten.outOnce hs hs' hout hout' hjob, ?_⟩⟩
  -- both are the current run of the job
  obtain ⟨_, hrow, -, hcount⟩ := hrun
  obtain ⟨_, hrow', -, hcount'⟩ := hten.out hs' hout'
  rw [← hjob, hrow] at hrow'
  cases hrow'
  exact Execution.ext hjob (hcount.symm.trans hcount')

end

/-! ## Results -/

def Db.StoredAs (db : Db) (j : JobId) (row : Job) : Prop :=
  db.jobs.find j = some row ∨ db.archivedJobs.find j = some row

/-- No result changed its job while the job was stored with another attempt. -/
def ResultsFenced {σ : Type} [DecidableEq σ] (log : List (SchedEvent σ)) : Prop :=
  ∀ ev ∈ log, ∀ es, ev.cause = .results es → ∀ e ∈ es, ev.Changes e.job →
    ∀ row, ev.before.db.StoredAs e.job row → row.retryCount = e.attempt

/-- A timeout of a run changed its job at most once, found the job in that run, and cost it at most
one retry. -/
def TimeoutsOnce {σ : Type} [DecidableEq σ] (log : List (SchedEvent σ)) : Prop :=
  ∀ e, (log.filter fun ev => ev.TimesOut e).length ≤ 1 ∧
    ∀ ev ∈ log, ev.TimesOut e → ev.before.db.AtRun e ∧
      ∀ row, ev.after.db.jobs.find e.job = some row → row.retryCount = e.attempt + 1

/-- At most one operation settled a run. The job was in that run then, and is not any more. -/
structure SettledOnce {σ : Type} [DecidableEq σ] (st : SchedState σ) (log : List (SchedEvent σ)) :
    Prop where
  once : log.Pairwise fun (ev old : SchedEvent σ) => ∀ e, ev.Settles e → ¬ old.Settles e
  found : ∀ ev ∈ log, ∀ e, ev.Settles e → ev.before.db.AtRun e
  past : ∀ ev ∈ log, ∀ e, ev.Settles e → ¬ st.db.AtRun e

section

variable {τ : Type} [DecidableEq τ] {codec : MetadataCodec}

/-- **The attempt fence of one scheduler**: a result never changes its job while the job is stored
with another attempt — as long as every handler takes the record of the run it speaks for. -/
theorem attempt_fence {cfg : Unit → Scheduler} {db : Db} (hdb : db.Tidy)
    {c : Pool (schedMachine Unit).logged τ}
    (h : Pool.Reaches (attestedRules cfg codec τ) (Pool.idle (SchedState.init db, [])) c) :
    ResultsFenced c.state.2 := by
  -- one scheduler is informed about all schedulers
  have hinf : Pool.Reaches (informedRules cfg codec τ) (.idle (init db, [])) c := by
    have hstep : ∀ st t op w, (attestedRules cfg codec τ).mayStep st t op w →
        (informedRules cfg codec τ).mayStep st t op w := by
      exact fun st t op w hstep => ⟨hstep, fun p _ s' hne => absurd rfl hne⟩
    have hstart : ∀ st t call, (attestedRules cfg codec τ).mayStart st t call →
        (informedRules cfg codec τ).mayStart st t call := fun _ _ _ hcall => hcall
    exact h.mono hstart hstep
  intro ev hev _ hcause e he hchange _ hrow
  obtain ⟨hp, ⟨_, hrow', -, hcount⟩, -⟩ := (orderly_reachable hdb hinf).event ev hev e
    (by rw [hcause]; exact he) hchange
  obtain hrow | hrow := hrow
  · cases hrow.symm.trans hrow'
    exact hcount
  · rw [hp.disjoint hrow'] at hrow
    cases hrow

/-- **Timeouts are counted once**, on any number of schedulers — as long as every handler takes the
record of the run it speaks for, and sweeps for orphans know who is running. -/
theorem timeouts_once {σ : Type} [DecidableEq σ] {cfg : σ → Scheduler} {db : Db} (hdb : db.Tidy)
    {c : Pool (schedMachine σ).logged τ}
    (h : Pool.Reaches (informedRules cfg codec τ) (Pool.idle (SchedState.init db, [])) c) :
    TimeoutsOnce c.state.2 := by
  have hlog := orderly_reachable hdb h
  refine fun e => ⟨hlog.once e, fun ev hev hthen => ?_⟩
  exact (hlog.event ev hev e (by rw [hthen.1]; exact mem_singleton.2 rfl) hthen.2).2

/-- **A run is settled once**, by a result, a timeout or a rescue, whichever comes first — under
the same conditions. -/
theorem settled_once {σ : Type} [DecidableEq σ] {cfg : σ → Scheduler} {db : Db} (hdb : db.Tidy)
    {c : Pool (schedMachine σ).logged τ}
    (h : Pool.Reaches (informedRules cfg codec τ) (Pool.idle (SchedState.init db, [])) c) :
    SettledOnce c.state.1 c.state.2 := by
  have hlog := orderly_reachable hdb h
  refine ⟨?_, fun ev hev e hset => (hlog.event ev hev e hset.1 hset.2).2.1,
    fun ev hev e hset => hlog.not_atRun hev hset⟩
  clear hlog
  induction h with
  | refl => exact .nil
  | tail hb hs ih =>
    have hlog := orderly_reachable hdb (hb.tail hs)
    obtain ⟨t, call, -, -, rfl⟩ | ⟨t, op, k, w, -, -, rfl⟩ := Pool.step_cases hs
    · exact ih
    · refine pairwise_cons.2 ⟨fun old hold e hset hset' => ?_, ih⟩
      -- the run that was settled before is over when the operation finds it
      exact (orderly_reachable hdb hb).not_atRun hold hset'
        (hlog.event _ mem_cons_self e hset.1 hset.2).2.1

end

/-! ## Late results and double timeouts -/

section

variable {σ : Type} [DecidableEq σ] (cfg : σ → Scheduler) (codec : MetadataCodec)

/-- The same fleet, with handlers that take whatever record there is, and storage calls that all
succeed. -/
abbrev steadyRules (τ : Type) : Rules (schedMachine σ).logged (schedClients cfg codec) τ where
  mayStart st _ call := Sched.Call.Genuine st.1 call
  mayStep st _ op w := ((∀ s ∈ SchedOp.sched op, s ∉ st.1.stopped) ∧
    SchedOp.NeverUsed st.1 op) ∧ World.fault w = false

instance (st : SchedState σ) : DecidablePred (Sched.Call.Genuine st) := fun call => by
  rcases call <;> unfold Sched.Call.Genuine <;> infer_instance

instance (st : SchedState σ) (op : SchedOp σ) : Decidable (SchedOp.NeverUsed st op) :=
  inferInstanceAs (Decidable (∀ _ ∈ _, _ ∧ ∀ _ ∈ _, ∀ _ ∈ _, _))

instance (st : SchedState σ) (op : SchedOp σ) : Decidable (SchedOp.Attested st op) :=
  inferInstanceAs (Decidable (∀ _ ∈ _, _))

instance [Fintype σ] {τ : Type} :
    ∀ st t op w, Decidable ((informedRules cfg codec τ).mayStep st t op w) :=
  fun _ _ _ _ => inferInstance

end

/-- A number of steps of a thread, all at one time, without a failure. -/
def fleetSteps {σ τ : Type} [DecidableEq σ] {cfg : σ → Scheduler} (t : τ) (now : Int) (n : Nat) :
    List (Move (schedMachine σ).logged (schedClients cfg plainCodec) τ) :=
  List.replicate n (.step t { World.calm with number := now })

/-- A job that may be retried is enqueued, and dispatched by scheduler `s`. -/
def dispatched {σ : Type} [DecidableEq σ] {cfg : σ → Scheduler} (s : σ) :
    List (Move (schedMachine σ).logged (schedClients cfg plainCodec) Bool) :=
  [.start true (.client (.enqueue
    ⟨{ NewJob.plain "q" "t" with timeoutMs := 10, maxRetries := 3 }, "a", 0⟩))] ++
  fleetSteps true 0 1 ++ [.start true (.tryDispatch s)] ++ fleetSteps true 1 8

/-- The worker reports success in time. -/
theorem attempt_fence_sample :
    ∃ c, Pool.Reaches (attestedRules soloScheduler plainCodec Bool)
        (Pool.idle (SchedState.init Db.empty, [])) c ∧
      (∃ ev ∈ c.state.2, SchedEvent.cause ev = .results [⟨"a", 0⟩] ∧ SchedEvent.Changes ev "a") ∧
      ResultsFenced c.state.2 := by
  refine Pool.exists_reaches_and
    (dispatched () ++ [.start false (.handleResult () 0 (.success ⟨"a", none, "t", 5⟩))] ++
      fleetSteps false 5 4) ?_ fun c hc => attempt_fence tidy_empty hc
  decide +kernel

/-- The run times out, the job is retried and dispatched again, and then the first worker reports
success: its result takes the record of the second run and completes the job. -/
theorem attempt_fence_broken :
    ¬ ∀ c : Pool (schedMachine Unit).logged Bool,
      Pool.Reaches (steadyRules soloScheduler plainCodec Bool)
        (Pool.idle (SchedState.init Db.empty, [])) c → ResultsFenced c.state.2 := by
  intro hall
  obtain ⟨c, hc, ev, hev, hcause, hchange, hrow⟩ :=
    Pool.exists_reaches (steadyRules soloScheduler plainCodec Bool)
      (Pool.idle (init Db.empty, []))
      (dispatched () ++ [.start true (.reapStale ())] ++ fleetSteps true 20 15 ++
        [.start true (.tryDispatch ())] ++ fleetSteps true 21 8 ++
        [.start false (.handleResult () 0 (.success ⟨"a", none, "t", 5⟩))] ++ fleetSteps false 22 4)
      (fun c => ∃ ev ∈ c.state.2, SchedEvent.cause ev = .results [⟨"a", 0⟩] ∧
        SchedEvent.Changes ev "a" ∧
        ∃ row ∈ (Event.before ev).db.jobs.find "a", row.retryCount = 1)
      (by decide +kernel)
  obtain ⟨row, hrow, hcount⟩ := hrow
  have hfenced := hall c hc ev hev _ hcause ⟨"a", 0⟩ (by simp) hchange row (.inl hrow)
  rw [hcount] at hfenced
  cases hfenced

def pairScheduler (s : Bool) : Scheduler := plainScheduler (if s then "v" else "w")

theorem one_worker_sent :
    ∃ c, Pool.Reaches (informedRules pairScheduler plainCodec Bool)
        (Pool.idle (SchedState.init Db.empty, [])) c ∧
      c.state.1.Out true ⟨"a", 0⟩ ∧ c.state.1.OneWorker := by
  refine Pool.exists_reaches_and (dispatched true) ?_ fun c hc => one_worker tidy_empty hc
  decide +kernel

/-- The scheduler that dispatched the job times it out. -/
theorem timeouts_once_sample :
    ∃ c, Pool.Reaches (informedRules pairScheduler plainCodec Bool)
        (Pool.idle (SchedState.init Db.empty, [])) c ∧
      (∃ ev ∈ c.state.2, SchedEvent.TimesOut ev ⟨"a", 0⟩) ∧ TimeoutsOnce c.state.2 := by
  refine Pool.exists_reaches_and
    (dispatched true ++ [.start true (.reapStale true)] ++ fleetSteps true 20 13) ?_
    fun c hc => timeouts_once tidy_empty hc
  decide +kernel

theorem settled_once_sample :
    ∃ c, Pool.Reaches (informedRules pairScheduler plainCodec Bool)
        (Pool.idle (SchedState.init Db.empty, [])) c ∧
      (∃ ev ∈ c.state.2, SchedEvent.Settles ev ⟨"a", 0⟩) ∧ SettledOnce c.state.1 c.state.2 := by
  refine Pool.exists_reaches_and
    (dispatched true ++ [.start true (.reapStale true)] ++ fleetSteps true 20 13) ?_
    fun c hc => settled_once tidy_empty hc
  decide +kernel

/-- Both schedulers select the overdue job; the one that dispatched it retries it, and then the
other one, which has no record of it, retries it once more. -/
theorem timeouts_once_broken :
    ¬ ∀ c : Pool (schedMachine Bool).logged Bool,
      Pool.Reaches (steadyRules pairScheduler plainCodec Bool)
        (Pool.idle (SchedState.init Db.empty, [])) c → TimeoutsOnce c.state.2 := by
  intro hall
  obtain ⟨c, hc, htwice⟩ := Pool.exists_reaches (steadyRules pairScheduler plainCodec Bool)
    (.idle (init .empty, []))
    (dispatched true ++ [.start true (.reapStale true)] ++ fleetSteps true 20 4 ++
      [.start false (.reapStale false)] ++ fleetSteps false 20 4 ++ fleetSteps true 20 9 ++
      fleetSteps false 20 8)
    (fun c => ((List.filter (fun ev => SchedEvent.TimesOut ev ⟨"a", 0⟩) c.state.2).length = 2))
    (by decide +kernel)
  have honce := (hall c hc ⟨"a", 0⟩).1
  rw [htwice] at honce
  cases honce with
  | step h => cases h

end Flexiq
