import Flexiq.Remote

/-!
# Where a thread of the dispatcher is

The discipline of the remote dispatcher. A thread's ghost value is its place in the source: what
the placing thread has reserved, inserted or still has to undo, and what a reader has looked up,
taken or still has to pay back. The programs follow the discipline once and for all; the laws of
the dispatcher are invariants over these places.

`Placed` is what every law starts from: the registry maps an id to a connection that announced it,
the lock is held exactly while the placing thread scans, and whatever that thread loads, reserves
or chooses is registered at that moment.
-/

namespace Flexiq

open Function List Remote AList Nat

variable {g : Pc} {frame : Frame} {call : RemoteCall}
variable {taskName : String} {job : Job} {cfg : Config}

/-- The operation a program makes next. -/
def Prog.nextOp {S : Signature} {α : Type} : Prog S α → Option S.Op
  | .ret _ => none
  | .call op _ => some op

/-- Where the placing thread is. -/
inductive RunPc where
  | ready
  /-- It holds the registry lock, walks these executors, and has loaded a nonzero counter of
  those found. -/
  | scanning (values found : List Nat)
  /-- It has reserved a slot and still holds the lock. -/
  | chosen (e : Nat)
  | reserved (e : Nat)
  /-- The entry is in the map, the frame not yet written. -/
  | inserted (e : Nat) (jobId : JobId)
  /-- The write failed. -/
  | unsent (e : Nat) (jobId : JobId)
  | dropped (e : Nat)
  | released (e : Nat)
  | settled (e : Nat)
  /-- It has emptied the registry of these. -/
  | draining (executors : List Nat)

inductive ReaderPc where
  | reading
  /-- It has read the frame and done nothing about it yet. -/
  | handling (frame : Frame)
  /-- It is done with a frame. -/
  | idle
  /-- A look-up has found the job in flight. -/
  | granted (jobId : JobId) (dispatched : RemoteInFlight)
  /-- It has taken the job's entry. -/
  | token (jobId : JobId)
  /-- It has also freed the slot. -/
  | paid (jobId : JobId)
  /-- It has read the end of the stream. -/
  | ending
  | deregistered
  | drained
  | ended

inductive Pc where
  | outside
  | run (p : RunPc)
  | reader (e : Nat) (p : ReaderPc)

namespace Pc

/-- The operations a thread may perform where it is. -/
inductive Permits : Pc → RemoteOp → Prop
  | loadShutdown : Permits .outside .loadShutdown
  | storeShutdown : Permits .outside .storeShutdown
  | writeAck (h) : Permits .outside (.writeAck h)
  | register (h) : Permits .outside (.register h)
  | send (e f) : Permits .outside (.send e f)
  | checkShutdown : Permits (.run .ready) .loadShutdown
  | unplaceable (r) : Permits (.run .ready) (.emit none r)
  | lock : Permits (.run .ready) .lockExecutors
  | load {vs found e} (h : e ∈ vs) : Permits (.run (.scanning vs found)) (.loadFree e)
  | reserve {vs found e} (h : e ∈ found) : Permits (.run (.scanning vs found)) (.reserve e)
  | unlock {vs found} : Permits (.run (.scanning vs found)) .unlockExecutors
  | unlockChosen {e} : Permits (.run (.chosen e)) .unlockExecutors
  | toggles {e} (n) : Permits (.run (.reserved e)) (.resolveToggles n)
  | insert {e} (job) : Permits (.run (.reserved e)) (.insertInFlight e job)
  | write {e} (job : Job) (d) : Permits (.run (.inserted e job.id)) (.writeJob e job d)
  | takeBack {e j} : Permits (.run (.unsent e j)) (.removeInFlight e j .writer)
  | giveBack {e} : Permits (.run (.dropped e)) (.release e)
  | dropExecutor {e} : Permits (.run (.released e)) (.deregister e)
  | placed {e} : Permits (.run (.settled e)) .placed
  | drainExecutors : Permits (.run .ready) .drainExecutors
  | isBusy {es} (e) : Permits (.run (.draining es)) (.isBusy e)
  | close {es e} (h : e ∈ es) : Permits (.run (.draining es)) (.close e)
  | read {e} : Permits (.reader e .reading) (.read e)
  | shrink {e n payload} : Permits (.reader e (.handling ⟨.heartbeat n, payload⟩)) (.shrink e n)
  | running {e f} (j) (h : f.message.intoJobResult f.payload = none) :
      Permits (.reader e (.handling f)) (.running e j)
  | progress {e j d} (v : ProgressValue) (h : v.namespace_ = d.namespace_) :
      Permits (.reader e (.granted j d)) (.pumpProgress e j v)
  | log {e j d} (line : LogLine) (hj : line.jobId = j) (hn : line.taskName = d.taskName)
      (hs : line.namespace_ = d.namespace_) :
      Permits (.reader e (.granted j d)) (.pumpLog e line)
  | take {e f r} (h : f.message.intoJobResult f.payload = some r) :
      Permits (.reader e (.handling f)) (.removeInFlight e r.jobId .reader)
  | settle {e j} : Permits (.reader e (.token j)) (.settleProgress j)
  | pay {e j} : Permits (.reader e (.token j)) (.release e)
  | emit {e j} (r : JobResult) (h : r.jobId = j) :
      Permits (.reader e (.paid j)) (.emit (some e) r)
  | leave {e} : Permits (.reader e .ending) (.deregister e)
  | drainInFlight {e} : Permits (.reader e .deregistered) (.drainInFlight e)
  | exit {e} : Permits (.reader e .drained) (.readerExit e)

/-- Where the answer of an operation takes a thread. -/
def next : Pc → (op : RemoteOp) → op.Res → Pc
  | .run .ready, .lockExecutors, r => .run (.scanning (r.map Prod.fst) [])
  | .run .ready, .drainExecutors, r => .run (.draining r)
  | .run (.scanning vs found), .loadFree e, r =>
    .run (.scanning vs (if r = 0 then found else e :: found))
  | .run (.scanning _ _), .reserve e, _ => .run (.chosen e)
  | .run (.scanning _ _), .unlockExecutors, _ => .run .ready
  | .run (.chosen e), .unlockExecutors, _ => .run (.reserved e)
  | .run (.reserved e), .insertInFlight _ job, _ => .run (.inserted e job.id)
  | .run (.inserted e j), .writeJob _ _ _, ok => .run (bif ok then .settled e else .unsent e j)
  | .run (.unsent e _), .removeInFlight _ _ _, _ => .run (.dropped e)
  | .run (.dropped e), .release _, _ => .run (.released e)
  | .run (.released e), .deregister _, _ => .run (.settled e)
  | .run (.settled _), .placed, _ => .run .ready
  | .reader e .reading, .read _, r => .reader e (r.elim .ending .handling)
  | .reader e (.handling _), .shrink _ _, _ => .reader e .idle
  | .reader e (.handling _), .running _ j, r => .reader e (r.elim .idle (.granted j))
  | .reader e (.handling _), .removeInFlight _ j _, r =>
    .reader e (r.elim .idle fun _ => .token j)
  | .reader e (.granted _ _), .pumpProgress _ _ _, _ => .reader e .idle
  | .reader e (.granted _ _), .pumpLog _ _, _ => .reader e .idle
  | .reader e (.token j), .release _, _ => .reader e (.paid j)
  | .reader e (.paid _), .emit _ _, _ => .reader e .idle
  | .reader e .ending, .deregister _, _ => .reader e .deregistered
  | .reader e .deregistered, .drainInFlight _, _ => .reader e .drained
  | .reader e .drained, .readerExit _, _ => .reader e .ended
  | pc, _, _ => pc

/-- The thread may return here; a reader only from a frame that is no result. -/
def Done : Pc → Prop
  | .outside | .run .ready | .run (.draining _) | .reader _ .idle | .reader _ .ended => True
  | .reader _ (.handling f) => f.message.intoJobResult f.payload = none
  | _ => False

end Pc

def remoteDiscipline : Discipline remoteSig Pc where
  permits := Pc.Permits
  expects _ _ _ := True
  next := Pc.next
  done := Pc.Done

/-! ## The programs follow the discipline -/

namespace RemoteDispatcher

open Prog

variable {α : Type}

theorem follows_ask {op : RemoteOp} {Q : Pc → op.Res → Prop} (hp : g.Permits op)
    (h : ∀ r, Q (g.next op r) r) : (ask op).Follows remoteDiscipline g Q :=
  ⟨hp, fun r _ => h r⟩

theorem follows_attach (cfg : Config) (first : ExecutorMessage) :
    (attach cfg first).Follows remoteDiscipline .outside fun g _ => g = .outside := by
  refine .bind (follows_ask .loadShutdown fun down => ?_)
  cases down with
  | true => rfl
  | false =>
    cases first with
    | hello h =>
      show Follows _ (if !cfg.admits h.token then _ else _) _ _
      split
      · rfl
      · refine .bind (follows_ask (.writeAck h) fun ok => ?_)
        cases ok with
        | false => rfl
        | true =>
          show Follows _ (if h.protocolVersion ≠ protocolVersion then _ else _) _ _
          split
          · rfl
          · exact follows_ask (.register h) fun _ => rfl
    | _ => rfl

/-- The scan only loads counters of executors it walks, and its best executor is one whose counter
it loaded as nonzero. -/
theorem follows_scan {vs : List Nat} :
    ∀ {executors : List (Nat × List String)} {advertised : Bool} {best : Option Nat}
      {found : List Nat}, (∀ x ∈ executors, x.1 ∈ vs) → (∀ e, best = some e → e ∈ found) →
      found ⊆ vs →
      (scan taskName executors advertised best).Follows remoteDiscipline
        (.run (.scanning vs found)) fun g r =>
          ∃ found', g = .run (.scanning vs found') ∧ ∀ e, r.2 = some e → e ∈ found' := by
  intro executors
  induction executors with
  | nil =>
    intro advertised best found _ hbest _
    exact ⟨found, rfl, hbest⟩
  | cons x rest ih =>
    intro _ best found hvs hbest hfound
    obtain ⟨e, _⟩ := x
    have hrest : ∀ x ∈ rest, x.1 ∈ vs := fun x hx => hvs x (mem_cons_of_mem _ hx)
    have he : e ∈ vs := hvs _ mem_cons_self
    simp only [scan]
    split
    · exact ih hrest hbest hfound
    · refine .bind (follows_ask (.load he) fun free => ?_)
      simp only [Pc.next]
      split
      · exact ih hrest hbest hfound
      · have hgrow : e :: found ⊆ vs := cons_subset.2 ⟨he, hfound⟩
        cases best with
        | none => exact ih hrest (fun e' h' => by cases h'; exact mem_cons_self) hgrow
        | some current =>
          have hcur : current ∈ found := hbest current rfl
          refine .bind (follows_ask (.load (hfound hcur)) fun now => ?_)
          simp only [Pc.next]
          -- the second load can only add the executor it loads, which is found already
          have hgrow' : (if now = 0 then e :: found else current :: e :: found) ⊆ vs := by
            split
            · exact hgrow
            · exact cons_subset.2 ⟨hfound hcur, hgrow⟩
          have hin : ∀ x ∈ e :: found,
              x ∈ if now = 0 then e :: found else current :: e :: found := by
            intro _ hx
            split
            · exact hx
            · exact mem_cons_of_mem _ hx
          split
          · exact ih hrest (fun e' h' => by cases h'; exact hin _ mem_cons_self) hgrow'
          · exact ih hrest
              (fun e' h' => by cases h'; exact hin _ (mem_cons_of_mem _ hcur)) hgrow'

/-- Where `tryAcquire` leaves the placing thread. -/
def Placement.pc : Placement → RunPc
  | .ready e => .reserved e
  | _ => .ready

theorem follows_tryAcquire :
    (tryAcquire taskName).Follows remoteDiscipline (.run .ready) fun g p => g = .run p.pc := by
  refine .bind (follows_ask .lock fun executors => ?_)
  refine .bind ((follows_scan (fun x hx => mem_map_of_mem hx)
    (fun e h => (by cases h)) (nil_subset _)).mono ?_)
  rintro _ ⟨advertised, best⟩ ⟨_, rfl, hbest⟩
  cases best with
  | none =>
    refine .bind (follows_ask .unlock fun _ => ?_)
    cases advertised <;> rfl
  | some e =>
    refine .bind (follows_ask (.reserve (hbest e rfl)) fun _ => ?_)
    exact .bind (follows_ask .unlockChosen fun _ => rfl)

variable {e : Nat} {jobId : JobId}

theorem follows_dispatchTo {disabled : List String} :
    (dispatchTo e job disabled).Follows remoteDiscipline (.run (.reserved e))
      fun g _ => g = .run .ready := by
  refine .bind (follows_ask (.insert job) fun _ => ?_)
  refine .bind (follows_ask (.write job disabled) fun ok => ?_)
  cases ok with
  | true => exact follows_ask .placed fun _ => rfl
  | false =>
    refine .bind (follows_ask .takeBack fun _ => ?_)
    refine .bind (follows_ask .giveBack fun _ => ?_)
    refine .bind (follows_ask .dropExecutor fun _ => ?_)
    exact follows_ask .placed fun _ => rfl

theorem follows_resolveToggles :
    (resolveToggles cfg taskName).Follows remoteDiscipline (.run (.reserved e))
      fun g _ => g = .run (.reserved e) := by
  unfold resolveToggles
  split
  · exact follows_ask (.toggles taskName) fun _ => rfl
  · rfl

theorem follows_failUnplaceable {reason : String} :
    (failUnplaceable job reason).Follows remoteDiscipline (.run .ready)
      fun g _ => g = .run .ready :=
  follows_ask (.unplaceable _) fun _ => rfl

theorem follows_placeOr {wait : Placement → RemoteProg Unit}
    (hwait : ∀ p, (wait p).Follows remoteDiscipline (.run .ready) fun g _ => g = .run .ready) :
    (placeOr cfg job wait).Follows remoteDiscipline (.run .ready) fun g _ => g = .run .ready := by
  have hwaits : ∀ p, (do
      if ← ask .loadShutdown then failUnplaceable job "the dispatcher is shutting down"
      else wait p : RemoteProg Unit).Follows remoteDiscipline (.run .ready)
        fun g _ => g = .run .ready := by
    intro p
    refine .bind (follows_ask .checkShutdown fun down => ?_)
    cases down with
    | true => exact follows_failUnplaceable
    | false => exact hwait p
  refine .bind (follows_tryAcquire.mono ?_)
  rintro g p rfl
  cases p with
  | ready =>
    refine .bind (follows_resolveToggles.mono ?_)
    rintro _ _ rfl
    exact follows_dispatchTo
  | saturated => exact hwaits .saturated
  | unadvertised => exact hwaits .unadvertised

theorem follows_place (cfg : Config) (job : Job) (wakes : Nat) :
    (place cfg job wakes).Follows remoteDiscipline (.run .ready) fun g _ => g = .run .ready := by
  induction wakes with
  | zero => exact follows_placeOr fun p => follows_failUnplaceable
  | succ wakes ih => exact follows_placeOr fun _ => ih

theorem follows_applyProgress {progress : Int}
    (hf : frame.message.intoJobResult frame.payload = none) :
    (applyProgress cfg e jobId progress).Follows remoteDiscipline (.reader e (.handling frame))
      fun g _ => g.Done := by
  unfold applyProgress
  split
  · exact hf
  · refine .bind (follows_ask (.running jobId hf) fun found => ?_)
    cases found with
    | none => trivial
    | some => exact follows_ask (.progress _ rfl) fun _ => trivial

theorem follows_applyTaskLog {level message : String} {extra : Option Bytes}
    (hf : frame.message.intoJobResult frame.payload = none) :
    (applyTaskLog cfg e jobId level message extra).Follows remoteDiscipline
      (.reader e (.handling frame)) fun g _ => g.Done := by
  unfold applyTaskLog
  split
  · exact hf
  · refine .bind (follows_ask (.running jobId hf) fun found => ?_)
    cases found with
    | none => trivial
    | some => exact follows_ask (.log _ rfl rfl rfl) fun _ => trivial

theorem follows_handleOutcome {result : JobResult}
    (hf : frame.message.intoJobResult frame.payload = some result) :
    (handleOutcome cfg e result).Follows remoteDiscipline (.reader e (.handling frame))
      fun g _ => g.Done := by
  refine .bind (follows_ask (.take hf) fun found => ?_)
  cases found with
  | none => trivial
  | some =>
    have hsettle : (settleProgress cfg result.jobId).Follows remoteDiscipline
        (.reader e (.token result.jobId)) fun g _ => g = .reader e (.token result.jobId) := by
      unfold settleProgress
      split
      · exact follows_ask .settle fun _ => rfl
      · rfl
    refine .bind (hsettle.mono ?_)
    rintro _ _ rfl
    refine .bind (follows_ask .pay fun _ => ?_)
    exact follows_ask (.emit result rfl) fun _ => trivial

theorem follows_handleFrame :
    (handleFrame cfg e frame).Follows remoteDiscipline (.reader e (.handling frame))
      fun g _ => g.Done := by
  obtain ⟨message, _⟩ := frame
  cases message with
  | heartbeat => exact follows_ask .shrink fun _ => trivial
  | progress => exact follows_applyProgress rfl
  | taskLog => exact follows_applyTaskLog rfl
  | hello | unknown => rfl
  | success | failure | cancelled =>
    exact follows_handleOutcome rfl

theorem follows_readFrame (cfg : Config) (e : Nat) :
    (readFrame cfg e).Follows remoteDiscipline (.reader e .reading) fun g _ => g.Done := by
  refine .bind (follows_ask .read fun found => ?_)
  cases found with
  | some => exact follows_handleFrame
  | none =>
    refine .bind ?_
    refine .bind (follows_ask .leave fun _ => ?_)
    refine follows_ask .drainInFlight fun _ => ?_
    exact follows_ask .exit fun _ => trivial

/-- The drain only looks at executors and closes them. -/
theorem follows_drainAndClose (polls : Nat) :
    (drainAndClose polls).Follows remoteDiscipline (.run .ready) fun g _ => g.Done := by
  have hbusy : ∀ all es, (anyBusy es).Follows remoteDiscipline (.run (.draining all))
      fun g _ => g = .run (.draining all) := by
    intro _ es
    induction es with
    | nil => rfl
    | cons e rest ih =>
      refine .bind (follows_ask (.isBusy e) fun busy => ?_)
      cases busy with
      | true => rfl
      | false => exact ih
  have hwait : ∀ es polls, (awaitIdle es polls).Follows remoteDiscipline (.run (.draining es))
      fun g _ => g = .run (.draining es) := by
    intro es polls
    induction polls with
    | zero => rfl
    | succ polls ih =>
      refine .bind ((hbusy es es).mono ?_)
      rintro g busy rfl
      cases busy with
      | true => exact ih
      | false => rfl
  refine .bind (follows_ask .drainExecutors fun es => ?_)
  refine .bind ((hwait es polls).mono ?_)
  rintro g _ rfl
  refine (Follows.forEach (fun g : Pc => g = .run (.draining es)) rfl ?_).mono ?_
  · rintro _ he g rfl
    exact follows_ask (.close he) fun _ => rfl
  · rintro _ _ rfl
    trivial

end RemoteDispatcher

def RemoteThread.start : RemoteThread → Pc
  | .run => .run .ready
  | .reader e => .reader e .reading
  | .other _ => .outside

/-- Where a thread is before it has made any call. -/
def RemoteThread.rest : RemoteThread → Pc
  | .run => .run .ready
  | .reader e => .reader e .ended
  | .other _ => .outside

theorem RemoteThread.rest_done (t : RemoteThread) : t.rest.Done := by cases t <;> trivial

/-- A reader only starts on an attached connection, and not after its end. -/
theorem Remote.mayStart_reader {s : Remote} {e : Nat} (h : s.mayStart (.reader e) call = true) :
    e < s.next ∧ (s.conn e).readerOver = false := by
  cases call with
  | readFrame =>
    simp only [mayStart, Bool.and_eq_true, decide_eq_true_eq, Bool.not_eq_true'] at h
    exact ⟨h.1.2, h.2⟩
  | _ => cases h

theorem follows_remoteCall (cfg : RemoteDispatcher.Config) {s : Remote} {t : RemoteThread}
    (h : s.mayStart t call = true) :
    (call.prog cfg).Follows remoteDiscipline t.start fun g _ => g.Done := by
  unfold mayStart at h
  split at h
  · exact (RemoteDispatcher.follows_place cfg _ _).mono fun g _ hg => hg ▸ trivial
  · exact RemoteDispatcher.follows_drainAndClose _
  · next e _ =>
    simp only [Bool.and_eq_true, beq_iff_eq] at h
    obtain ⟨⟨rfl, -⟩, -⟩ := h
    exact RemoteDispatcher.follows_readFrame cfg e
  · exact .bind ((RemoteDispatcher.follows_attach cfg _).mono fun g _ hg => hg ▸ trivial)
  · exact RemoteDispatcher.follows_ask .storeShutdown fun _ => trivial
  · exact RemoteDispatcher.follows_ask (.send _ _) fun _ => trivial
  · cases h

/-! ## What every law starts from -/

namespace Remote

variable (s : Remote) (e : Nat) (f : Executor → Executor)
variable {op : RemoteOp} {env : RemoteEnv}

theorem modify_conn (e' : Nat) :
    (s.modify e f).conn e' = if e' = e then f (s.conn e') else s.conn e' := by
  unfold modify
  split
  · next h =>
    subst h
    exact update_self ..
  · next h => exact update_of_ne h ..

variable {s}

/-- The state with one connection more, registered under the id it announced. -/
def attached (s : Remote) (h : Hello) : Remote :=
  { s with
    next := s.next + 1
    conn := update s.conn s.next (.new h)
    executors := s.executors.insert h.executorId s.next }

/-- A handshake is refused, or admits a connection under a free id. -/
theorem register_exec (h : Hello) (env : RemoteEnv) :
    (exec (.register h) env s).2 = s ∨
      h.executorId ∉ s.executors ∧ (exec (.register h) env s).2 = s.attached h := by
  simp only [exec]
  split
  · exact .inl rfl
  · split
    · exact .inl rfl
    · next hnew => exact .inr ⟨hnew, rfl⟩

theorem next_exec (op : RemoteOp) (env : RemoteEnv) :
    (exec op env s).2.next = s.next ∨
      ∃ h, op = .register h ∧ h.executorId ∉ s.executors ∧ (exec op env s).2 = s.attached h := by
  cases op with
  | register h =>
    obtain hsame | ⟨hnew, hattached⟩ := register_exec (s := s) h env
    · exact .inl (by rw [hsame])
    · exact .inr ⟨h, rfl, hnew, hattached⟩
  | read =>
    refine .inl ?_
    simp only [exec]
    split <;> rfl
  | _ => exact .inl rfl

theorem next_le_exec (op : RemoteOp) (env : RemoteEnv) : s.next ≤ (exec op env s).2.next := by
  obtain hsame | ⟨h, -, -, hattached⟩ := next_exec (s := s) op env
  · exact hsame.ge
  · rw [hattached]
    exact le_succ _

theorem attached_executors (h : Hello) :
    (s.attached h).executors = s.executors.insert h.executorId s.next := rfl

theorem attached_conn_new (h : Hello) : (s.attached h).conn s.next = .new h := update_self ..

/-- Which attached connection an operation changes, and how. -/
def changes (env : RemoteEnv) : RemoteOp → Option (Nat × (Executor → Executor))
  | .reserve e => some (e, fun x => { x with free := x.free - 1 })
  | .release e => some (e, fun x => { x with free := x.free + 1 })
  | .shrink e n => some (e, fun x => { x with free := min x.free n })
  | .insertInFlight e job =>
    some (e, fun x => { x with inFlight := x.inFlight.insert job.id (.of job) })
  | .writeJob e job disabled =>
    if env.ok then some (e, fun x => { x with outbox := x.outbox ++ [(job, disabled)] })
    else some (e, fun x => { x with broken := true })
  | .removeInFlight e j _ => some (e, fun x => { x with inFlight := x.inFlight.erase j })
  | .drainInFlight e => some (e, fun x => { x with inFlight := ∅ })
  | .read e =>
    if env.eof then some (e, fun x => { x with eof := true })
    else some (e, fun x => { x with inbox := x.inbox.tail })
  | .readerExit e => some (e, fun x => { x with readerOver := true })
  | .close e => some (e, fun x => { x with broken := true })
  | .send e frame => some (e, fun x => { x with inbox := x.inbox ++ [frame] })
  | _ => none

/-- A connection after an operation. -/
def changed (env : RemoteEnv) (op : RemoteOp) (e : Nat) (x : Executor) : Executor :=
  match changes env op with
  | some (e', f) => if e = e' then f x else x
  | none => x

theorem conn_exec_of_ne (op : RemoteOp) (env : RemoteEnv) {e : Nat}
    (he : ∀ h, op = .register h → e ≠ s.next) :
    (exec op env s).2.conn e = changed env op e (s.conn e) := by
  cases op with
  | register h =>
    obtain hsame | ⟨-, hattached⟩ := register_exec (s := s) h env
    · rw [hsame]
      rfl
    · rw [hattached]
      exact update_of_ne (he h rfl) _ _
  | writeJob =>
    simp only [exec, changed, changes, modify_conn]
    cases env.ok <;> rfl
  | read =>
    simp only [exec, changed, changes]
    split <;> simp only [modify_conn]
  | _ => simp only [exec, changed, changes, modify_conn]

theorem conn_exec (op : RemoteOp) (env : RemoteEnv) {e : Nat} (he : e < s.next) :
    (exec op env s).2.conn e = changed env op e (s.conn e) :=
  conn_exec_of_ne op env fun _ _ => Nat.ne_of_lt he

/-- What an operation's change keeps, the operation keeps of every attached connection. -/
theorem conn_exec_of_keeps {β : Type} (p : Executor → β)
    (h : ∀ e f, changes env op = some (e, f) → ∀ x, p (f x) = p x) {e : Nat} (he : e < s.next) :
    p ((exec op env s).2.conn e) = p (s.conn e) := by
  rw [conn_exec op env he]
  unfold changed
  split
  · next e' f hc =>
    split
    · exact h e' f hc _
    · rfl
  · rfl

theorem announced_of_changes {e : Nat} {f : Executor → Executor} (h : changes env op = some (e, f))
    (x : Executor) : (f x).id = x.id ∧ (f x).slots = x.slots := by
  unfold changes at h
  split at h <;> first
    | (cases h; exact ⟨rfl, rfl⟩)
    | (split at h <;> (cases h; exact ⟨rfl, rfl⟩))
    | cases h

theorem id_exec (op : RemoteOp) (env : RemoteEnv) {e : Nat} (he : e < s.next) :
    ((exec op env s).2.conn e).id = (s.conn e).id :=
  conn_exec_of_keeps Executor.id (fun _ _ h x => (announced_of_changes h x).1) he

theorem slots_exec (op : RemoteOp) (env : RemoteEnv) {e : Nat} (he : e < s.next) :
    ((exec op env s).2.conn e).slots = (s.conn e).slots :=
  conn_exec_of_keeps Executor.slots (fun _ _ h x => (announced_of_changes h x).2) he

/-- What another connection's operation does not touch. -/
theorem changed_of_ne {e e' : Nat} {f : Executor → Executor} (hc : changes env op = some (e', f))
    (h : e ≠ e') (x : Executor) : changed env op e x = x := by
  unfold changed
  rw [hc]
  exact if_neg h

/-- The registry maps an id to an attached connection that announced it. -/
def Keyed (s : Remote) : Prop :=
  ∀ id e, s.executors.lookup id = some e → e < s.next ∧ (s.conn e).id = id

theorem Keyed.registered (h : s.Keyed) {id : String} {e : Nat}
    (hl : s.executors.lookup id = some e) : s.Registered e := by
  unfold Registered
  rw [(h id e hl).2]
  exact hl

theorem Keyed.of_values (h : s.Keyed) {e : Nat} (he : e ∈ s.values) : s.Registered e := by
  obtain ⟨⟨_, _⟩, hmem, rfl⟩ := mem_map.1 he
  exact h.registered (mem_lookup_iff.2 hmem)

theorem Keyed.lt (h : s.Keyed) {e : Nat} (he : s.Registered e) : e < s.next := (h _ e he).1

/-- How the registry changes: an operation registers the next connection under a free id, takes
one id out, or empties it. -/
theorem executors_exec (op : RemoteOp) (env : RemoteEnv) (id : String) (e : Nat)
    (h : (exec op env s).2.executors.lookup id = some e) :
    s.executors.lookup id = some e ∨
      ∃ hello, op = .register hello ∧ id = hello.executorId ∧ e = s.next ∧
        hello.executorId ∉ s.executors ∧ (exec op env s).2 = s.attached hello := by
  cases op with
  | register hello =>
    obtain hsame | ⟨hnew, hattached⟩ := register_exec (s := s) hello env
    · rw [hsame] at h
      exact .inl h
    · rw [hattached] at h ⊢
      by_cases hid : id = hello.executorId
      · subst hid
        rw [attached_executors, lookup_insert] at h
        exact .inr ⟨hello, rfl, rfl, (Option.some.inj h).symm, hnew, rfl⟩
      · rw [attached_executors, lookup_insert_ne hid] at h
        exact .inl h
  | deregister e' =>
    simp only [exec] at h
    by_cases hid : id = (s.conn e').id
    · subst hid
      rw [lookup_erase] at h
      cases h
    · rw [lookup_erase_ne hid] at h
      exact .inl h
  | drainExecutors => cases h
  | read =>
    simp only [exec] at h
    split at h <;> exact .inl h
  | _ => exact .inl h

theorem Keyed.exec (h : s.Keyed) (op : RemoteOp) (env : RemoteEnv) :
    (Remote.exec op env s).2.Keyed := by
  intro id e hl
  obtain hold | ⟨hello, -, rfl, rfl, -, hs⟩ := executors_exec op env id e hl
  · obtain ⟨he, hid⟩ := h id e hold
    exact ⟨lt_of_lt_of_le he (next_le_exec op env), (id_exec op env he).trans hid⟩
  · rw [hs, attached_conn_new]
    exact ⟨lt_succ_self _, rfl⟩

end Remote

/-- The place is one of the thread's. -/
def RemoteThread.Home : RemoteThread → Pc → Prop
  | .run, .run _ => True
  | .reader e, .reader e' _ => e = e'
  | .other _, .outside => True
  | _, _ => False

variable {t : RemoteThread} {e : Nat}

theorem RemoteThread.Home.run {p : RunPc} (h : t.Home (.run p)) : t = .run := by
  cases t <;> trivial

theorem RemoteThread.Home.reader {p : ReaderPc} (h : t.Home (.reader e p)) : t = .reader e := by
  cases t with
  | reader => exact congrArg _ h
  | _ => cases h

/-- Where the placing thread and a reader may return. -/
theorem RemoteThread.Home.run_done (h : RemoteThread.run.Home g) (hd : g.Done) :
    g = .run .ready ∨ ∃ es, g = .run (.draining es) := by
  rcases g with _ | p | _
  · cases h
  · cases p with
    | ready => exact .inl rfl
    | draining es => exact .inr ⟨es, rfl⟩
    | _ => cases hd
  · cases h

theorem RemoteThread.Home.reader_done (h : (RemoteThread.reader e).Home g) (hd : g.Done) :
    g = .reader e .idle ∨ g = .reader e .ended ∨
      ∃ f, g = .reader e (.handling f) ∧ f.message.intoJobResult f.payload = none := by
  rcases g with _ | _ | ⟨e', p⟩
  · cases h
  · cases h
  · obtain rfl : e = e' := h
    cases p with
    | idle => exact .inl rfl
    | ended => exact .inr (.inl rfl)
    | handling f => exact .inr (.inr ⟨f, rfl, hd⟩)
    | _ => cases hd

theorem RemoteThread.Home.next (h : t.Home g) (op : RemoteOp) (r : op.Res) :
    t.Home (g.next op r) := by
  unfold Pc.next
  split <;> cases t <;> exact h

/-- Where the placing thread is, and where a reader is. -/
def Pc.runPc : Pc → RunPc
  | .run p => p
  | _ => .ready

@[inherit_doc Pc.runPc]
def Pc.readerPc : Pc → ReaderPc
  | .reader _ p => p
  | _ => .ended

namespace RunPc

/-- The placing thread holds the registry lock. -/
def locks : RunPc → Bool
  | scanning _ _ | chosen _ => true
  | _ => false

/-- The executor a slot of which is reserved for the job being placed. -/
def target : RunPc → Option Nat
  | chosen e | reserved e | inserted e _ | unsent e _ | dropped e | released e | settled e => some e
  | _ => none

/-- The executors the placing thread relies on while it holds the lock. -/
def walks : RunPc → List Nat
  | scanning vs _ => vs
  | chosen e => [e]
  | _ => []

/-- The executors whose counter was loaded as nonzero during the scan. -/
def found : RunPc → List Nat
  | scanning _ found => found
  | _ => []

theorem locks_of_walks {p : RunPc} (h : e ∈ p.walks) : p.locks = true := by
  cases p <;> first | rfl | cases h

end RunPc

theorem changed_of_reader {e₀ : Nat} {p : ReaderPc} {op : RemoteOp} (env : RemoteEnv)
    (hp : (Pc.reader e₀ p).Permits op) (h : e ≠ e₀) (x : Executor) :
    Remote.changed env op e x = x := by
  cases hp with
  | read =>
    unfold changed changes
    cases env.eof <;> exact if_neg h
  | _ => first | rfl | exact if_neg h

structure Placed (s : Remote) (G : RemoteThread → Pc) : Prop where
  home : ∀ t : RemoteThread, t.Home (G t)
  keyed : s.Keyed
  lock : s.locked = (G .run).runPc.locks
  placing : s.placing = (G .run).runPc.target
  walks : ∀ e ∈ (G .run).runPc.walks, s.Registered e
  found : (G .run).runPc.found ⊆ (G .run).runPc.walks
  target : ∀ e, s.placing = some e → e < s.next
  attached : ∀ e p, G (.reader e) = .reader e p → p ≠ .ended → e < s.next

namespace Placed

variable {s : Remote} {G : RemoteThread → Pc} {t : RemoteThread} {op : RemoteOp} {env : RemoteEnv}

theorem run_of_ne (ht : t ≠ .run) : update G t g .run = G .run :=
  update_of_ne (ht.symm) ..

theorem init : Placed .init RemoteThread.rest where
  home t := by cases t <;> trivial
  keyed id e h := by cases h
  lock := rfl
  placing := rfl
  walks e h := by cases h
  found := nil_subset _
  target e h := by cases h
  attached e p h hp := by
    cases h
    exact absurd rfl hp

variable (s env) in
/-- Only the placing thread takes the lock, gives it back, or changes the reservation. -/
theorem lock_exec_of_ne (h : t.Home (G t)) (ht : t ≠ .run) (hp : (G t).Permits op) :
    (Remote.exec op env s).2.locked = s.locked ∧ (Remote.exec op env s).2.placing = s.placing := by
  generalize G t = g at h hp
  cases hp <;> first
    | exact absurd h.run ht
    | exact ⟨rfl, rfl⟩
    | (simp only [exec]; split <;> first | exact ⟨rfl, rfl⟩ | (split <;> exact ⟨rfl, rfl⟩))

/-- A registered executor stays registered while the lock is held. -/
theorem registered_of_locked (hk : s.Keyed) (hl : s.locked = true) (hm : s.mayStep env op = true)
    (he : s.Registered e) : (Remote.exec op env s).2.Registered e := by
  have hid := id_exec op env (hk.lt he)
  unfold Remote.Registered
  rw [hid]
  cases op with
  | register | deregister | drainExecutors => simp [mayStep, hl] at hm
  | read =>
    simp only [exec]
    split <;> exact he
  | _ => exact he

/-- How the placing thread's own operations move the lock, the reservation and what it relies
on. -/
theorem run_step (h : Placed s G) (hp : (G .run).Permits op) (hm : s.mayStep env op = true) :
    let p := ((G .run).next op (exec op env s).1).runPc
    (exec op env s).2.locked = p.locks ∧ (exec op env s).2.placing = p.target ∧
      p.found ⊆ p.walks ∧ (∀ e ∈ p.walks, (exec op env s).2.Registered e) ∧
      ∀ e, p.target = some e → e < s.next := by
  obtain ⟨hhome, hkeyed, hlock, hplacing, hwalks, hfound, htarget, -⟩ := h
  have hhome := hhome .run
  generalize hg : G .run = g at hp hlock hplacing hwalks hfound hhome
  have hnil : ∀ e ∈ ([] : List Nat), (exec op env s).2.Registered e := nofun
  cases hp with
  | lock =>
    refine ⟨rfl, hplacing, nil_subset _, fun e he => ?_, nofun⟩
    simp only [Pc.next, Pc.runPc, RunPc.walks, exec, map_map, mem_map,
      Function.comp] at he
    obtain ⟨e', he', rfl⟩ := he
    have hmem : e' ∈ s.values := by
      unfold arranged at he'
      split at he'
      · next hperm => exact (isPerm_iff.1 hperm).mem_iff.1 he'
      · exact he'
    exact hkeyed.of_values hmem
  | @load vs found e he =>
    refine ⟨hlock, hplacing, ?_, hwalks, nofun⟩
    simp only [Pc.next, Pc.runPc, RunPc.found, RunPc.walks]
    split
    · exact hfound
    · exact cons_subset.2 ⟨he, hfound⟩
  | @reserve vs found e he =>
    have hreg := hwalks e (hfound he)
    refine ⟨hlock, rfl, nil_subset _, fun e' he' => ?_, fun e' he' => ?_⟩
    · obtain rfl := mem_singleton.1 he'
      exact registered_of_locked hkeyed hlock hm hreg
    · cases he'
      exact hkeyed.lt hreg
  | unlock => exact ⟨rfl, hplacing, nil_subset _, hnil, nofun⟩
  | unlockChosen =>
    exact ⟨rfl, hplacing, nil_subset _, hnil, fun e he => htarget e (hplacing.trans he)⟩
  | write =>
    have htg : ∀ e', some _ = some e' → e' < s.next := fun e' he' => htarget e' (hplacing.trans he')
    obtain ⟨ok, _, _, _⟩ := env
    cases ok <;> exact ⟨hlock, hplacing, nil_subset _, hnil, htg⟩
  | placed => exact ⟨hlock, rfl, nil_subset _, hnil, nofun⟩
  | _ =>
    first
    | exact ⟨hlock, hplacing, nil_subset _, hnil, fun e he => htarget e (hplacing.trans he)⟩
    | exact absurd hhome (fun h => h)

theorem step (h : Placed s G) (hp : (G t).Permits op) (hm : s.mayStep env op = true) :
    Placed (Remote.exec op env s).2 (update G t ((G t).next op (Remote.exec op env s).1)) := by
  have hnext := next_le_exec (s := s) op env
  have hhome : ∀ u : RemoteThread, u.Home
      (update G t ((G t).next op (exec op env s).1) u) :=
    (forall_update_iff G fun u g => u.Home g).2 ⟨(h.home t).next op _, fun u _ => h.home u⟩
  have hattached : ∀ e p, update G t ((G t).next op (exec op env s).1)
      (.reader e) = .reader e p → p ≠ .ended → e < (exec op env s).2.next := by
    intro e p hgp hne
    refine lt_of_lt_of_le ?_ hnext
    by_cases hu : .reader e = t
    · subst hu
      -- a reader that moves was not over before
      have hhere := h.home (.reader e)
      have hatt := h.attached e
      generalize G (.reader e) = g at hp hhere hatt
      cases hp <;> first
        | exact absurd hhere (fun h => h)
        | (cases hhere; exact hatt _ rfl (nofun))
    · rw [update_of_ne hu] at hgp
      exact h.attached e p hgp hne
  by_cases ht : t = .run
  · subst ht
    obtain ⟨hl, hpl, hf, hw, htg⟩ := h.run_step hp hm
    refine ⟨hhome, h.keyed.exec op env, ?_, ?_, ?_, ?_, ?_, hattached⟩
    all_goals try rw [update_self]
    · exact hl
    · exact hpl
    · exact hw
    · exact hf
    · intro e he
      exact lt_of_lt_of_le (htg e (hpl.symm.trans he)) hnext
  · obtain ⟨hl, hpl⟩ := lock_exec_of_ne s env (h.home t) ht hp
    refine ⟨hhome, h.keyed.exec op env, ?_, ?_, ?_, ?_, ?_, hattached⟩
    all_goals try rw [run_of_ne ht]
    · exact hl.trans h.lock
    · exact hpl.trans h.placing
    · intro e he
      exact registered_of_locked h.keyed (h.lock.trans (RunPc.locks_of_walks he)) hm (h.walks e he)
    · exact h.found
    · intro e he
      exact lt_of_lt_of_le (h.target e (hpl.symm.trans he)) hnext

theorem start (h : Placed s G) (hdone : (G t).Done) (hm : s.mayStart t call = true) :
    Placed s (update G t t.start) := by
  have hhome : ∀ u : RemoteThread, u.Home (update G t t.start u) :=
    (forall_update_iff G fun u g => u.Home g).2 ⟨by cases t <;> trivial, fun u _ => h.home u⟩
  have hattached : ∀ e p, update G t t.start (.reader e) = .reader e p → p ≠ .ended →
      e < s.next := by
    intro e p hgp hne
    by_cases hu : .reader e = t
    · subst hu
      exact (mayStart_reader hm).1
    · rw [update_of_ne hu] at hgp
      exact h.attached e p hgp hne
  by_cases ht : t = .run
  · subst ht
    -- where the placing thread may return it neither holds the lock nor a reservation
    have hhere := (h.home .run).run_done hdone
    obtain ⟨-, hkeyed, hlock, hplacing, -, -, htarget, -⟩ := h
    refine ⟨hhome, hkeyed, ?_, ?_, ?_, ?_, htarget, hattached⟩
    all_goals rw [update_self]
    · obtain hg | ⟨es, hg⟩ := hhere <;> rw [hg] at hlock <;> exact hlock
    · obtain hg | ⟨_, hg⟩ := hhere <;> rw [hg] at hplacing <;> exact hplacing
    · intro _ he
      cases he
    · exact nil_subset _
  · refine ⟨hhome, h.keyed, ?_, ?_, ?_, ?_, h.target, hattached⟩
    all_goals rw [run_of_ne ht]
    · exact h.lock
    · exact h.placing
    · exact h.walks
    · exact h.found

end Placed

/-! ## Concrete runs -/

/-- No credential, no side-channel. -/
def plainRemote : RemoteDispatcher.Config := ⟨none, false, fun _ => none⟩

/-- The first frame of an executor that runs the task `t`. -/
def plainHello (id : String) (slots : UInt32) : ExecutorMessage :=
  .hello ⟨id, ["t"], slots, protocolVersion, none⟩

/-- A job of the task `t`. -/
def plainJob (id : JobId) : Job := (NewJob.plain "q" "t").intoJob id 0

/-- A thread makes a call and so many of its operations, in a calm world. -/
def remoteMoves (cfg : RemoteDispatcher.Config) (t : RemoteThread) (call : RemoteCall) (n : Nat) :
    List (Move remoteMachine (remoteClients cfg) RemoteThread) :=
  .start t call :: List.replicate n (.step t RemoteEnv.calm)

end Flexiq
