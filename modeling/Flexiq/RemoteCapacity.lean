import Flexiq.RemoteSession
import Flexiq.RemoteSlots

/-!
# Capacity of a remote executor

The scheduler counts an executor's free slots by itself and lets heartbeats only lower the count.
The executor writes a result **before** it counts the job as finished, so a heartbeat can carry a
value from before the result and still arrive after it: the scheduler gives the slot back, and the
stale heartbeat takes it away for good.

While every heartbeat is fresh when it is written — it leaves out no more slots than there are jobs
received and not yet answered — no heartbeat ever lowers the count, and the ledger of the
connection is exact: every slot is free, reserved, or taken by a job that is on its way out, held
by the executor, or on its way back. A job dispatched twice at a time would share one entry of the
in-flight map, so the account also needs that the scheduler does not do that.
-/

namespace Flexiq

open JobResult (jobId)

open Function List Option Remote AList Bool Nat ExecutorSession

/-! ## Where a thread of the executor is -/

/-- What a thread of the executor has taken and not yet passed on. -/
inductive SessionPc where
  | accept (held : Option Job)
  | results (held : Option JobResult)
  | heartbeat (read : Option UInt32)
  | worker

namespace SessionPc

/-- The operations a thread may perform where it is. -/
inductive Permits : SessionPc → SessionOp → Prop
  | jobSender {g} : Permits g .jobSender
  | loadDraining {g} : Permits g .loadDraining
  | countStarted {g} : Permits g .countStarted
  | countFinished {g} : Permits g .countFinished
  | loadInFlight {g} : Permits g .loadInFlight
  | storeFree {g} (n) : Permits g (.storeFree n)
  | receive : Permits (.accept none) .receive
  | trySend {job} : Permits (.accept (some job)) (.trySend job)
  | decline {job r} (h : r.jobId = job.id) :
      Permits (.accept (some job)) (.send (.fromJobResult r))
  | takeResult : Permits (.results none) .takeResult
  | report {held} (report : SideReport) : Permits (.results held) (.send report.frame)
  | answer {r} : Permits (.results (some r)) (.send (.fromJobResult r))
  | loadFree : Permits (.heartbeat none) .loadFree
  | beat {n} : Permits (.heartbeat (some n)) (.send ⟨.heartbeat n, []⟩)
  | startJob : Permits .worker .startJob
  | finishJob (i o) : Permits .worker (.finishJob i o)

/-- Where the answer of an operation takes a thread. -/
def next : SessionPc → (op : SessionOp) → op.Res → SessionPc
  | .accept none, .receive, r => .accept r
  | .accept (some job), .trySend _, r => .accept (if r = .ok then none else some job)
  | .accept (some _), .send _, _ => .accept none
  | .results none, .takeResult, r => .results r
  | .results held, .send f, _ => .results (bif f.result.isSome then none else held)
  | .heartbeat none, .loadFree, n => .heartbeat (some n)
  | .heartbeat _, .send _, _ => .heartbeat none
  | pc, _, _ => pc

/-- The thread may return here: it has passed everything on. -/
def Done : SessionPc → Prop
  | .accept none | .results none | .heartbeat none | .worker => True
  | _ => False

end SessionPc

def sessionDiscipline : Discipline sessionSig SessionPc where
  permits := SessionPc.Permits
  expects _ _ _ := True
  next := SessionPc.next
  done := SessionPc.Done

namespace RemoteExecutor

open Prog

variable {op : SessionOp} {g : SessionPc} {slots : UInt32}

theorem follows_ask {Q : SessionPc → op.Res → Prop}
    (hp : g.Permits op) (h : ∀ r, Q (g.next op r) r) :
    (ask op).Follows sessionDiscipline g Q :=
  ⟨hp, fun r _ => h r⟩

/-- The bookkeeping of the published capacity. -/
def Counts : SessionOp → Prop
  | .jobSender | .loadDraining | .countStarted | .countFinished |
    .loadInFlight | .storeFree _ => True
  | _ => False

/-- Bookkeeping takes a thread nowhere. -/
theorem Counts.stays (h : Counts op) (g : SessionPc) : g.Permits op ∧ ∀ r, g.next op r = g := by
  cases op
  case jobSender | loadDraining | countStarted | countFinished | loadInFlight | storeFree =>
    refine ⟨by constructor, fun _ => ?_⟩
    unfold SessionPc.next
    split <;> trivial
  all_goals cases h

theorem calls_publishFree : (publishFree slots).Calls Counts := by
  refine .bind (.perform trivial) fun draining => ?_
  cases draining with
  | true => trivial
  | false =>
    refine .bind (.perform trivial) fun running => ?_
    exact .perform trivial

theorem follows_jobStarted : (jobStarted slots).Follows sessionDiscipline g fun g' _ => g' = g :=
  (Calls.bind (Calls.perform trivial) fun _ => calls_publishFree).follows
    fun _ hop => hop.stays g

theorem follows_jobFinished : (jobFinished slots).Follows sessionDiscipline g fun g' _ => g' = g :=
  (Calls.bind (Calls.perform trivial) fun _ => calls_publishFree).follows
    fun _ hop => hop.stays g

theorem follows_decline {job : Job} {reason : String} :
    (decline job reason).Follows sessionDiscipline (.accept (some job)) fun g _ => g.Done :=
  follows_ask (.decline rfl) fun _ => trivial

theorem follows_acceptJob (slots : UInt32) :
    (acceptJob slots).Follows sessionDiscipline (.accept none) fun g _ => g.Done := by
  refine .bind (follows_ask .receive fun received => ?_)
  cases received with
  | none => trivial
  | some =>
    refine .bind (follows_ask .jobSender fun accepting => ?_)
    cases accepting with
    | false => exact follows_decline
    | true =>
      refine .bind (follows_jobStarted.mono ?_)
      rintro g _ rfl
      refine .bind (follows_ask .trySend fun sent => ?_)
      cases sent with
      | ok => trivial
      | full | closed =>
        refine .bind (follows_jobFinished.mono ?_)
        rintro _ _ rfl
        exact follows_decline

theorem follows_flushSideChannel (reports : List SideReport) (held : Option JobResult) :
    (flushSideChannel reports).Follows sessionDiscipline (.results held)
      fun g _ => g = .results held := by
  refine Follows.forEach (fun g : SessionPc => g = .results held) rfl ?_
  rintro report - _ rfl
  refine follows_ask (.report report) fun _ => ?_
  simp only [SessionPc.next, SideReport.result_frame, isSome_none, cond_false]

theorem follows_resultLoop (slots : UInt32) (reports : List SideReport) :
    (resultLoop slots reports).Follows sessionDiscipline (.results none) fun g _ => g.Done := by
  refine .bind (follows_ask .takeResult fun taken => ?_)
  cases taken with
  | none => trivial
  | some result =>
    refine .bind ((follows_flushSideChannel reports (some result)).mono ?_)
    rintro g _ rfl
    refine .bind (follows_ask .answer fun _ => ?_)
    simp only [SessionPc.next, Frame.result_fromJobResult, isSome_some, cond_true]
    exact follows_jobFinished.mono fun g _ hg => hg ▸ trivial

theorem follows_heartbeat :
    heartbeat.Follows sessionDiscipline (.heartbeat none) fun g _ => g.Done := by
  refine .bind (follows_ask .loadDraining fun draining => ?_)
  cases draining with
  | true => trivial
  | false =>
    refine .bind (follows_ask .loadFree fun free => ?_)
    exact follows_ask .beat fun _ => trivial

end RemoteExecutor

/-! ## Both ends -/

/-- Where a thread of either end is. -/
abbrev LinkPc := Pc ⊕ SessionPc

/-- The discipline of both ends. -/
def linkDiscipline : Discipline linkSig LinkPc := remoteDiscipline.sum sessionDiscipline

namespace LinkThread

/-- The place is one of the thread's. -/
def Home : LinkThread → LinkPc → Prop
  | .run, .inl g => RemoteThread.run.Home g
  | .reader, .inl g => (RemoteThread.reader 0).Home g
  | .accept, .inr (.accept _) | .results, .inr (.results _) | .heartbeat, .inr (.heartbeat _)
  | .worker _, .inr .worker => True
  | _, _ => False

def start : LinkThread → LinkPc
  | .run => .inl (.run .ready)
  | .reader => .inl (.reader 0 .reading)
  | .accept => .inr (.accept none)
  | .results => .inr (.results none)
  | .heartbeat => .inr (.heartbeat none)
  | .worker _ => .inr .worker

/-- Where a thread is before it has made any call. -/
def rest : LinkThread → LinkPc
  | .reader => .inl (.reader 0 .ended)
  | t => t.start

theorem rest_done (t : LinkThread) : linkDiscipline.done t.rest := by cases t <;> trivial

end LinkThread

open Prog in
theorem follows_linkCall {cfg : RemoteDispatcher.Config} {slots : UInt32} {s : Remote}
    {t : LinkThread} {call : LinkCall} (h : linkMayStart s t call = true) :
    (call.prog cfg slots).Follows linkDiscipline t.start fun g _ => linkDiscipline.done g := by
  have hleft : ∀ {p : RemoteProg Unit} {g : Pc},
      p.Follows remoteDiscipline g (fun g _ => g.Done) →
      p.left.Follows linkDiscipline (.inl g) fun g _ => linkDiscipline.done g := by
    intro p g hp
    refine hp.left.mono ?_
    rintro _ _ ⟨_, rfl, hg⟩
    exact hg
  have hright : ∀ {p : SessionProg Unit} {g : SessionPc},
      p.Follows sessionDiscipline g (fun g _ => g.Done) →
      p.right.Follows linkDiscipline (.inr g) fun g _ => linkDiscipline.done g := by
    intro _ g hp
    refine hp.right.mono ?_
    rintro _ _ ⟨_, rfl, hg⟩
    exact hg
  unfold linkMayStart at h
  split at h
  · exact hleft (RemoteDispatcher.follows_readFrame cfg 0)
  · exact hleft ((RemoteDispatcher.follows_place cfg _ _).mono fun g _ hg => hg ▸ trivial)
  · exact hright (RemoteExecutor.follows_acceptJob slots)
  · exact hright (RemoteExecutor.follows_resultLoop slots _)
  · exact hright ((RemoteExecutor.follows_flushSideChannel _ none).mono fun g _ hg => hg ▸ trivial)
  · exact hright RemoteExecutor.follows_heartbeat
  · exact hright (RemoteExecutor.follows_ask .startJob fun _ => trivial)
  · exact hright (RemoteExecutor.follows_ask (.finishJob _ _) fun _ => trivial)
  · cases h

/-! ## The ledger of a connection -/

def resultIds (frames : List Frame) : List JobId :=
  frames.filterMap fun f => f.result.map JobResult.jobId

theorem resultIds_append (fs gs : List Frame) :
    resultIds (fs ++ gs) = resultIds fs ++ resultIds gs := filterMap_append

theorem resultIds_of_none {f : Frame} (h : f.result = none) : resultIds [f] = [] := by
  simp [resultIds, h]

theorem resultIds_of_some {f : Frame} {r : JobResult} (h : f.result = some r) :
    resultIds [f] = [r.jobId] := by
  simp [resultIds, h]

/-- Every heartbeat among the frames leaves out no more slots than jobs that are answered after it
or not answered at all; so many are not. -/
def Fresh (slots unanswered : Nat) : List Frame → Prop
  | [] => True
  | f :: rest =>
    (∀ n, f.message = .heartbeat n → slots ≤ n.toNat + (resultIds rest).length + unanswered) ∧
      Fresh slots unanswered rest

namespace Fresh

variable {slots u u' : Nat} {fs : List Frame}

theorem mono (h : Fresh slots u fs) (hu : u ≤ u') : Fresh slots u' fs := by
  induction fs with
  | nil => trivial
  | cons f rest ih =>
    refine ⟨fun n hn => ?_, ih h.2⟩
    have := h.1 n hn
    omega

theorem of_append {gs : List Frame} (h : Fresh slots u (gs ++ fs)) : Fresh slots u fs := by
  induction gs with
  | nil => exact h
  | cons f rest ih => exact ih h.2

theorem concat (h : Fresh slots u fs) (f : Frame) (hu : u ≤ u' + (resultIds [f]).length)
    (hf : ∀ n, f.message = .heartbeat n → slots ≤ n.toNat + u') : Fresh slots u' (fs ++ [f]) := by
  induction fs with
  | nil => exact ⟨fun n hn => Nat.le_trans (hf n hn) (Nat.add_le_add_right (Nat.le_add_right ..) _),
      trivial⟩
  | cons g rest ih =>
    refine ⟨fun n hn => ?_, ih h.2⟩
    have hbefore := h.1 n hn
    have hmore : (resultIds (rest ++ [f])).length =
        (resultIds rest).length + (resultIds [f]).length := by
      rw [resultIds_append, length_append]
    exact hmore ▸ (by omega)

end Fresh

/-- The job in flight that is not written yet. -/
def RunPc.unwritten : RunPc → List JobId
  | .inserted _ j => [j]
  | _ => []

def ReaderPc.frames : ReaderPc → List Frame
  | .handling f => [f]
  | _ => []

open ReaderPc (frames handling returns)

/-- The ledger of connection 0, from both ends: `p` and `q` are the places of the dispatcher's
threads, `a` and `b` what the executor's reader and its result loop hold. -/
structure Ledger (slots : UInt32) (x : Executor) (y : ExecutorSession) (p : RunPc) (q : ReaderPc)
    (a : Option Job) (b : Option JobResult) : Prop where
  /-- Every slot is free, reserved, taken by a job in flight or on its way back. -/
  account : x.free.toNat + x.inFlight.keys.length + p.reservedFor 0 + q.returns = slots.toNat
  positive : 0 ∈ p.found → x.free ≠ 0
  /-- A job in flight is about to be written, on its way, not answered, or its result is on its
  way back. -/
  entries : x.inFlight.keys.Perm (p.unwritten ++ x.outbox.map (fun d => d.1.id) ++ y.unanswered ++
    resultIds (q.frames ++ x.inbox))
  /-- A job not answered is somewhere in the executor. -/
  held : y.unanswered.Perm (a.toList.map Job.id ++ y.queue.map Job.id ++ y.running.map Job.id ++
    y.results.map JobResult.jobId ++ b.toList.map JobResult.jobId)
  fresh : Fresh slots.toNat y.unanswered.length (q.frames ++ x.inbox)

namespace Ledger

variable {slots : UInt32} {x : Executor} {y : ExecutorSession} {p : RunPc} {q : ReaderPc}
  {a : Option Job} {b : Option JobResult}

/-- The placing thread moves on and takes no part of the ledger with it. -/
theorem run (h : Ledger slots x y p q a b) (p' : RunPc)
    (hres : p'.reservedFor 0 = p.reservedFor 0) (hun : p'.unwritten = p.unwritten)
    (hpos : 0 ∈ p'.found → x.free ≠ 0) : Ledger slots x y p' q a b where
  account := by rw [hres]; exact h.account
  positive := hpos
  entries := by rw [hun]; exact h.entries
  held := h.held
  fresh := h.fresh

theorem reader (h : Ledger slots x y p q a b) (q' : ReaderPc) (hret : q'.returns = q.returns)
    (hframes : ∃ fs, q.frames = fs ++ q'.frames ∧ resultIds fs = []) :
    Ledger slots x y p q' a b where
  account := by rw [hret]; exact h.account
  positive := h.positive
  entries := by
    obtain ⟨fs, hq, hnone⟩ := hframes
    have hids : resultIds (q.frames ++ x.inbox) = resultIds (q'.frames ++ x.inbox) := by
      rw [hq, append_assoc, resultIds_append, hnone, nil_append]
    rw [← hids]
    exact h.entries
  held := h.held
  fresh := by
    obtain ⟨_, hq, -⟩ := hframes
    have := h.fresh
    rw [hq, append_assoc] at this
    exact this.of_append

theorem reserve {vs found : List Nat} (h : Ledger slots x y (.scanning vs found) q a b)
    (hf : 0 ∈ found) : Ledger slots { x with free := x.free - 1 } y (.chosen 0) q a b where
  account := by
    have := toNat_sub_one (h.positive hf)
    have hacc := h.account
    simp only [RunPc.reservedFor, if_true] at hacc ⊢
    omega
  positive hmem := by cases hmem
  entries := h.entries
  held := h.held
  fresh := h.fresh

theorem insert (h : Ledger slots x y (.reserved 0) q a b) (job : Job)
    (hnew : job.id ∉ x.inFlight.keys) :
    Ledger slots { x with inFlight := x.inFlight.insert job.id (.of job) } y
      (.inserted 0 job.id) q a b := by
  have hkeys : (x.inFlight.insert job.id (.of job)).keys = job.id :: x.inFlight.keys := by
    rw [keys_insert, erase_of_not_mem hnew]
  refine ⟨?_, nofun, ?_, h.held, h.fresh⟩
  · have hacc := h.account
    simp only [hkeys, length_cons, RunPc.reservedFor, if_true] at hacc ⊢
    omega
  · simp only [hkeys]
    exact h.entries.cons job.id

variable {job : Job} {f : Frame}

theorem write (h : Ledger slots x y (.inserted 0 job.id) q a b) (disabled : List String) :
    Ledger slots { x with outbox := x.outbox ++ [(job, disabled)] } y (.settled 0) q a b where
  account := h.account
  positive hmem := by cases hmem
  entries := by
    refine h.entries.trans (perm_iff_count.2 fun j => ?_)
    simp only [RunPc.unwritten, map_append, map_cons, map_nil, count_append,
      count_nil]
    omega
  held := h.held
  fresh := h.fresh

theorem read {fs : List Frame} (h : Ledger slots x y p .reading a b) (hin : x.inbox = f :: fs) :
    Ledger slots { x with inbox := x.inbox.tail } y p (.handling f) a b where
  account := h.account
  positive := h.positive
  entries := by
    have := h.entries
    simp only [frames, nil_append] at this
    simpa only [hin, frames, tail_cons, singleton_append] using this
  held := h.held
  fresh := by
    have := h.fresh
    simp only [frames, nil_append] at this
    simpa only [hin, frames, tail_cons, singleton_append] using this

/-- A fresh heartbeat changes nothing. -/
theorem shrink {n : UInt32} {payload : Bytes}
    (h : Ledger slots x y p (.handling ⟨.heartbeat n, payload⟩) a b) : min x.free n = x.free := by
  have hacc := h.account
  have hfresh : slots.toNat ≤ n.toNat + (resultIds x.inbox).length + y.unanswered.length :=
    h.fresh.1 n rfl
  have hlen := h.entries.length_eq
  rw [length_append, length_append] at hlen
  have hids : resultIds ((handling ⟨.heartbeat n, payload⟩).frames ++ x.inbox) =
      resultIds x.inbox := rfl
  rw [hids] at hlen
  have hle : x.free ≤ n := UInt32.le_iff_toNat_le.2 (by omega)
  rw [show min x.free n = if x.free ≤ n then x.free else n from rfl, if_pos hle]

theorem take {r : JobResult} (h : Ledger slots x y p (.handling f) a b) (hf : f.result = some r) :
    (x.inFlight.lookup r.jobId).isSome = true ∧
      Ledger slots { x with inFlight := x.inFlight.erase r.jobId } y p (.token r.jobId) a b := by
  have hids : resultIds ((handling f).frames ++ x.inbox) = r.jobId :: resultIds x.inbox := by
    rw [frames, resultIds_append, resultIds_of_some hf, singleton_append]
  have hent := h.entries
  rw [hids] at hent
  have hmem : r.jobId ∈ x.inFlight.keys := hent.mem_iff.2 (by simp)
  have hsome : (x.inFlight.lookup r.jobId).isSome = true := lookup_isSome.2 (mem_keys.2 hmem)
  refine ⟨hsome, ?_, h.positive, ?_, h.held, h.fresh.of_append⟩
  · have hacc := h.account
    have hlen := RemoteSlots.length_keys_erase hsome
    simp only [returns] at hacc ⊢
    omega
  · refine perm_iff_count.2 fun j => ?_
    have hcount := perm_iff_count.1 hent j
    simp only [keys_erase, count_erase, frames, nil_append,
      count_append, count_cons, beq_iff_eq] at hcount ⊢
    by_cases heq : r.jobId = j
    · rw [if_pos heq] at hcount ⊢
      omega
    · rw [if_neg heq] at hcount ⊢
      omega

theorem pay {j : JobId} (h : Ledger slots x y p (.token j) a b) :
    Ledger slots { x with free := x.free + 1 } y p (.paid j) a b := by
  have hacc := h.account
  simp only [returns] at hacc
  have hadd := toNat_add_one (a := x.free) (b := slots) (by omega)
  refine ⟨?_, fun _ hzero => ?_, h.entries, h.held, h.fresh⟩
  · simp only [returns]
    omega
  · simp only at hzero
    rw [hzero] at hadd
    cases hadd

theorem receive {d : List String} {rest : List (Job × List String)}
    (h : Ledger slots x y p q none b) (hout : x.outbox = (job, d) :: rest) :
    Ledger slots { x with outbox := rest } { y with unanswered := y.unanswered ++ [job.id] } p q
      (some job) b where
  account := h.account
  positive := h.positive
  entries := by
    refine h.entries.trans (perm_iff_count.2 fun j => ?_)
    simp only [hout, map_cons, count_append, count_cons, count_nil]
    omega
  held := by
    refine perm_iff_count.2 fun j => ?_
    have hcount := perm_iff_count.1 h.held j
    simp only [Option.toList, map_cons, map_nil, count_append, count_cons,
      count_nil] at hcount ⊢
    omega
  fresh := by
    simp only [List.length_append]
    exact h.fresh.mono (Nat.le_add_right ..)

section

variable (h : Ledger slots x y p q a b)
include h

variable {a' : Option Job} {b' : Option JobResult} {f : Frame}

theorem inside {y' : ExecutorSession}
    (hun : y'.unanswered = y.unanswered)
    (hheld : (a.toList.map Job.id ++ y.queue.map Job.id ++ y.running.map Job.id ++
      y.results.map jobId ++ b.toList.map jobId).Perm (a'.toList.map Job.id ++
      y'.queue.map Job.id ++ y'.running.map Job.id ++ y'.results.map jobId ++
      b'.toList.map jobId)) :
    Ledger slots x y' p q a' b' where
  account := h.account
  positive := h.positive
  entries := by rw [hun]; exact h.entries
  held := by rw [hun]; exact h.held.trans hheld
  fresh := by rw [hun]; exact h.fresh

theorem send (hf : f.result = none)
    (hbeat : ∀ n, f.message = .heartbeat n → slots.toNat ≤ n.toNat + y.unanswered.length) :
    Ledger slots { x with inbox := x.inbox ++ [f] } y p q a b where
  account := h.account
  positive := h.positive
  entries := by
    rw [← append_assoc, resultIds_append, resultIds_of_none hf, append_nil]
    exact h.entries
  held := h.held
  fresh := by
    rw [← List.append_assoc]
    exact h.fresh.concat f (Nat.le_add_right ..) hbeat

theorem answer {r : JobResult}
    (hf : f.result = some r)
    (hheld : (a.toList.map Job.id ++ b.toList.map jobId).Perm (r.jobId :: (a'.toList.map Job.id ++
      b'.toList.map jobId))) :
    Ledger slots { x with inbox := x.inbox ++ [f] }
      { y with unanswered := y.unanswered.erase r.jobId } p q a' b' := by
  have hmem : r.jobId ∈ y.unanswered := by
    rw [h.held.mem_iff]
    have : r.jobId ∈ a.toList.map Job.id ++ b.toList.map jobId := hheld.mem_iff.2 mem_cons_self
    simp only [mem_append] at this ⊢
    tauto
  have hlen := length_erase_of_mem hmem
  have hpos := length_pos_of_mem hmem
  have hids := resultIds_of_some hf
  refine ⟨h.account, h.positive, perm_iff_count.2 fun j => ?_,
    perm_iff_count.2 fun j => ?_, ?_⟩
  · have hcount := perm_iff_count.1 h.entries j
    have hone := count_pos_iff.2 hmem
    simp only [← append_assoc, resultIds_append _ [f], hids]
    simp only [count_append, count_erase, count_cons, count_nil, beq_iff_eq] at hcount ⊢
    split
    · next heq =>
      subst heq
      omega
    · omega
  · have hcount := perm_iff_count.1 h.held j
    have hone := count_pos_iff.2 hmem
    have hsplit := perm_iff_count.1 hheld j
    simp only [count_append, count_erase, count_cons, beq_iff_eq] at hcount hsplit ⊢
    split at hsplit
    · next heq =>
      subst heq
      simp only [if_true]
      omega
    · next heq =>
      rw [if_neg heq]
      omega
  · rw [← append_assoc]
    refine h.fresh.concat f ?_ fun n hn => ?_
    · simp only [hids, length_singleton]
      omega
    · rw [Frame.result, hn] at hf
      cases hf

theorem settled (hres : p.reservedFor 0 = 0) (hun : p.unwritten = []) (hret : q.returns = 0)
    (hids : resultIds (q.frames ++ x.inbox) = []) (hout : x.outbox = [])
    (hanswered : y.unanswered = []) : x.free = slots := by
  have hlen := h.entries.length_eq
  have hacc := h.account
  simp only [hun, hout, hanswered, hids, map_nil, append_nil, length_nil] at hlen
  rw [hres, hret, hlen] at hacc
  exact UInt32.toNat_inj.1 hacc

end

end Ledger

/-! ## Runs with fresh heartbeats -/

/-- A job that is in flight is not dispatched once more, and a heartbeat leaves out no more slots
than there are jobs received and not yet answered. -/
def freshStep (s : Remote × ExecutorSession) : linkSig.Op → Bool
  | .inl (.insertInFlight e job) => decide (job.id ∉ (s.1.conn e).inFlight.keys)
  | .inr (.send ⟨.heartbeat n, _⟩) =>
    decide (s.2.slots.toNat ≤ n.toNat + s.2.unanswered.length)
  | _ => true

/-- Every interleaving of the two ends in which heartbeats are fresh and no job is dispatched twice
at a time. -/
abbrev freshRules (cfg : RemoteDispatcher.Config) (slots : UInt32) :
    Rules linkMachine (linkClients cfg slots) LinkThread where
  mayStart s t call := linkMayStart s.1 t call = true
  mayStep s _ op env := linkMayStep s env op = true ∧ freshStep s op = true

namespace RemoteCapacity

/-- The places of the dispatcher's threads. -/
def dispatcherPc (G : LinkThread → LinkPc) : RemoteThread → Pc
  | .run => (G .run).elim id fun _ => .outside
  | .reader 0 => (G .reader).elim id fun _ => .outside
  | t => t.rest

/-- What the executor's reader holds. -/
def accepting (G : LinkThread → LinkPc) : Option Job :=
  match G .accept with
  | .inr (.accept held) => held
  | _ => none

/-- What the executor's result loop holds. -/
def answering (G : LinkThread → LinkPc) : Option JobResult :=
  match G .results with
  | .inr (.results held) => held
  | _ => none

/-- The placing thread never has to undo a dispatch. -/
def CalmRun : RunPc → Prop
  | .unsent _ _ | .dropped _ | .released _ | .draining _ => False
  | _ => True

/-- The reader never reads the end of the stream. -/
def CalmReader : ReaderPc → Prop
  | .ending | .deregistered | .drained => False
  | _ => True

/-- The two ends agree on the ledger. -/
structure Inv (slots : UInt32) (s : Remote × ExecutorSession) (G : LinkThread → LinkPc) : Prop where
  home : ∀ t : LinkThread, t.Home (G t)
  placed : Placed s.1 (dispatcherPc G)
  one : s.1.next = 1
  calmRun : CalmRun (dispatcherPc G .run).runPc
  calmReader : CalmReader (dispatcherPc G (.reader 0)).readerPc
  announced : s.2.slots = slots
  ledger : Ledger slots (s.1.conn 0) s.2 (dispatcherPc G .run).runPc
    (dispatcherPc G (.reader 0)).readerPc (accepting G) (answering G)

variable {slots : UInt32} {s : Remote × ExecutorSession} {G : LinkThread → LinkPc}
variable {t : LinkThread} {env : RemoteEnv}

section update

variable (G)

theorem dispatcherPc_run (g : Pc) :
    dispatcherPc (update G .run (.inl g)) = update (dispatcherPc G) .run g := by
  funext t
  cases t with
  | run | other => simp [dispatcherPc]
  | reader e => cases e <;> simp [dispatcherPc]

theorem dispatcherPc_reader (g : Pc) : dispatcherPc (update G .reader (.inl g)) =
    update (dispatcherPc G) (.reader 0) g := by
  funext t
  cases t with
  | run | other => simp [dispatcherPc]
  | reader e => cases e <;> simp [dispatcherPc]

/-- The dispatcher's threads stay where they are when one of the executor moves. -/
theorem dispatcherPc_session {g : SessionPc} (h : t.Home (.inr g)) (g' : LinkPc) :
    dispatcherPc (update G t g') = dispatcherPc G := by
  have hrun : t ≠ .run := fun ht => by subst ht; cases h
  have hreader : t ≠ .reader := fun ht => by subst ht; cases h
  funext u
  cases u with
  | run => simp [dispatcherPc, update_of_ne (Ne.symm hrun)]
  | reader e => cases e <;> simp [dispatcherPc, update_of_ne (Ne.symm hreader)]
  | other => rfl

theorem accepting_of_ne (h : t ≠ .accept) (g : LinkPc) :
    accepting (update G t g) = accepting G := by
  unfold accepting
  rw [update_of_ne (Ne.symm h)]

theorem answering_of_ne (h : t ≠ .results) (g : LinkPc) :
    answering (update G t g) = answering G := by
  unfold answering
  rw [update_of_ne (Ne.symm h)]

@[simp] theorem accepting_self (held : Option Job) :
    accepting (update G .accept (.inr (.accept held))) = held := by
  simp [accepting]

@[simp] theorem answering_self (held : Option JobResult) :
    answering (update G .results (.inr (.results held))) = held := by
  simp [answering]

end update

theorem home_update {g : LinkPc} (h : ∀ t : LinkThread, t.Home (G t)) (hg : t.Home g)
    (u : LinkThread) : u.Home (update G t g u) :=
  (forall_update_iff G fun u g => u.Home g).2 ⟨hg, fun u _ => h u⟩ u

theorem ledger_run (h : Inv slots s G) {op : RemoteOp} (hp : (dispatcherPc G .run).Permits op)
    (hok : env.ok = true) (hnew : freshStep s (.inl op) = true) :
    let p := ((dispatcherPc G .run).next op (exec op env s.1).1).runPc
    op ≠ .drainExecutors → CalmRun p ∧ Ledger slots ((exec op env s.1).2.conn 0) s.2 p
      (dispatcherPc G (.reader 0)).readerPc (accepting G) (answering G) := by
  intro p hdrain
  have hzero : 0 < s.1.next := by rw [h.one]; exact one_pos
  have hhome := h.placed.home .run
  have hcalm := h.calmRun
  have hledger := h.ledger
  have hwalks := h.placed.walks
  have hfound := h.placed.found
  have htarget := h.placed.target
  rw [h.placed.placing] at htarget
  have honly : ∀ e, e < s.1.next → e = 0 := fun e he => by
    rw [h.one] at he
    exact lt_one_iff.1 he
  revert p
  generalize dispatcherPc G .run = g at hp hhome hcalm hledger hwalks hfound htarget
  rw [conn_exec op env hzero]
  intro _
  cases hp with
  | drainExecutors => exact absurd rfl hdrain
  | checkShutdown | unplaceable | toggles => exact ⟨trivial, hledger⟩
  | lock | unlock | unlockChosen | placed => exact ⟨trivial, hledger.run _ rfl rfl nofun⟩
  | @load vs found e he =>
    refine ⟨trivial, hledger.run _ rfl rfl fun hmem => ?_⟩
    change 0 ∈ if (s.1.conn e).free = 0 then found else e :: found at hmem
    split at hmem
    · exact hledger.positive hmem
    · next hne =>
      rcases mem_cons.1 hmem with rfl | hmem
      · exact hne
      · exact hledger.positive hmem
  | @reserve vs found e he =>
    cases honly e (h.placed.keyed.lt (hwalks e (hfound he)))
    exact ⟨trivial, hledger.reserve he⟩
  | @insert e job =>
    cases honly e (htarget e rfl)
    exact ⟨trivial, hledger.insert job (of_decide_eq_true hnew)⟩
  | @write e job d =>
    cases honly e (htarget e rfl)
    obtain ⟨ok, _, _, _⟩ := env
    obtain rfl : ok = true := hok
    exact ⟨trivial, hledger.write d⟩
  | takeBack | giveBack | dropExecutor | isBusy | close => cases hcalm
  | _ => cases hhome

theorem ledger_reader (h : Inv slots s G) {op : RemoteOp}
    (hp : (dispatcherPc G (.reader 0)).Permits op) (hm : s.1.mayStep env op = true)
    (heof : env.eof = false) :
    let q := ((dispatcherPc G (.reader 0)).next op (Remote.exec op env s.1).1).readerPc
    CalmReader q ∧ Ledger slots ((Remote.exec op env s.1).2.conn 0) s.2
      (dispatcherPc G .run).runPc q (accepting G) (answering G) := by
  have hzero : 0 < s.1.next := by rw [h.one]; exact one_pos
  have hhome := h.placed.home (.reader 0)
  have hcalm := h.calmReader
  have hledger := h.ledger
  generalize dispatcherPc G (.reader 0) = g at hp hhome hcalm hledger
  rw [conn_exec op env hzero]
  intro q
  cases hp with
  | @read e =>
    obtain rfl : 0 = e := hhome
    obtain ⟨_, eof, _, _⟩ := env
    obtain rfl : eof = false := heof
    simp only [Remote.mayStep, Bool.false_or, Bool.not_eq_true', List.isEmpty_eq_false_iff] at hm
    obtain ⟨f, _, hin⟩ := List.exists_cons_of_ne_nil hm
    have hq : q = .handling f := by
      simp [q, Pc.next, Remote.exec, hin, Pc.readerPc]
    rw [hq]
    exact ⟨trivial, hledger.read hin⟩
  | @shrink e n payload =>
    obtain rfl : 0 = e := hhome
    have hsame := hledger.shrink
    simp only [Remote.changed, Remote.changes, if_true, hsame]
    exact ⟨trivial, hledger.reader .idle rfl ⟨[_], rfl, resultIds_of_none rfl⟩⟩
  | @running e f j hf =>
    obtain rfl : 0 = e := hhome
    have hnone : resultIds [f] = [] := resultIds_of_none hf
    rcases hl : (Remote.exec (.running 0 j) env s.1).1 with _ | d
    · have hq : q = .idle := by simp only [q, hl]; rfl
      rw [hq]
      exact ⟨trivial, hledger.reader .idle rfl ⟨[f], rfl, hnone⟩⟩
    · have hq : q = .granted j d := by simp only [q, hl]; rfl
      rw [hq]
      exact ⟨trivial, hledger.reader _ rfl ⟨[f], rfl, hnone⟩⟩
  | progress | log | emit =>
    exact ⟨trivial, hledger.reader _ rfl ⟨[], rfl, rfl⟩⟩
  | @take e f r hf =>
    obtain rfl : 0 = e := hhome
    obtain ⟨hsome, htaken⟩ := hledger.take hf
    have hq : q = .token r.jobId := by
      obtain ⟨_, hd⟩ := isSome_iff_exists.1 hsome
      simp [q, Pc.next, Remote.exec, hd, Pc.readerPc]
    rw [hq]
    exact ⟨trivial, htaken⟩
  | settle => exact ⟨trivial, hledger⟩
  | @pay e j =>
    obtain rfl : 0 = e := hhome
    exact ⟨trivial, hledger.pay⟩
  | leave | drainInFlight | exit => cases hcalm
  | _ => cases hhome

/-- The executor only ever touches the two directions of the wire. -/
theorem session_remote (op : SessionOp) (s : Remote × ExecutorSession) :
    ∃ f, (∀ x, (f x).id = x.id) ∧ (ExecutorSession.exec op s).2.1 = s.1.modify 0 f := by
  have hsame : s.1 = s.1.modify 0 id := by
    unfold Remote.modify
    rw [id, update_eq_self]
  obtain ⟨s, _⟩ := s
  cases op with
  | receive =>
    simp only [ExecutorSession.exec]
    split
    · exact ⟨id, fun _ => rfl, hsame⟩
    · next rest _ => exact ⟨fun x => { x with outbox := rest }, fun _ => rfl, rfl⟩
  | send frame => exact ⟨fun x => { x with inbox := x.inbox ++ [frame] }, fun _ => rfl, rfl⟩
  | _ =>
    refine ⟨id, fun _ => rfl, ?_⟩
    simp only [ExecutorSession.exec]
    first | exact hsame | (split <;> exact hsame)

theorem session_slots (op : SessionOp) (s : Remote × ExecutorSession) :
    (ExecutorSession.exec op s).2.2.slots = s.2.slots := by
  obtain ⟨s, _⟩ := s
  cases op with
  | send =>
    simp only [ExecutorSession.exec]
    split <;> rfl
  | _ => first | rfl | (simp only [ExecutorSession.exec]; split <;> rfl)

/-- Frames and jobs on the wire do not concern the places of the dispatcher's threads. -/
theorem placed_modify {s : Remote} {G : RemoteThread → Pc} (h : Placed s G) (e : Nat)
    {f : Executor → Executor} (hf : ∀ x, (f x).id = x.id) : Placed (s.modify e f) G := by
  have hid : ∀ e', ((s.modify e f).conn e').id = (s.conn e').id := by
    intro e'
    rw [modify_conn]
    split
    · exact hf _
    · rfl
  refine ⟨h.home, fun id e' hl => ?_, h.lock, h.placing, fun e' he' => ?_, h.found, h.target,
    h.attached⟩
  · rw [hid]
    exact h.keyed id e' hl
  · unfold Remote.Registered
    rw [hid]
    exact h.walks e' he'

theorem ledger_session (h : Inv slots s G) {g : SessionPc} (hg : G t = .inr g) {op : SessionOp}
    (hp : g.Permits op) (hm : ExecutorSession.mayStep s op = true)
    (hfresh : freshStep s (.inr op) = true) :
    let G' := update G t (.inr (g.next op (ExecutorSession.exec op s).1))
    Ledger slots ((ExecutorSession.exec op s).2.1.conn 0) (ExecutorSession.exec op s).2.2
      (dispatcherPc G .run).runPc (dispatcherPc G (.reader 0)).readerPc
      (accepting G') (answering G') := by
  have hhome := h.home t
  have hledger := h.ledger
  have hannounced := h.announced
  rw [hg] at hhome
  have hstays : RemoteExecutor.Counts op →
      update G t (.inr (g.next op (ExecutorSession.exec op s).1)) = G := by
    intro hcount
    rw [(hcount.stays g).2, ← hg, update_eq_self]
  have hwire : ∀ f : Executor → Executor, (s.1.modify 0 f).conn 0 = f (s.1.conn 0) :=
    fun f => by rw [modify_conn, if_pos rfl]
  obtain ⟨s, y⟩ := s
  intro G'
  cases hp with
  | receive =>
    obtain rfl : t = .accept := by cases t <;> first | rfl | cases hhome
    have hnone : accepting G = none := by simp [accepting, hg]
    have hout : (s.conn 0).outbox ≠ [] := by simpa [ExecutorSession.mayStep] using hm
    obtain ⟨⟨job, _⟩, rest, hout⟩ := exists_cons_of_ne_nil hout
    rw [hnone] at hledger
    simp only [G', ExecutorSession.exec, hout, SessionPc.next, accepting_self,
      answering_of_ne G (t := .accept) (by simp), hwire]
    exact hledger.receive hout
  | @trySend job =>
    obtain rfl : t = .accept := by cases t <;> first | rfl | cases hhome
    have hheld : accepting G = some job := by simp [accepting, hg]
    rw [hheld] at hledger
    simp only [G', ExecutorSession.exec, SessionPc.next, accepting_self,
      answering_of_ne G (t := .accept) (by simp)]
    split
    · refine hledger.inside rfl (perm_iff_count.2 fun j => ?_)
      simp only [Option.toList, map_append, map_cons, map_nil, count_append,
        count_nil, if_true]
      omega
    · exact hledger
  | @decline job r hr =>
    obtain rfl : t = .accept := by cases t <;> first | rfl | cases hhome
    have hheld : accepting G = some job := by simp [accepting, hg]
    rw [hheld] at hledger
    simp only [G', ExecutorSession.exec, SessionPc.next, accepting_self,
      answering_of_ne G (t := .accept) (by simp), hwire, Frame.result_fromJobResult]
    refine hledger.answer (Frame.result_fromJobResult r) ?_
    rw [hr]
    exact List.Perm.refl _
  | takeResult =>
    obtain rfl : t = .results := by cases t <;> first | rfl | cases hhome
    have hnone : answering G = none := by simp [answering, hg]
    have hres : y.results ≠ [] := by simpa [ExecutorSession.mayStep] using hm
    obtain ⟨r, rest, hres⟩ := exists_cons_of_ne_nil hres
    rw [hnone] at hledger
    simp only [G', ExecutorSession.exec, hres, SessionPc.next, answering_self,
      accepting_of_ne G (t := .results) (by simp)]
    refine hledger.inside rfl (perm_iff_count.2 fun j => ?_)
    simp only [hres, Option.toList, map_cons, map_nil, count_append,
      count_cons, count_nil]
    omega
  | @report held report =>
    obtain rfl : t = .results := by cases t <;> first | rfl | cases hhome
    have hheld : answering G = held := by simp [answering, hg]
    simp only [G', ExecutorSession.exec, SessionPc.next, SideReport.result_frame,
      isSome_none, cond_false, answering_self, accepting_of_ne G (t := .results) (by simp),
      hwire]
    rw [hheld] at hledger
    exact hledger.send report.result_frame fun n hn => by cases report <;> cases hn
  | @answer r =>
    obtain rfl : t = .results := by cases t <;> first | rfl | cases hhome
    have hheld : answering G = some r := by simp [answering, hg]
    rw [hheld] at hledger
    simp only [G', ExecutorSession.exec, SessionPc.next, Frame.result_fromJobResult,
      isSome_some, cond_true, answering_self, accepting_of_ne G (t := .results) (by simp),
      hwire]
    refine hledger.answer (Frame.result_fromJobResult r) ?_
    simp only [Option.toList, map_cons, map_nil, append_nil]
    exact perm_append_singleton ..
  | loadFree =>
    obtain rfl : t = .heartbeat := by cases t <;> first | rfl | cases hhome
    simp only [G', accepting_of_ne G (t := .heartbeat) (by simp),
      answering_of_ne G (t := .heartbeat) (by simp)]
    exact hledger
  | @beat n =>
    obtain rfl : t = .heartbeat := by cases t <;> first | rfl | cases hhome
    simp only [G', ExecutorSession.exec, accepting_of_ne G (t := .heartbeat) (by simp),
      answering_of_ne G (t := .heartbeat) (by simp), hwire]
    refine hledger.send rfl fun m hmn => ?_
    cases hmn
    rw [← hannounced]
    exact of_decide_eq_true hfresh
  | startJob =>
    obtain ⟨i, rfl⟩ : ∃ i, t = .worker i := by cases t <;> first | exact ⟨_, rfl⟩ | cases hhome
    have hqueue : y.queue ≠ [] := by simpa [ExecutorSession.mayStep] using hm
    obtain ⟨_, _, hqueue⟩ := exists_cons_of_ne_nil hqueue
    simp only [G', ExecutorSession.exec, hqueue, accepting_of_ne G (t := .worker i) (by simp),
      answering_of_ne G (t := .worker i) (by simp)]
    refine hledger.inside rfl (perm_iff_count.2 fun j => ?_)
    simp only [hqueue, map_append, map_cons, map_nil, count_append,
      count_cons, count_nil]
    omega
  | finishJob i =>
    obtain ⟨k, rfl⟩ : ∃ i, t = .worker i := by cases t <;> first | exact ⟨_, rfl⟩ | cases hhome
    simp only [ExecutorSession.mayStep, and_eq_true, decide_eq_true_eq] at hm
    have hjob : y.running[i]? = some y.running[i] := List.getElem?_eq_getElem hm.1
    simp only [G', ExecutorSession.exec, hjob, accepting_of_ne G (t := .worker k) (by simp),
      answering_of_ne G (t := .worker k) (by simp)]
    refine hledger.inside rfl (perm_iff_count.2 fun j => ?_)
    have hrest := perm_iff_count.1 ((getElem_cons_eraseIdx_perm hm.1).map Job.id) j
    simp only [map_append, map_cons, map_nil, count_append, count_cons,
      count_nil, Outcome.jobId_of] at hrest ⊢
    omega
  | _ =>
    rw [show G' = G from hstays trivial]
    exact hledger.inside rfl (List.Perm.refl _)

theorem init_inv (h : Hello) : Inv h.slots (linkInit h) LinkThread.rest where
  home t := by cases t <;> trivial
  placed := by
    refine ⟨fun t => ?_, fun id e hl => ?_, rfl, rfl, nofun,
      nil_subset _, nofun, fun e p hg hp => ?_⟩
    · rcases t with _ | ⟨_ | e⟩ | _ <;> trivial
    · by_cases hid : id = h.executorId
      · subst hid
        rw [linkInit, attached_executors, lookup_insert] at hl
        cases hl
        exact ⟨one_pos, rfl⟩
      · rw [linkInit, attached_executors, lookup_insert_ne hid] at hl
        cases hl
    · rcases e with _ | _ <;> (cases hg; exact absurd rfl hp)
  one := rfl
  calmRun := trivial
  calmReader := trivial
  announced := rfl
  ledger := ⟨rfl, nofun, List.Perm.refl _, List.Perm.refl _, trivial⟩

theorem Inv.step (h : Inv slots s G) {op : linkSig.Op} (hp : linkDiscipline.permits (G t) op)
    (hm : linkMayStep s env op = true) (hfresh : freshStep s op = true) :
    Inv slots (linkMachine.exec op env s).2
      (update G t (linkDiscipline.next (G t) op (linkMachine.exec op env s).1)) := by
  have hhome := h.home t
  rcases hg : G t with g | g
  · rcases op with op | op
    swap
    · rw [hg] at hp
      cases hp
    rw [hg] at hp hhome
    simp only [linkMayStep, and_eq_true, not_eq_true', bne_iff_ne] at hm
    obtain ⟨⟨⟨hm, hok⟩, heof⟩, hdrain⟩ := hm
    have hnext : (exec op env s.1).2.next = 1 := by
      obtain hsame | ⟨hello, rfl, -, -⟩ := next_exec (s := s.1) op env
      · exact hsame.trans h.one
      · cases hp
        cases t <;> cases hhome
    cases t with
    | run =>
      have hpc : dispatcherPc G .run = g := by simp [dispatcherPc, hg]
      have hp' : (dispatcherPc G .run).Permits op := hpc ▸ hp
      obtain ⟨hcalm, hledger⟩ := ledger_run h hp' hok hfresh hdrain
      have hplaced := h.placed.step hp' hm
      have hg' := (h.placed.home .run).next op (exec op env s.1).1
      rw [hpc] at hcalm hledger hplaced hg'
      rw [← dispatcherPc_run] at hplaced
      refine ⟨home_update h.home hg', hplaced, hnext, ?_, ?_, h.announced, ?_⟩
      all_goals simp only [linkDiscipline, Discipline.sum, dispatcherPc_run, update_self]
      · exact hcalm
      · rw [update_of_ne (by simp)]
        exact h.calmReader
      · rw [update_of_ne (by simp), accepting_of_ne G (by simp),
          answering_of_ne G (by simp)]
        exact hledger
    | reader =>
      have hpc : dispatcherPc G (.reader 0) = g := by simp [dispatcherPc, hg]
      have hp' : (dispatcherPc G (.reader 0)).Permits op := hpc ▸ hp
      obtain ⟨hcalm, hledger⟩ := ledger_reader h hp' hm heof
      have hplaced := h.placed.step hp' hm
      have hg' := (h.placed.home (.reader 0)).next op (exec op env s.1).1
      rw [hpc] at hcalm hledger hplaced hg'
      rw [← dispatcherPc_reader] at hplaced
      refine ⟨home_update h.home hg', hplaced, hnext, ?_, ?_, h.announced, ?_⟩
      all_goals simp only [linkDiscipline, Discipline.sum, dispatcherPc_reader, update_self]
      · rw [update_of_ne (by simp)]
        exact h.calmRun
      · exact hcalm
      · rw [update_of_ne (by simp), accepting_of_ne G (by simp),
          answering_of_ne G (by simp)]
        exact hledger
    | _ => cases hhome
  · rcases op with op | op
    · rw [hg] at hp
      cases hp
    rw [hg] at hp hhome
    obtain ⟨f, hf, hs⟩ := session_remote op s
    have hsame := dispatcherPc_session G hhome (.inr (g.next op (exec op s).1))
    have hledger := ledger_session h hg hp hm hfresh
    have hg' : t.Home (.inr (g.next op (exec op s).1)) := by
      cases t <;> cases g <;> cases hhome <;> (unfold SessionPc.next; split <;> trivial)
    refine ⟨home_update h.home hg', ?_, ?_, ?_, ?_, ?_, ?_⟩
    all_goals simp only [linkDiscipline, Discipline.sum, linkMachine, sessionDiscipline]
    · rw [hsame, hs]
      exact placed_modify h.placed 0 hf
    · rw [hs]
      exact h.one
    · rw [hsame]
      exact h.calmRun
    · rw [hsame]
      exact h.calmReader
    · exact (session_slots op s).trans h.announced
    · rw [hsame]
      exact hledger

/-- Where a thread starts, it has nothing in hand; where it returned it had nothing either. -/
theorem Inv.start (h : Inv slots s G) {call : LinkCall} (hdone : linkDiscipline.done (G t))
    (hm : linkMayStart s.1 t call = true) : Inv slots s (update G t t.start) := by
  have hhome := h.home t
  -- only the dispatcher's reader returns somewhere else than where it starts
  have hstay : t ≠ .reader → update G t t.start = G := by
    intro ht
    have hsame : t.start = G t := by
      have hcalm := h.calmRun
      rcases hg : G t with g | g <;> rw [hg] at hhome hdone
      · cases t with
        | run =>
          have hpc : dispatcherPc G .run = g := by simp [dispatcherPc, hg]
          rw [hpc] at hcalm
          obtain rfl | ⟨_, rfl⟩ := hhome.run_done hdone
          · rfl
          · cases hcalm
        | reader => exact absurd rfl ht
        | _ => cases hhome
      · cases t <;> cases g <;> cases hhome
        case accept.accept.intro held => cases held <;> first | rfl | cases hdone
        case results.results.intro held => cases held <;> first | rfl | cases hdone
        case heartbeat.heartbeat.intro held => cases held <;> first | rfl | cases hdone
        case worker.worker.intro => rfl
    rw [hsame, update_eq_self]
  by_cases ht : t = .reader
  · subst ht
    have hread : s.1.mayStart (.reader 0) (.readFrame 0) = true := by
      cases call <;> first | exact hm | cases hm
    rcases hg : G .reader with g | g <;> rw [hg] at hhome hdone
    · have hpc : dispatcherPc G (.reader 0) = g := by simp [dispatcherPc, hg]
      have hplaced := h.placed.start (t := .reader 0) (hpc.symm ▸ hdone) hread
      rw [← dispatcherPc_reader] at hplaced
      have hledger := h.ledger
      rw [hpc] at hledger
      refine ⟨home_update h.home rfl, hplaced, h.one, ?_, ?_, h.announced, ?_⟩
      all_goals simp only [LinkThread.start, dispatcherPc_reader, update_self]
      · rw [update_of_ne (by simp)]
        exact h.calmRun
      · trivial
      · rw [update_of_ne (by simp), accepting_of_ne G (by simp),
          answering_of_ne G (by simp)]
        obtain rfl | rfl | ⟨f, rfl, hf⟩ := RemoteThread.Home.reader_done hhome hdone
        · exact hledger.reader _ rfl ⟨[], rfl, rfl⟩
        · exact hledger.reader _ rfl ⟨[], rfl, rfl⟩
        · exact hledger.reader _ rfl ⟨[f], rfl, resultIds_of_none hf⟩
    · cases hhome
  · rw [hstay ht]
    exact h

theorem sound (cfg : RemoteDispatcher.Config) (slots : UInt32) :
    Pool.Sound (freshRules cfg slots) linkDiscipline (Inv slots) where
  start _ _ t _ h hdone hm := ⟨t.start, h.start hdone hm, follows_linkCall hm⟩
  step _ G t op env h hp hm := by
    refine ⟨?_, h.step hp hm.1 hm.2⟩
    rcases G t with g | _ <;> rcases op with op | op <;> trivial

end RemoteCapacity

open RemoteCapacity (dispatcherPc init_inv sound)

/-- Every job handed to the executor has been answered, no job is being placed, and every frame
the executor has sent has been handled. -/
abbrev LinkSettled (c : Pool linkMachine LinkThread) : Prop :=
  c.state.1.placing = none ∧ (c.state.1.conn 0).outbox = [] ∧ c.state.2.unanswered = [] ∧
    (c.state.1.conn 0).inbox = [] ∧ (c.prog .reader).nextOp = none

/-- **No capacity is lost**, in every run in which heartbeats are fresh and no job is dispatched
again while it is in flight: once everything is answered and handled, the scheduler's counter is
back at the slots announced. -/
theorem capacity_restored (cfg : RemoteDispatcher.Config) (h : Hello)
    (c : Pool linkMachine LinkThread)
    (hc : Pool.Reaches (freshRules cfg h.slots) (Pool.idle (linkInit h)) c) (hs : LinkSettled c) :
    (c.state.1.conn 0).free = h.slots := by
  obtain ⟨G, hG⟩ := (sound cfg h.slots).reachable
    (.idle (init_inv h) LinkThread.rest_done) hc
  obtain ⟨hplacing, hout, hanswered, hin, hreader⟩ := hs
  have hinv := hG.inv
  -- nothing reserved: the placing thread has no target
  have htarget := hinv.placed.placing.symm.trans hplacing
  have hrun : (dispatcherPc G .run).runPc.reservedFor 0 = 0 ∧
      (dispatcherPc G .run).runPc.unwritten = [] := by
    generalize (dispatcherPc G .run).runPc = p at htarget
    cases p <;> first | exact ⟨rfl, rfl⟩ | cases htarget
  -- nothing being handled: the reader has returned
  have hdone : linkDiscipline.done (G .reader) := by
    have hf := hG.follows .reader
    rcases hp : c.prog .reader with _ | ⟨_, _⟩
    · rw [hp] at hf
      exact hf
    · rw [hp] at hreader
      cases hreader
  have hq : (dispatcherPc G (.reader 0)).readerPc.returns = 0 ∧
      resultIds (dispatcherPc G (.reader 0)).readerPc.frames = [] := by
    have hhome := hinv.home .reader
    rcases hg : G .reader with g | g <;> rw [hg] at hhome hdone
    · have hpc : dispatcherPc G (.reader 0) = g := by
        simp [dispatcherPc, hg]
      rw [hpc]
      obtain rfl | rfl | ⟨_, rfl, hf⟩ := RemoteThread.Home.reader_done hhome hdone
      · exact ⟨rfl, rfl⟩
      · exact ⟨rfl, rfl⟩
      · exact ⟨rfl, resultIds_of_none hf⟩
    · cases hhome
  refine hinv.ledger.settled hrun.1 hrun.2 hq.1 ?_ hout hanswered
  rw [hin, append_nil]
  exact hq.2

/-! ## Concrete runs -/

/-- An executor that runs one job of the task `t` at a time. -/
def oneSlot : Hello := ⟨"x", ["t"], 1, protocolVersion, none⟩

/-- A thread makes a call and so many of its operations. -/
def linkMoves (t : LinkThread) (call : LinkCall) (n : Nat) :
    List (Move linkMachine (linkClients plainRemote oneSlot.slots) LinkThread) :=
  .start t call :: List.replicate n (.step t RemoteEnv.calm)

/-- The job is dispatched, received and run, and its result is written but the job not yet counted
as finished. -/
def answeredMoves : List (Move linkMachine (linkClients plainRemote oneSlot.slots) LinkThread) :=
  linkMoves .run (.place (plainJob "j") 0) 7 ++ linkMoves .accept .acceptJob 7 ++
  linkMoves (.worker 0) .startJob 1 ++
  linkMoves (.worker 0) (.finishJob 0 (.success none 0)) 1 ++ linkMoves .results (.resultLoop []) 2

/-- A heartbeat from while the job was running, and the result after it. -/
def heartbeatThenResult :
    List (Move linkMachine (linkClients plainRemote oneSlot.slots) LinkThread) :=
  linkMoves .run (.place (plainJob "j") 0) 7 ++ linkMoves .accept .acceptJob 7 ++
  linkMoves .heartbeat .heartbeat 3 ++ linkMoves (.worker 0) .startJob 1 ++
  linkMoves (.worker 0) (.finishJob 0 (.success none 0)) 1 ++
  linkMoves .results (.resultLoop []) 6 ++ linkMoves .reader .readFrame 2 ++
  linkMoves .reader .readFrame 4

theorem capacity_restored_heartbeat :
    ∃ c, Pool.Reaches (freshRules plainRemote oneSlot.slots) (Pool.idle (linkInit oneSlot)) c ∧
      LinkSettled c ∧ c.state.1.results.length = 1 ∧ (c.state.1.conn 0).free = 1 := by
  obtain ⟨c, hc, hs, hlen⟩ := Pool.exists_reaches (freshRules plainRemote oneSlot.slots)
    (.idle (linkInit oneSlot)) heartbeatThenResult
    (fun c => LinkSettled c ∧ c.state.1.results.length = 1) (by decide +kernel)
  exact ⟨c, hc, hs, hlen, capacity_restored plainRemote oneSlot c hc hs⟩

/-- **A stale heartbeat takes the slot away.** The result is written, then the heartbeat thread
writes the capacity published while the job was running, and only then is the job counted as
finished. Everything is answered and handled, and the scheduler sees no free slot. -/
theorem capacity_lost :
    ∃ c, Pool.Reaches (linkRules plainRemote oneSlot.slots) (Pool.idle (linkInit oneSlot)) c ∧
      LinkSettled c ∧ oneSlot.slots = 1 ∧ c.state.2.freeSlots = 1 ∧
        (c.state.1.conn 0).free = 0 := by
  exact Pool.exists_reaches _ _
    (answeredMoves ++ linkMoves .heartbeat .heartbeat 3 ++
      .replicate 4 (.step .results .calm) ++ linkMoves .reader .readFrame 4 ++
      linkMoves .reader .readFrame 2) _ (by decide +kernel)

end Flexiq
