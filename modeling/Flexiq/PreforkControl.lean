import Flexiq.Prefork

/-!
# Where a thread of the prefork pool is

The discipline of the pool: a thread's ghost value is its place in the source, and every program
follows the discipline from where its call starts.
-/

namespace Flexiq

inductive DispatcherPc where
  | idle
  /-- It restarts children or loads the counters; these are loaded. At and above `k` no child was
  ever started. -/
  | ready (k : Nat) (loaded : List UInt32)
  /-- The child at an index is dead. -/
  | dead (k i : Nat)
  | spawned (k i c : Nat)
  | wired (k i c : Nat)
  | installed (k i c : Nat)
  | cleared (k i c : Nat)
  | zeroed (k i c : Nat)
  | filled (i d : Nat) (job : Job)
  | sent (i d : Nat)
  | failed (i d : Nat)

inductive ChildReaderPc where
  | idle
  | reading
  | hand (d : Nat) (result : JobResult)
  /-- It has taken the slot's entry. -/
  | token (d : Nat) (result : JobResult)
  | paid (d : Nat) (result : JobResult)
  | ending

inductive WatchdogPc where
  | scanning
  /-- It has taken an entry past its deadline. -/
  | taken (i : Nat) (a : ActiveJob)
  | killed (i : Nat) (a : ActiveJob)
  | paid (i : Nat) (a : ActiveJob)

inductive PreforkPc where
  | dispatcher (p : DispatcherPc)
  | reader (i c : Nat) (p : ChildReaderPc)
  | watchdog (p : WatchdogPc)
  | child (c : Nat)

namespace PreforkPc

/-- The operations a thread may perform where it is. -/
inductive Permits (n : Nat) : PreforkPc → PreforkOp → Prop
  | isChildDead {k i} (h : i < k) : Permits n (.dispatcher (.ready k [])) (.isChildDead i)
  | spawn {k} (h : k < n) : Permits n (.dispatcher (.ready k [])) (.spawnChild k)
  | respawn {k i} : Permits n (.dispatcher (.dead k i)) (.spawnChild i)
  | setWriter {k i c} : Permits n (.dispatcher (.spawned k i c)) (.setWriter i c)
  | setProcess {k i c} (hk : i < k) (hn : i < n) :
      Permits n (.dispatcher (.wired k i c)) (.setProcess i c)
  | resetSlot {k i c} : Permits n (.dispatcher (.installed k i c)) (.resetSlot i)
  | resetInFlight {k i c} : Permits n (.dispatcher (.cleared k i c)) (.resetInFlight i)
  | spawnReader {k i c} : Permits n (.dispatcher (.zeroed k i c)) (.spawnReader c)
  | load {k loaded} : Permits n (.dispatcher (.ready k loaded)) (.loadInFlight loaded.length)
  | setSlot {k loaded} (job) (h : loaded.length = n) :
      Permits n (.dispatcher (.ready k loaded)) (.setSlot (PreforkPool.leastLoaded loaded) job)
  | writeJob {i d job} : Permits n (.dispatcher (.filled i d job)) (.writeJob i job d)
  | rollback {i d} : Permits n (.dispatcher (.failed i d)) (.rollback i)
  | addInFlight {i d} : Permits n (.dispatcher (.sent i d)) (.addInFlight i)
  | read {i c} : Permits n (.reader i c .reading) (.read c)
  | takeSlot {i c d r} : Permits n (.reader i c (.hand d r)) (.takeSlot i c)
  | readerPays {i c d r} : Permits n (.reader i c (.token d r)) (.subInFlight i)
  | readerEmits {i c d r} : Permits n (.reader i c (.paid d r)) (.emit ⟨d, .reader, r⟩)
  | readerExit {i c} : Permits n (.reader i c .ending) (.readerExit c)
  | now : Permits n (.watchdog .scanning) .now
  | takeIfExpired (i t) : Permits n (.watchdog .scanning) (.takeIfExpired i t)
  | kill {i a} : Permits n (.watchdog (.taken i a)) (.kill i)
  | watchdogPays {i a} : Permits n (.watchdog (.killed i a)) (.subInFlight i)
  | watchdogEmits {i a} (w) :
      Permits n (.watchdog (.paid i a)) (.emit ⟨a.dispatch, .watchdog,
        PreforkPool.timeoutFailure a w⟩)
  | childStart {c} : Permits n (.child c) (.childStart c)
  | childFinish {c} (o) : Permits n (.child c) (.childFinish c o)
  | childReport {c} (r) : Permits n (.child c) (.childReport c r)
  | childExit {c} : Permits n (.child c) (.childExit c)

/-- Where the answer of an operation takes a thread. -/
def next : PreforkPc → (op : PreforkOp) → op.Res → PreforkPc
  | .dispatcher (.ready k loaded), .isChildDead i, r =>
    .dispatcher (bif r then .dead k i else .ready k loaded)
  | .dispatcher (.ready k _), .spawnChild i, r =>
    .dispatcher (r.elim (.ready (max k (i + 1)) []) (.spawned (max k (i + 1)) i))
  | .dispatcher (.dead k _), .spawnChild i, r =>
    .dispatcher (r.elim (.ready k []) (.spawned k i))
  | .dispatcher (.spawned k i c), .setWriter _ _, _ => .dispatcher (.wired k i c)
  | .dispatcher (.wired k i c), .setProcess _ _, _ => .dispatcher (.installed k i c)
  | .dispatcher (.installed k i c), .resetSlot _, _ => .dispatcher (.cleared k i c)
  | .dispatcher (.cleared k i c), .resetInFlight _, _ => .dispatcher (.zeroed k i c)
  | .dispatcher (.zeroed k _ _), .spawnReader _, _ => .dispatcher (.ready k [])
  | .dispatcher (.ready k loaded), .loadInFlight _, r => .dispatcher (.ready k (loaded ++ [r]))
  | .dispatcher (.ready _ _), .setSlot i job, d => .dispatcher (.filled i d job)
  | .dispatcher (.filled i d _), .writeJob _ _ _, r =>
    .dispatcher (bif r == .ok then .sent i d else .failed i d)
  | .dispatcher (.failed _ _), .rollback _, _ => .dispatcher .idle
  | .dispatcher (.sent _ _), .addInFlight _, _ => .dispatcher .idle
  | .reader i c .reading, .read _, r =>
    .reader i c (r.elim .ending fun (f, d) => f.result.elim .idle (.hand d))
  | .reader i c (.hand d result), .takeSlot _ _, r =>
    .reader i c (r.elim .idle fun _ => .token d result)
  | .reader i c (.token d result), .subInFlight _, _ => .reader i c (.paid d result)
  | .reader i c (.paid _ _), .emit _, _ => .reader i c .idle
  | .reader i c .ending, .readerExit _, _ => .reader i c .idle
  | .watchdog .scanning, .takeIfExpired i _, r => .watchdog (r.elim .scanning (.taken i))
  | .watchdog (.taken i a), .kill _, _ => .watchdog (.killed i a)
  | .watchdog (.killed i a), .subInFlight _, _ => .watchdog (.paid i a)
  | .watchdog (.paid _ _), .emit _, _ => .watchdog .scanning
  | pc, _, _ => pc

/-- The thread may return here. -/
def Done : PreforkPc → Prop
  | .dispatcher .idle | .dispatcher (.ready _ _) | .reader _ _ .idle | .watchdog .scanning
  | .child _ => True
  | _ => False

end PreforkPc

def preforkDiscipline (n : Nat) : Discipline preforkSig PreforkPc where
  permits := PreforkPc.Permits n
  expects _ _ _ := True
  next := PreforkPc.next
  done := PreforkPc.Done

namespace PreforkPool

open Prog List

variable {n : Nat}

theorem follows_ask {op : PreforkOp} {g : PreforkPc} {Q : PreforkPc → op.Res → Prop}
    (hp : g.Permits n op) (h : ∀ r, Q (g.next op r) r) :
    (ask op).Follows (preforkDiscipline n) g Q :=
  ⟨hp, fun r _ => h r⟩

variable {k i : Nat}

/-- What a restart does after the spawn. -/
theorem follows_spawned {c : Nat} (hk : i < k) (hn : i < n) :
    (do
      ask (.setWriter i c)
      ask (.setProcess i c)
      ask (.resetSlot i)
      ask (.resetInFlight i)
      ask (.spawnReader c) : PreforkProg Unit).Follows (preforkDiscipline n)
        (.dispatcher (.spawned k i c)) fun g _ => g = .dispatcher (.ready k []) := by
  refine .bind (follows_ask .setWriter fun _ => ?_)
  refine .bind (follows_ask (.setProcess hk hn) fun _ => ?_)
  refine .bind (follows_ask .resetSlot fun _ => ?_)
  refine .bind (follows_ask .resetInFlight fun _ => ?_)
  exact follows_ask .spawnReader fun _ => rfl

theorem follows_startChild (hk : k < n) :
    (startChild k).Follows (preforkDiscipline n) (.dispatcher (.ready k []))
      fun g _ => g = .dispatcher (.ready (k + 1) []) := by
  have hmax : max k (k + 1) = k + 1 := Nat.max_eq_right (Nat.le_succ k)
  refine .bind (follows_ask (.spawn hk) fun r => ?_)
  simp only [PreforkPc.next, hmax]
  cases r with
  | none => rfl
  | some => exact follows_spawned (Nat.lt_succ_self k) hk

theorem follows_start :
    (start n).Follows (preforkDiscipline n) (.dispatcher (.ready 0 [])) fun g _ => g.Done := by
  -- the children below `k` are started, the next is `k`
  have hloop : ∀ m k, k + m = n →
      (forEach (.range' k m) startChild).Follows (preforkDiscipline n)
        (.dispatcher (.ready k [])) fun g _ => g.Done := by
    intro m
    induction m with
    | zero => exact fun k _ => trivial
    | succ m ih =>
      intro k _
      refine .bind ((follows_startChild (by omega)).mono ?_)
      rintro _ _ rfl
      exact ih (k + 1) (by omega)
  unfold start
  rw [range_eq_range']
  exact hloop n 0 (Nat.zero_add n)

theorem follows_restartChild (hi : i < n) :
    (restartChild i).Follows (preforkDiscipline n) (.dispatcher (.ready n []))
      fun g _ => g = .dispatcher (.ready n []) := by
  refine .bind (follows_ask (.isChildDead hi) fun r => ?_)
  cases r with
  | false => rfl
  | true =>
    refine .bind (follows_ask .respawn fun r => ?_)
    cases r with
    | none => rfl
    | some => exact follows_spawned hi hi

theorem follows_loadCounts (m : Nat) : ∀ loaded,
    (loadCounts (List.range' loaded.length m)).Follows (preforkDiscipline n)
      (.dispatcher (.ready k loaded)) fun g counts =>
        g = .dispatcher (.ready k (loaded ++ counts)) ∧ counts.length = m := by
  induction m with
  | zero =>
    intro loaded
    exact ⟨by rw [append_nil], rfl⟩
  | succ m ih =>
    intro loaded
    refine .bind (follows_ask .load fun count => ?_)
    have hrest := ih (loaded ++ [count])
    rw [length_append, length_singleton] at hrest
    refine .bind (hrest.mono ?_)
    rintro _ _ ⟨rfl, hlen⟩
    exact ⟨by rw [append_assoc, singleton_append], congrArg (· + 1) hlen⟩

theorem follows_dispatchJob {loaded : List UInt32} (job : Job) (h : loaded.length = n) :
    (dispatchJob (leastLoaded loaded) job).Follows (preforkDiscipline n)
      (.dispatcher (.ready k loaded)) fun g _ => g.Done := by
  refine .bind (follows_ask (.setSlot job h) fun d => ?_)
  refine .bind (follows_ask .writeJob fun r => ?_)
  cases r with
  | ok => exact follows_ask .addInFlight fun _ => trivial
  | noWriter | failed => exact follows_ask .rollback fun _ => trivial

theorem follows_dispatch (job : Job) :
    (dispatch n job).Follows (preforkDiscipline n) (.dispatcher (.ready n []))
      fun g _ => g.Done := by
  refine Follows.bind ((Follows.forEach
    (fun g : PreforkPc => g = .dispatcher (.ready n [])) rfl ?_).mono ?_)
  · rintro _ hi g rfl
    exact follows_restartChild (mem_range.1 hi)
  · rintro g _ rfl
    have hloads := follows_loadCounts (n := n) (k := n) n []
    rw [length_nil, ← range_eq_range'] at hloads
    refine .bind (hloads.mono ?_)
    rintro _ _ ⟨rfl, hlen⟩
    exact follows_dispatchJob job hlen

theorem follows_readFrame (i c : Nat) :
    (readFrame i c).Follows (preforkDiscipline n) (.reader i c .reading) fun g _ => g.Done := by
  refine .bind (follows_ask .read fun r => ?_)
  cases r with
  | none => exact follows_ask .readerExit fun _ => trivial
  | some fd =>
    obtain ⟨frame, d⟩ := fd
    simp only [PreforkPc.next, Option.elim_some]
    rcases frame.result with _ | _
    · trivial
    · refine .bind (follows_ask .takeSlot fun taken => ?_)
      cases taken with
      | none => trivial
      | some =>
        refine .bind (follows_ask .readerPays fun _ => ?_)
        exact follows_ask .readerEmits fun _ => trivial

theorem follows_watchdog (wallTimeNs : Int) :
    (watchdog n wallTimeNs).Follows (preforkDiscipline n) (.watchdog .scanning)
      fun g _ => g.Done := by
  refine Follows.bind (follows_ask .now fun now => ?_)
  refine (Follows.forEach (fun g : PreforkPc => g = .watchdog .scanning) rfl ?_).mono ?_
  · rintro i - g rfl
    refine Follows.bind (follows_ask (.takeIfExpired i now) fun taken => ?_)
    cases taken with
    | none => rfl
    | some =>
      refine .bind (follows_ask .kill fun _ => ?_)
      refine .bind (follows_ask .watchdogPays fun _ => ?_)
      exact follows_ask (.watchdogEmits wallTimeNs) fun _ => rfl
  · rintro _ _ rfl
    trivial

end PreforkPool

/-- Where a thread starts a call. -/
def PreforkCall.entry (n : Nat) : PreforkCall → PreforkPc
  | .start => .dispatcher (.ready 0 [])
  | .dispatch _ => .dispatcher (.ready n [])
  | .readFrame i c => .reader i c .reading
  | .watchdog _ => .watchdog .scanning
  | .childStart c | .childFinish c _ | .childReport c _ | .childExit c => .child c

theorem follows_preforkCall (n : Nat) (call : PreforkCall) :
    (call.prog n).Follows (preforkDiscipline n) (call.entry n) fun g _ => g.Done := by
  cases call with
  | start => exact PreforkPool.follows_start
  | dispatch job => exact PreforkPool.follows_dispatch job
  | readFrame i c => exact PreforkPool.follows_readFrame i c
  | watchdog w => exact PreforkPool.follows_watchdog w
  | childStart => exact PreforkPool.follows_ask .childStart fun _ => trivial
  | childFinish c o => exact PreforkPool.follows_ask (.childFinish o) fun _ => trivial
  | childReport c r => exact PreforkPool.follows_ask (.childReport r) fun _ => trivial
  | childExit => exact PreforkPool.follows_ask .childExit fun _ => trivial

end Flexiq
