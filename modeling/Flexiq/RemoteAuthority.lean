import Flexiq.RemoteControl

/-!
# What an executor may speak for

An attached executor can send any frame it likes: results twice, results of jobs it never got,
progress and log lines of other executors' jobs. What the dispatcher passes on is decided by one
look at that executor's in-flight map. A result takes the entry, progress and logs only look at it,
and an entry is only ever put there by a dispatch.

The history of the calls makes this a statement about runs. Whatever is passed on from a connection
goes back to the **last look-up** its reader made before it: that look-up was for the same job and
found the entry of an earlier dispatch of the job to this executor, and a log line carries the task
and the namespace of that dispatch. Each result spends an entry, so there are never more results
from an executor for a job than dispatches of the job to it.

The entry need not be there any more when the value is passed on. A result is passed on after its
entry was taken, and between a look-up and the report that follows it a failed write can take the
entry back (`reported_after_removal`).
-/

namespace Flexiq

open Remote (exec)

open Function List Remote AList Bool Nat RemoteOp

variable {e : Nat} {j : JobId} {d : RemoteInFlight}

/-- One call of the dispatcher, with the state before and after it. -/
abbrev RemoteEvent := Event remoteMachine

namespace RemoteOp

/-- The job a reader looks up in the in-flight map of its connection. -/
def looksUp (e : Nat) : RemoteOp → Option JobId
  | .running e' j => if e' = e then some j else none
  | .removeInFlight e' j .reader => if e' = e then some j else none
  | _ => none

/-- The job that something taken from a connection is passed on for. -/
def passesOn (e : Nat) : RemoteOp → Option JobId
  | .emit (some e') r => if e' = e then some r.jobId else none
  | .pumpProgress e' j _ => if e' = e then some j else none
  | .pumpLog e' line => if e' = e then some line.jobId else none
  | _ => none

/-- A result for the job is taken from the connection and passed on. -/
def isResultOf (e : Nat) (j : JobId) : RemoteOp → Bool
  | .emit (some e') r => e' == e && r.jobId == j
  | _ => false

def isDispatchOf (e : Nat) (j : JobId) : RemoteOp → Bool
  | .insertInFlight e' job => e' == e && job.id == j
  | _ => false

end RemoteOp

/-- The entry is that of an earlier dispatch of the job to the connection. -/
def DispatchedAs (e : Nat) (j : JobId) (d : RemoteInFlight) (past : List RemoteEvent) : Prop :=
  ∃ ev ∈ past, ∃ job : Job, ev.op = .insertInFlight e job ∧ job.id = j ∧ d = .of job

/-- For the frame it has in hand, the connection's reader looked up the job last, and found the
entry of an earlier dispatch of the job to the connection. -/
def Granted (e : Nat) (j : JobId) (d : RemoteInFlight) (past : List RemoteEvent) : Prop :=
  ∃ recent ev older, past = recent ++ ev :: older ∧
    (∀ x ∈ recent, RemoteOp.looksUp e x.op = none ∧ x.op ≠ .read e) ∧
    RemoteOp.looksUp e ev.op = some j ∧
    (ev.before.conn e).inFlight.lookup j = some d ∧ DispatchedAs e j d older

variable {past : List RemoteEvent}

theorem DispatchedAs.cons (h : DispatchedAs e j d past) (ev : RemoteEvent) :
    DispatchedAs e j d (ev :: past) := by
  obtain ⟨ev', hmem, hjob⟩ := h
  exact ⟨ev', mem_cons_of_mem _ hmem, hjob⟩

/-- A grant stands until the reader looks something up again or reads the next frame. -/
theorem Granted.cons (h : Granted e j d past) {ev : RemoteEvent}
    (hev : RemoteOp.looksUp e ev.op = none ∧ ev.op ≠ .read e) : Granted e j d (ev :: past) := by
  obtain ⟨recent, ev', older, rfl, hrecent, hrest⟩ := h
  refine ⟨ev :: recent, ev', older, rfl, fun x hx => ?_, hrest⟩
  rcases mem_cons.1 hx with rfl | hx
  · exact hev
  · exact hrecent x hx

/-- What is passed on is covered by a look-up, and a report carries what was dispatched. -/
def Covered (ev : RemoteEvent) (past : List RemoteEvent) : Prop :=
  ∀ e j, RemoteOp.passesOn e ev.op = some j → ∃ d, Granted e j d past ∧
    (∀ value, ev.op = .pumpProgress e j value → value.namespace_ = d.namespace_) ∧
    ∀ line, ev.op = .pumpLog e line →
      line.taskName = d.taskName ∧ line.namespace_ = d.namespace_

/-- How often the job's result was taken from the connection, and how often the job was dispatched
to it. -/
def resultsOf (e : Nat) (j : JobId) (past : List RemoteEvent) : Nat :=
  past.countP fun ev => RemoteOp.isResultOf e j ev.op

@[inherit_doc resultsOf]
def dispatchesOf (e : Nat) (j : JobId) (past : List RemoteEvent) : Nat :=
  past.countP fun ev => RemoteOp.isDispatchOf e j ev.op

/-- Every interleaving, with its history. -/
abbrev authorityRules (cfg : RemoteDispatcher.Config) :
    Rules remoteMachine.logged (remoteClients cfg) RemoteThread where
  mayStart s t call := Remote.mayStart s.1 t call = true
  mayStep s _ op env := Remote.mayStep s.1 env op = true

namespace RemoteAuthority

def holds (j : JobId) : ReaderPc → Nat
  | .token j' | .paid j' => if j' = j then 1 else 0
  | _ => 0

/-- The job is in the connection's in-flight map. -/
def present (x : Executor) (j : JobId) : Nat := if (x.inFlight.lookup j).isSome then 1 else 0

/-- The in-flight maps and the places of the readers go back to the history. -/
structure Inv (s : Remote × List RemoteEvent) (G : RemoteThread → Pc) : Prop where
  placed : Placed s.1 G
  entries : ∀ e j d, (s.1.conn e).inFlight.lookup j = some d → DispatchedAs e j d s.2
  granted : ∀ e j d, G (.reader e) = .reader e (.granted j d) → Granted e j d s.2
  taken : ∀ e j, G (.reader e) = .reader e (.token j) ∨ G (.reader e) = .reader e (.paid j) →
    ∃ d, Granted e j d s.2
  covered : ∀ later ev past, s.2 = later ++ ev :: past → Covered ev past
  spent : ∀ e j, resultsOf e j s.2 + holds j (G (.reader e)).readerPc + present (s.1.conn e) j ≤
    dispatchesOf e j s.2

theorem init_inv : Inv (.init, []) RemoteThread.rest where
  placed := .init
  entries e j d h := by cases h
  granted e j d h := by cases h
  taken e j h := by rcases h with h | h <;> cases h
  covered later ev past h := by
    have := congrArg List.length h
    simp at this
  spent e j := le_refl 0

variable {s : Remote} {past : List RemoteEvent} {G : RemoteThread → Pc} {t : RemoteThread}
  {op : RemoteOp} {env : RemoteEnv}

abbrev event (op : RemoteOp) (env : RemoteEnv) (s : Remote) : RemoteEvent :=
  ⟨op, s, (Remote.exec op env s).2⟩

/-- Only its reader looks up the jobs of a connection and reads its frames. -/
theorem leaves_reader (hhome : t.Home (G t)) (hp : (G t).Permits op) (ht : t ≠ .reader e) :
    RemoteOp.looksUp e op = none ∧ op ≠ .read e := by
  generalize G t = g at hp hhome
  cases hp with
  | @running e' f j hf | @take e' f r hf =>
    refine ⟨if_neg fun (h : e' = e) => ht ?_, by rintro ⟨⟩⟩
    rw [hhome.reader, h]
  | read =>
    refine ⟨rfl, ?_⟩
    rintro ⟨⟩
    exact ht hhome.reader
  | _ => exact ⟨rfl, by rintro ⟨⟩⟩

/-- An entry that is there after an operation was there before, unless it is that of the dispatch
just made. -/
theorem lookup_exec (h : ((exec op env s).2.conn e).inFlight.lookup j = some d) :
    (s.conn e).inFlight.lookup j = some d ∨
      ∃ job, op = .insertInFlight e job ∧ job.id = j ∧ d = .of job := by
  by_cases hnew : ∃ hello, op = .register hello ∧ e = s.next
  · obtain ⟨hello, rfl, rfl⟩ := hnew
    obtain hsame | ⟨-, hattached⟩ := register_exec (s := s) hello env
    · rw [hsame] at h
      exact .inl h
    · rw [hattached, attached_conn_new] at h
      cases h
  · rw [conn_exec_of_ne op env fun hello hop he => hnew ⟨hello, hop, he⟩] at h
    cases op with
    | insertInFlight e' job =>
      simp only [changed, changes] at h
      split at h
      · next hee =>
        subst hee
        by_cases hj : j = job.id
        · subst hj
          rw [lookup_insert] at h
          exact .inr ⟨job, rfl, rfl, (Option.some.inj h).symm⟩
        · rw [lookup_insert_ne hj] at h
          exact .inl h
      · exact .inl h
    | removeInFlight e' j' =>
      simp only [changed, changes] at h
      split at h
      · by_cases hj : j = j'
        · subst hj
          rw [lookup_erase] at h
          cases h
        · rw [lookup_erase_ne hj] at h
          exact .inl h
      · exact .inl h
    | drainInFlight =>
      simp only [changed, changes] at h
      split at h
      · cases h
      · exact .inl h
    | writeJob =>
      obtain ⟨ok, eof, order, toggles⟩ := env
      cases ok <;> simp only [changed, changes, false_eq_true, if_false,
        if_true] at h <;> split at h <;> exact .inl h
    | read =>
      obtain ⟨ok, eof, order, toggles⟩ := env
      cases eof <;> simp only [changed, changes, false_eq_true, if_false,
        if_true] at h <;> split at h <;> exact .inl h
    | _ =>
      first
      | exact .inl h
      | (simp only [changed, changes] at h; split at h <;> exact .inl h)

section

variable (h : Inv (s, past) G)
include h

theorem entries_exec :
    ∀ e j d, ((exec op env s).2.conn e).inFlight.lookup j = some d →
      DispatchedAs e j d (event op env s :: past) := by
  intro e j d hl
  obtain hold | ⟨job, rfl, hj, hd⟩ := lookup_exec hl
  · exact (h.entries e j d hold).cons _
  · exact ⟨_, mem_cons_self, job, rfl, hj, hd⟩

/-- A look-up that finds an entry grants what the entry says. -/
theorem granted_of_lookup (hop : RemoteOp.looksUp e op = some j)
    (hl : (s.conn e).inFlight.lookup j = some d) : Granted e j d (event op env s :: past) :=
  ⟨[], event op env s, past, rfl, fun x hx => (by cases hx), hop, hl, h.entries e j d hl⟩

theorem reader_exec (hp : (G (.reader e)).Permits op) :
    (∀ j d, (G (.reader e)).next op (exec op env s).1 = .reader e (.granted j d) →
      Granted e j d (event op env s :: past)) ∧
    ∀ j, ((G (.reader e)).next op (exec op env s).1 = .reader e (.token j) ∨
        (G (.reader e)).next op (exec op env s).1 = .reader e (.paid j)) →
      ∃ d, Granted e j d (event op env s :: past) := by
  have hhome := h.placed.home (.reader e)
  have htaken := h.taken e
  generalize hg : G (.reader e) = g at hp hhome htaken
  cases hp with
  | @running e' f j hf =>
    obtain rfl : e = e' := hhome
    simp only [Pc.next, exec]
    rcases hl : (s.conn e).inFlight.lookup j with _ | d
    · exact ⟨fun _ _ hn => (by cases hn), fun _ hn => (by rcases hn with hn | hn <;> cases hn)⟩
    · refine ⟨fun j' d' hn => ?_, fun _ hn => (by rcases hn with hn | hn <;> cases hn)⟩
      cases hn
      exact granted_of_lookup h (if_pos rfl) hl
  | @take e' f r hf =>
    obtain rfl : e = e' := hhome
    simp only [Pc.next, exec]
    rcases hl : (s.conn e).inFlight.lookup r.jobId with _ | d
    · exact ⟨fun _ _ hn => (by cases hn), fun _ hn => (by rcases hn with hn | hn <;> cases hn)⟩
    · refine ⟨fun _ _ hn => (by cases hn), fun j' hn => ?_⟩
      rcases hn with hn | hn
      · cases hn
        exact ⟨d, granted_of_lookup h (if_pos rfl) hl⟩
      · cases hn
  | @settle e' j | @pay e' j =>
    obtain rfl : e = e' := hhome
    refine ⟨fun _ _ hn => (by cases hn), fun j' hn => ?_⟩
    obtain ⟨d, hd⟩ := htaken j' (by rcases hn with hn | hn <;> cases hn; exact .inl rfl)
    exact ⟨d, hd.cons ⟨rfl, by rintro ⟨⟩⟩⟩
  | read =>
    generalize (exec (.read _) env s).1 = r
    cases r <;>
      exact ⟨fun _ _ hn => (by cases hn), fun _ hn => (by rcases hn with hn | hn <;> cases hn)⟩
  | _ => first
    | exact absurd hhome (fun h => h)
    | exact ⟨fun _ _ hn => (by cases hn), fun _ hn => (by rcases hn with hn | hn <;> cases hn)⟩

theorem granted_exec (hp : (G t).Permits op) :
    ∀ e j d, update G t ((G t).next op (exec op env s).1) (.reader e) =
      .reader e (.granted j d) → Granted e j d (event op env s :: past) := by
  intro e j d hgp
  by_cases ht : t = .reader e
  · subst ht
    rw [update_self] at hgp
    exact (reader_exec h hp).1 j d hgp
  · rw [update_of_ne (Ne.symm ht)] at hgp
    exact (h.granted e j d hgp).cons (leaves_reader (h.placed.home t) hp ht)

theorem taken_exec (hp : (G t).Permits op) :
    ∀ e j, (update G t ((G t).next op (exec op env s).1) (.reader e) =
        .reader e (.token j) ∨
      update G t ((G t).next op (exec op env s).1) (.reader e) =
        .reader e (.paid j)) → ∃ d, Granted e j d (event op env s :: past) := by
  intro e j hgp
  by_cases ht : t = .reader e
  · subst ht
    rw [update_self] at hgp
    exact (reader_exec h hp).2 j hgp
  · rw [update_of_ne (Ne.symm ht)] at hgp
    obtain ⟨d, hd⟩ := h.taken e j hgp
    exact ⟨d, hd.cons (leaves_reader (h.placed.home t) hp ht)⟩

theorem covered_event (hp : (G t).Permits op) : Covered (event op env s) past := by
  intro _ _ hpass
  have hhome := h.placed.home t
  generalize hg : G t = g at hp hhome
  cases hp with
  | @progress e' j' d value hns =>
    cases hhome.reader
    simp only [passesOn] at hpass
    split at hpass
    · next hee =>
      subst hee
      cases hpass
      refine ⟨d, h.granted _ _ _ hg, fun value' hv => ?_, fun line hl => (by cases hl)⟩
      cases hv
      exact hns
    · cases hpass
  | @log e' j' d line hj hn hns =>
    cases hhome.reader
    simp only [passesOn] at hpass
    split at hpass
    · next hee =>
      subst hee
      cases hpass
      refine ⟨d, hj ▸ h.granted _ _ _ hg, fun value hv => (by cases hv), fun line' hl => ?_⟩
      cases hl
      exact ⟨hn, hns⟩
    · cases hpass
  | @emit e' j' r hj =>
    cases hhome.reader
    simp only [passesOn] at hpass
    split at hpass
    · next hee =>
      subst hee
      cases hpass
      obtain ⟨d, hd⟩ := h.taken _ _ (.inr hg)
      exact ⟨d, hj ▸ hd, fun value hv => (by cases hv), fun line hl => (by cases hl)⟩
    · cases hpass
  | _ => cases hpass

theorem covered_exec (hp : (G t).Permits op) :
    ∀ later ev older, event op env s :: past = later ++ ev :: older → Covered ev older := by
  intro later ev older heq
  cases later with
  | nil =>
    obtain ⟨rfl, rfl⟩ := List.cons.inj heq
    exact covered_event h hp
  | cons x later => exact h.covered later ev older (List.cons.inj heq).2

end

variable (s op env) in
theorem present_exec (e : Nat) (j : JobId) :
    present ((exec op env s).2.conn e) j ≤
      present (s.conn e) j + (if RemoteOp.isDispatchOf e j op then 1 else 0) := by
  unfold present
  split
  · next hsome =>
    obtain ⟨d, hd⟩ := Option.isSome_iff_exists.1 hsome
    obtain hold | ⟨job, rfl, hj, -⟩ := lookup_exec hd
    · rw [if_pos (by rw [hold]; rfl)]
      exact le_add_right _ _
    · simp [isDispatchOf, hj]
  · exact zero_le _

theorem isResultOf_eq_false (j : JobId) (hhome : t.Home (G t)) (hp : (G t).Permits op)
    (ht : t ≠ .reader e) : RemoteOp.isResultOf e j op = false := by
  generalize G t = g at hp hhome
  cases hp with
  | @emit e' j' r hj =>
    have hne : e' ≠ e := fun hee => ht (by rw [hhome.reader, hee])
    simp [isResultOf, hne]
  | _ => rfl

variable (env) in
/-- What a reader holds and has passed on, against the entry it found in the map. -/
theorem spent_reader (h : Inv (s, past) G) (hp : (G (.reader e)).Permits op) (j : JobId) :
    (if RemoteOp.isResultOf e j op then 1 else 0) +
        holds j ((G (.reader e)).next op (exec op env s).1).readerPc +
        present ((exec op env s).2.conn e) j ≤
      holds j (G (.reader e)).readerPc + present (s.conn e) j +
        (if RemoteOp.isDispatchOf e j op then 1 else 0) := by
  have hhome := h.placed.home (.reader e)
  have hpresent := present_exec s op env e j
  generalize hg : G (.reader e) = g at hp hhome
  cases hp with
  | @take e' f r hf =>
    obtain rfl : e = e' := hhome
    simp only [Pc.next, exec] at hpresent ⊢
    rcases hl : (s.conn e).inFlight.lookup r.jobId with _ | _
    · simpa [isResultOf, holds, Pc.readerPc, isDispatchOf] using hpresent
    · by_cases hj : r.jobId = j
      · -- the entry moves from the map into the reader's hands
        subst hj
        simp [isResultOf, holds, Pc.readerPc, isDispatchOf, present,
          modify_conn, hl]
      · simpa [isResultOf, holds, Pc.readerPc, isDispatchOf, hj] using hpresent
  | @emit e' j' r hr =>
    obtain rfl : e = e' := hhome
    by_cases hj : j' = j
    · subst hj
      simp only [isResultOf, hr, beq_self_eq_true, Bool.and_self, if_true, Pc.next,
        holds, Pc.readerPc, isDispatchOf] at hpresent ⊢
      simpa using hpresent
    · simp only [isResultOf, hr, beq_self_eq_true, Bool.true_and, beq_iff_eq, hj,
        if_false, Pc.next, holds, Pc.readerPc, isDispatchOf] at hpresent ⊢
      simpa using hpresent
  | running j' =>
    generalize (exec (.running _ j') env s).1 = r
    cases r <;> simpa [isResultOf, holds, Pc.readerPc, Pc.next] using hpresent
  | read =>
    generalize (exec (.read _) env s).1 = r
    cases r <;> simpa [isResultOf, holds, Pc.readerPc, Pc.next] using hpresent
  | settle | pay => simpa [isResultOf, holds, Pc.readerPc, Pc.next, Nat.add_assoc] using hpresent
  | _ => first
    | exact absurd hhome (fun h => h)
    | simpa [isResultOf, holds, Pc.readerPc, Pc.next] using hpresent

/-- Each result spends an entry, and each entry is one dispatch. -/
theorem spent_exec (h : Inv (s, past) G) (hp : (G t).Permits op) :
    ∀ e j, resultsOf e j (event op env s :: past) +
        holds j (update G t ((G t).next op (exec op env s).1)
          (.reader e)).readerPc + present ((exec op env s).2.conn e) j ≤
      dispatchesOf e j (event op env s :: past) := by
  intro e j
  have hspent : resultsOf e j past + holds j (G (.reader e)).readerPc + present (s.conn e) j ≤
      dispatchesOf e j past := h.spent e j
  have hdisp : dispatchesOf e j (event op env s :: past) =
      dispatchesOf e j past + if isDispatchOf e j op then 1 else 0 := countP_cons
  have hres : resultsOf e j (event op env s :: past) =
      resultsOf e j past + if isResultOf e j op then 1 else 0 := countP_cons
  rw [hdisp, hres]
  by_cases ht : t = .reader e
  · subst ht
    rw [update_self]
    have hmove := spent_reader env h hp j
    omega
  · rw [update_of_ne (Ne.symm ht), isResultOf_eq_false j (h.placed.home t) hp ht]
    have hpresent := present_exec s op env e j
    simp only [false_eq_true, if_false]
    omega

theorem Inv.step (h : Inv (s, past) G) (hp : (G t).Permits op) (hm : s.mayStep env op = true) :
    Inv ((exec op env s).2, event op env s :: past)
      (update G t ((G t).next op (exec op env s).1)) where
  placed := h.placed.step hp hm
  entries := entries_exec h
  granted := granted_exec h hp
  taken := taken_exec h hp
  covered := covered_exec h hp
  spent := spent_exec h hp

theorem Inv.start (h : Inv (s, past) G) (hdone : (G t).Done) {call : RemoteCall}
    (hm : s.mayStart t call = true) : Inv (s, past) (update G t t.start) where
  placed := h.placed.start hdone hm
  entries := h.entries
  granted e j d hgp := by
    by_cases ht : t = .reader e
    · subst ht
      rw [update_self] at hgp
      cases hgp
    · rw [update_of_ne (Ne.symm ht)] at hgp
      exact h.granted e j d hgp
  taken e j hgp := by
    by_cases ht : t = .reader e
    · subst ht
      rw [update_self] at hgp
      rcases hgp with hgp | hgp <;> cases hgp
    · rw [update_of_ne (Ne.symm ht)] at hgp
      exact h.taken e j hgp
  covered := h.covered
  spent e j := by
    have hspent := h.spent e j
    by_cases ht : t = .reader e
    · subst ht
      rw [update_self]
      exact Nat.le_trans (Nat.add_le_add_right (Nat.add_le_add_left (Nat.zero_le _) _) _) hspent
    · rw [update_of_ne (Ne.symm ht)]
      exact hspent

theorem sound (cfg : RemoteDispatcher.Config) :
    Pool.Sound (authorityRules cfg) remoteDiscipline Inv where
  start _ _ t _ h hdone hm := ⟨t.start, h.start hdone hm, follows_remoteCall cfg hm⟩
  step _ _ _ _ _ h hp hm := ⟨trivial, h.step hp hm⟩

end RemoteAuthority

/-- **An executor speaks only for jobs that were dispatched to it**, in every run and whatever the
peers send. A result, a progress value or a log line that is passed on from a connection follows a
look-up of its reader that found the job in the connection's in-flight map, put there by a dispatch
of the job to the connection; progress and log lines carry the namespace and the task of that
dispatch; and for no job are there more results from a connection than dispatches to it. -/
theorem executor_authority (cfg : RemoteDispatcher.Config)
    (c : Pool remoteMachine.logged RemoteThread)
    (h : Pool.Reaches (authorityRules cfg) (Pool.idle (Remote.init, [])) c) :
    (∀ later ev past, c.state.2 = later ++ ev :: past → Covered ev past) ∧
    ∀ e j, resultsOf e j c.state.2 ≤ dispatchesOf e j c.state.2 := by
  obtain ⟨G, hG⟩ := (RemoteAuthority.sound cfg).reachable
    (.idle RemoteAuthority.init_inv RemoteThread.rest_done) h
  refine ⟨hG.inv.covered, fun e j => ?_⟩
  have hspent := hG.inv.spent e j
  omega

/-- No credential, with a side-channel. -/
def reportingRemote : RemoteDispatcher.Config := ⟨none, true, fun _ => none⟩

/-- The moves of a thread over the machine with history. -/
def loggedMoves (t : RemoteThread) (call : RemoteCall) (n : Nat) :
    List (Move remoteMachine.logged (remoteClients reportingRemote) RemoteThread) :=
  .start t call :: List.replicate n (.step t RemoteEnv.calm)

/-- An executor gets a job, reports progress under another task's name, answers twice, and answers
for a job it never got. -/
def forgingMoves : List (Move remoteMachine.logged (remoteClients reportingRemote) RemoteThread) :=
  loggedMoves (.other 0) (.attach (plainHello "x" 1)) 3 ++
  loggedMoves .run (.place (plainJob "j") 0) 8 ++
  loggedMoves (.other 0) (.send 0 ⟨.taskLog "j" "other" "info" "half way" none, []⟩) 1 ++
  loggedMoves (.other 0) (.send 0 ⟨.success "j" none "t" 5, []⟩) 1 ++
  loggedMoves (.other 0) (.send 0 ⟨.success "j" none "t" 5, []⟩) 1 ++
  loggedMoves (.other 0) (.send 0 ⟨.success "k" none "t" 5, []⟩) 1 ++
  loggedMoves (.reader 0) (.readFrame 0) 3 ++ loggedMoves (.reader 0) (.readFrame 0) 5 ++
  loggedMoves (.reader 0) (.readFrame 0) 2 ++ loggedMoves (.reader 0) (.readFrame 0) 2

/-- One result and one log line get through, the line under the dispatched task's name. -/
theorem executor_authority_forged :
    ∃ c, Pool.Reaches (authorityRules reportingRemote) (Pool.idle (Remote.init, [])) c ∧
      c.state.1.results.length = 1 ∧ c.state.1.logs.map LogLine.taskName = ["t"] ∧
      (∀ later ev past, c.state.2 = later ++ ev :: past → Covered ev past) ∧
      ∀ e j, resultsOf e j c.state.2 ≤ dispatchesOf e j c.state.2 := by
  obtain ⟨c, hc, hres, hlogs⟩ := Pool.exists_reaches (authorityRules reportingRemote)
    (.idle (init, [])) forgingMoves
    (fun c => c.state.1.results.length = 1 ∧ c.state.1.logs.map LogLine.taskName = ["t"])
    (by decide +kernel)
  exact ⟨c, hc, hres, hlogs, executor_authority reportingRemote c hc⟩

/-- **What is passed on need not be in flight any more.** The reader finds the job in the map, the
write of the job fails and takes the entry back, and the reader still passes the progress on. -/
theorem reported_after_removal :
    ∃ c, Pool.Reaches (remoteRules reportingRemote) (Pool.idle Remote.init) c ∧
      (c.prog (.reader 0)).nextOp = some (.pumpProgress 0 "j" ⟨50, none⟩) ∧
      (c.state.conn 0).inFlight.lookup "j" = none := by
  refine Pool.exists_reaches _ _
    (remoteMoves reportingRemote (.other 0) (.attach (plainHello "x" 1)) 3 ++
      remoteMoves reportingRemote .run (.place (plainJob "j") 0) 6 ++
      remoteMoves reportingRemote (.other 0) (.send 0 ⟨.progress "j" 50, []⟩) 1 ++
      remoteMoves reportingRemote (.reader 0) (.readFrame 0) 2 ++
      [.step .run { RemoteEnv.calm with ok := false }, .step .run RemoteEnv.calm]) _
    (by decide +kernel)

end Flexiq
