import Flexiq.RemoteControl

/-!
# Whose record a clean-up removes

A broken connection is found out twice: by the thread whose write fails and by the reader that
reads the end of the stream. Both remove **whatever is registered under the executor's id**, not
the record of their own connection. An executor that reconnects under its id between the two is
taken out of the registry by the second clean-up, while its connection stays open: nothing is ever
placed on it again.

The registry is safe when an id is registered again only after its earlier connections have been
cleaned up by both.
-/

namespace Flexiq

open Remote (exec)

open Function Option Remote AList Nat

variable {e : Nat}

/-- Nothing is left to clean up after the connections that announced the id: their readers have
ended and no job is being placed on them. -/
abbrev Remote.CleanedUp (s : Remote) (id : String) : Prop :=
  ∀ e < s.next, (s.conn e).id = id → (s.conn e).readerOver = true ∧ s.placing ≠ some e

/-- A handshake that would take a free id finds nothing left to clean up after it. -/
def Remote.ReusesCleanly (s : Remote) : RemoteOp → Prop
  | .register h => h.executorId ∉ s.executors → s.CleanedUp h.executorId
  | _ => True

instance (s : Remote) : DecidablePred s.ReusesCleanly := fun op => by
  unfold Remote.ReusesCleanly
  split <;> infer_instance

/-- Operations block as ever, ids are reused cleanly, and the registry is not emptied to shut
down. -/
abbrev Remote.MayStepCleanly (s : Remote) (env : RemoteEnv) (op : RemoteOp) : Prop :=
  s.mayStep env op = true ∧ op ≠ .drainExecutors ∧ s.ReusesCleanly op

/-- A run that registers a free id only when nothing is left to clean up after it. -/
abbrev identityRules (cfg : RemoteDispatcher.Config) :
    Rules remoteMachine (remoteClients cfg) RemoteThread where
  mayStart s t call := Remote.mayStart s t call = true
  mayStep s _ op env := Remote.MayStepCleanly s env op

namespace RemoteIdentity

/-- The thread is about to remove, or has removed, the record of this connection. -/
def cleansUp : Pc → Nat → Prop
  | .run (.unsent e _), e' | .run (.dropped e), e' | .run (.released e), e' => e = e'
  | .reader e .ending, e' => e = e'
  | _, _ => False

/-- Why a clean-up only meets its own record. -/
structure Inv (s : Remote) (G : RemoteThread → Pc) : Prop where
  placed : Placed s G
  /-- A connection that will still be cleaned up shares its id with no other registered one. -/
  own : ∀ e < s.next, (s.conn e).readerOver = false ∨ s.placing = some e →
    ∀ e', s.executors.lookup (s.conn e).id = some e' → e' = e
  opened : ∀ e < s.next, (s.conn e).isOpen = true → s.Registered e
  /-- A clean-up is of a connection found broken. -/
  closed : ∀ t e, cleansUp (G t) e → e < s.next ∧ (s.conn e).isOpen = false
  /-- A reader that is not over has not been recorded as such. -/
  alive : ∀ e p, G (.reader e) = .reader e p → p ≠ .ended → (s.conn e).readerOver = false

variable {s : Remote} {G : RemoteThread → Pc} {t : RemoteThread} {op : RemoteOp} {env : RemoteEnv}

/-- A connection that is open after an operation was open before. -/
theorem isOpen_of_exec (he : e < s.next) (h : ((exec op env s).2.conn e).isOpen = true) :
    (s.conn e).isOpen = true := by
  rw [conn_exec op env he] at h
  unfold changed at h
  split at h
  · next _ _ hc =>
    split at h
    · unfold changes at hc
      split at hc
      all_goals first
        | (cases hc; exact h)
        | (cases hc; simp [Executor.isOpen] at h)
        | (split at hc <;> cases hc <;> first | exact h | simp [Executor.isOpen] at h)
        | cases hc
    · exact h
  · exact h

theorem closed_exec (he : e < s.next) (h : (s.conn e).isOpen = false) :
    ((exec op env s).2.conn e).isOpen = false := by
  refine Bool.eq_false_iff.2 fun hopen => ?_
  rw [isOpen_of_exec he hopen] at h
  cases h

variable (op env) in
theorem readerOver_exec (he : e < s.next) :
    ((exec op env s).2.conn e).readerOver = (s.conn e).readerOver ∨
      op = .readerExit e ∧ ((exec op env s).2.conn e).readerOver = true := by
  rw [conn_exec op env he]
  unfold changed
  split
  · next _ _ hc =>
    split
    · next hee =>
      subst hee
      unfold changes at hc
      split at hc
      all_goals first
        | (cases hc; exact .inl rfl)
        | (cases hc; exact .inr ⟨rfl, rfl⟩)
        | (split at hc <;> cases hc <;> exact .inl rfl)
        | cases hc
    · exact .inl rfl
  · exact .inl rfl

theorem init_inv : Inv .init RemoteThread.rest where
  placed := .init
  own e he := absurd he (not_lt_zero e)
  opened e he := absurd he (not_lt_zero e)
  closed t e h := by cases t <;> cases h
  alive e p h hp := by
    cases h
    exact absurd rfl hp

/-- The connection that a permitted clean-up is about. -/
theorem own_of_permits (h : Inv s G) (hp : (G t).Permits (.deregister e)) :
    cleansUp (G t) e ∧ ((s.conn e).readerOver = false ∨ s.placing = some e) := by
  have hhome := h.placed.home t
  generalize hg : G t = g at hp hhome
  cases hp with
  | dropExecutor =>
    cases hhome.run
    refine ⟨rfl, .inr ?_⟩
    rw [h.placed.placing, hg]
    rfl
  | leave =>
    cases hhome.reader
    exact ⟨rfl, .inl (h.alive e _ hg nofun)⟩

/-- An open connection survives a clean-up: the record the clean-up finds is that of a connection
it knows to be broken. -/
theorem registered_exec (h : Inv s G) (hp : (G t).Permits op) (hdrain : op ≠ .drainExecutors)
    (he : e < s.next) (hopen : (s.conn e).isOpen = true) : (exec op env s).2.Registered e := by
  have hreg := h.opened e he hopen
  unfold Remote.Registered
  rw [id_exec op env he]
  cases op with
  | register hello =>
    simp only [exec]
    split
    · exact hreg
    · split
      · exact hreg
      · next hnew =>
        have hne : (s.conn e).id ≠ hello.executorId := fun heq =>
          hnew (lookup_isSome.1 (by rw [← heq, hreg]; rfl))
        rw [lookup_insert_ne hne]
        exact hreg
  | deregister e' =>
    obtain ⟨hclean, hown⟩ := own_of_permits h hp
    obtain ⟨he', hclosed⟩ := h.closed t e' hclean
    by_cases hid : (s.conn e).id = (s.conn e').id
    · have hsame : e = e' := h.own e' he' hown e (by rw [← hid]; exact hreg)
      subst hsame
      rw [hopen] at hclosed
      cases hclosed
    · simp only [exec]
      rw [lookup_erase_ne hid]
      exact hreg
  | read =>
    simp only [exec]
    split <;> exact hreg
  | drainExecutors => exact absurd rfl hdrain
  | _ => exact hreg

/-- The reservation after an operation. -/
theorem placing_exec (h : (exec op env s).2.placing = some e) :
    s.placing = some e ∨ op = .reserve e := by
  cases op with
  | reserve =>
    cases h
    exact .inr rfl
  | placed => cases h
  | register hello =>
    obtain hsame | ⟨-, hattached⟩ := register_exec (s := s) hello env
    · rw [hsame] at h
      exact .inl h
    · rw [hattached] at h
      exact .inl h
  | read =>
    simp only [exec] at h
    split at h <;> exact .inl h
  | _ => exact .inl h

theorem registered_of_reserve (h : Placed s G) (hp : (G t).Permits (.reserve e)) :
    s.Registered e := by
  have hhome := h.home t
  generalize hg : G t = g at hp hhome
  cases hp with
  | reserve he =>
    cases hhome.run
    have hfound := h.found
    have hwalks := h.walks
    rw [hg] at hfound hwalks
    exact hwalks e (hfound he)

/-- No two connections that will still be cleaned up meet in the registry. -/
theorem own_exec (h : Inv s G) (hp : (G t).Permits op) (hclear : s.ReusesCleanly op) :
    ∀ e < (exec op env s).2.next,
      ((exec op env s).2.conn e).readerOver = false ∨
        (exec op env s).2.placing = some e →
      ∀ e', (exec op env s).2.executors.lookup ((exec op env s).2.conn e).id =
        some e' → e' = e := by
  intro e he hclean e' hl
  by_cases hold : e < s.next
  · rw [id_exec op env hold] at hl
    have hstill : (s.conn e).readerOver = false ∨ s.placing = some e ∨ op = .reserve e := by
      rcases hclean with hr | hpl
      · obtain hsame | ⟨-, htrue⟩ := readerOver_exec op env hold
        · exact .inl (hsame.symm.trans hr)
        · rw [htrue] at hr
          cases hr
      · exact .inr (placing_exec hpl)
    obtain hbefore | ⟨hello, rfl, hid, -, hnew, -⟩ := executors_exec op env _ e' hl
    · rcases hstill with hr | hpl | rfl
      · exact h.own e hold (.inl hr) e' hbefore
      · exact h.own e hold (.inr hpl) e' hbefore
      · exact some.inj (hbefore.symm.trans (registered_of_reserve h.placed hp))
    · -- the id is being registered again: nothing is left of this connection
      obtain ⟨hover, hnot⟩ := hclear hnew e hold hid
      rcases hstill with hr | hpl | hres
      · rw [hover] at hr
        cases hr
      · exact absurd hpl hnot
      · cases hres
  · obtain hsame | ⟨hello, -, -, hattached⟩ := next_exec (s := s) op env
    · rw [hsame] at he
      exact absurd he hold
    · rw [hattached] at he hl
      obtain rfl : e = s.next := Nat.le_antisymm (Nat.lt_succ_iff.1 he) (Nat.le_of_not_lt hold)
      rw [attached_conn_new] at hl
      exact (some.inj (hl.symm.trans (lookup_insert _)))

/-- An open connection is registered after an operation. -/
theorem opened_exec (h : Inv s G) (hp : (G t).Permits op) (hdrain : op ≠ .drainExecutors) :
    ∀ e < (exec op env s).2.next,
      ((exec op env s).2.conn e).isOpen = true →
        (exec op env s).2.Registered e := by
  intro e he hopen
  by_cases hold : e < s.next
  · exact registered_exec h hp hdrain hold (isOpen_of_exec hold hopen)
  · obtain hsame | ⟨hello, -, -, hattached⟩ := next_exec (s := s) op env
    · rw [hsame] at he
      exact absurd he hold
    · rw [hattached] at he ⊢
      obtain rfl : e = s.next := Nat.le_antisymm (Nat.lt_succ_iff.1 he) (Nat.le_of_not_lt hold)
      unfold Remote.Registered
      rw [attached_conn_new]
      exact lookup_insert _

/-- A thread that begins to clean up has found its connection broken. -/
theorem closed_next (h : Inv s G) (hp : (G t).Permits op) (hm : s.mayStep env op = true)
    (hc : cleansUp ((G t).next op (exec op env s).1) e) :
    e < s.next ∧ ((exec op env s).2.conn e).isOpen = false := by
  have hkept : cleansUp (G t) e → e < s.next ∧ ((exec op env s).2.conn e).isOpen = false :=
    fun hbefore => ⟨(h.closed t e hbefore).1, closed_exec (h.closed t e hbefore).1
      (h.closed t e hbefore).2⟩
  have hhome := h.placed.home t
  have htarget := h.placed.target
  have hplacing := h.placed.placing
  have hattached := h.placed.attached
  generalize hg : G t = g at hp hhome hc hkept
  cases hp with
  | write =>
    cases hhome.run
    rw [hg] at hplacing
    obtain ⟨ok, eof, order, toggles⟩ := env
    cases ok with
    | true => cases hc
    | false =>
      obtain rfl : _ = e := hc
      have he := htarget _ hplacing
      refine ⟨he, ?_⟩
      rw [conn_exec _ _ he]
      simp [changed, changes, Executor.isOpen]
  | read =>
    cases hhome.reader
    obtain ⟨_, eof, _, _⟩ := env
    cases eof with
    | true =>
      obtain rfl : _ = e := hc
      have he := hattached _ _ hg (by rintro ⟨⟩)
      refine ⟨he, ?_⟩
      rw [conn_exec _ _ he]
      simp [changed, changes, Executor.isOpen]
    | false =>
      -- without the end of the stream a read waits for a frame
      rename_i e'
      simp only [mayStep, Bool.false_or, Bool.not_eq_true', List.isEmpty_eq_false_iff] at hm
      obtain ⟨_, _, hbox⟩ := List.exists_cons_of_ne_nil hm
      simp [Pc.next, exec, hbox, cleansUp] at hc
  | takeBack => exact hkept hc
  | giveBack => exact hkept hc
  | running j =>
    generalize (exec (.running _ j) env s).1 = r at hc
    cases r <;> cases hc
  | take =>
    generalize (exec (.removeInFlight _ _ .reader) env s).1 = r at hc
    cases r <;> cases hc
  | _ => cases hc

/-- A reader that goes on is not recorded as over. -/
theorem alive_exec (h : Inv s G) (hp : (G t).Permits op) :
    ∀ e p, update G t ((G t).next op (exec op env s).1) (.reader e) = .reader e p →
      p ≠ .ended → ((exec op env s).2.conn e).readerOver = false := by
  intro e p hgp hne
  have hbefore : ∃ q, G (.reader e) = .reader e q ∧ q ≠ .ended := by
    by_cases hu : .reader e = t
    · subst hu
      have hhome := h.placed.home (.reader e)
      generalize G (.reader e) = g at hp hhome
      cases hp <;> first
        | exact absurd hhome (fun h => h)
        | (cases hhome; exact ⟨_, rfl, nofun⟩)
    · rw [update_of_ne hu] at hgp
      exact ⟨p, hgp, hne⟩
  obtain ⟨q, hq, hqne⟩ := hbefore
  have he := h.placed.attached e q hq hqne
  obtain hsame | ⟨rfl, -⟩ := readerOver_exec op env he
  · rw [hsame]
    exact h.alive e q hq hqne
  · -- the exit is the reader's own last step
    have hhome := h.placed.home t
    generalize hg : G t = g at hp hhome hgp
    cases hp with
    | exit =>
      cases hhome.reader
      rw [update_self] at hgp
      cases hgp
      exact absurd rfl hne

theorem Inv.step (h : Inv s G) (hp : (G t).Permits op) (hm : s.mayStep env op = true)
    (hdrain : op ≠ .drainExecutors) (hclear : s.ReusesCleanly op) :
    Inv (exec op env s).2 (update G t ((G t).next op (exec op env s).1)) where
  placed := h.placed.step hp hm
  own := own_exec h hp hclear
  opened := opened_exec h hp hdrain
  closed u e hc := by
    have hnext := next_le_exec (s := s) op env
    by_cases hu : u = t
    · subst hu
      rw [update_self] at hc
      obtain ⟨he, hclosed⟩ := closed_next h hp hm hc
      exact ⟨lt_of_lt_of_le he hnext, hclosed⟩
    · rw [update_of_ne hu] at hc
      obtain ⟨he, hclosed⟩ := h.closed u e hc
      exact ⟨lt_of_lt_of_le he hnext, closed_exec he hclosed⟩
  alive := alive_exec h hp

theorem Inv.start (h : Inv s G) (hdone : (G t).Done) {call : RemoteCall}
    (hm : s.mayStart t call = true) : Inv s (update G t t.start) where
  placed := h.placed.start hdone hm
  own := h.own
  opened := h.opened
  closed u e hc := by
    by_cases hu : u = t
    · subst hu
      rw [update_self] at hc
      cases u <;> cases hc
    · rw [update_of_ne hu] at hc
      exact h.closed u e hc
  alive e p hgp hne := by
    by_cases hu : .reader e = t
    · subst hu
      exact (mayStart_reader hm).2
    · rw [update_of_ne hu] at hgp
      exact h.alive e p hgp hne

theorem sound (cfg : RemoteDispatcher.Config) :
    Pool.Sound (identityRules cfg) remoteDiscipline Inv where
  start _ _ t _ h hdone hm := ⟨t.start, h.start hdone hm, follows_remoteCall cfg hm⟩
  step _ _ _ _ _ h hp hm := ⟨trivial, h.step hp hm.1 hm.2.1 hm.2.2⟩

end RemoteIdentity

/-- **A clean-up never removes the record of another open connection**, in every run in which an
id is registered again only after its earlier connections were cleaned up by both their reader and
their writer: what is registered under the id of a connection being cleaned up is that connection
or one that is no longer open, and so every open connection is registered. -/
theorem cleanup_spares_open (cfg : RemoteDispatcher.Config) (c : Pool remoteMachine RemoteThread)
    (h : Pool.Reaches (identityRules cfg) (Pool.idle Remote.init) c) :
    (∀ t e, (c.prog t).nextOp = some (.deregister e) →
      ∀ e', c.state.executors.lookup (c.state.conn e).id = some e' →
        (c.state.conn e').isOpen = true → e' = e) ∧
    ∀ e < c.state.next, (c.state.conn e).isOpen = true → c.state.Registered e := by
  obtain ⟨_, hG⟩ := (RemoteIdentity.sound cfg).reachable
    (.idle RemoteIdentity.init_inv RemoteThread.rest_done) h
  refine ⟨fun t e hnext e' hl _ => ?_, hG.inv.opened⟩
  rcases hp : c.prog t with _ | ⟨op, _⟩
  · rw [hp] at hnext
    cases hnext
  · rw [hp] at hnext
    obtain rfl : op = .deregister e := some.inj hnext
    obtain ⟨hclean, hown⟩ := RemoteIdentity.own_of_permits hG.inv (hG.permits hp)
    exact hG.inv.own e (hG.inv.closed t e hclean).1 hown e' hl

/-- An executor attaches, and the write of the first job to it fails. -/
def failedWriteMoves : List (Move remoteMachine (remoteClients plainRemote) RemoteThread) :=
  remoteMoves plainRemote (.other 0) (.attach (plainHello "x" 1)) 3 ++
  remoteMoves plainRemote .run (.place (plainJob "j") 0) 5 ++
  [.step .run { RemoteEnv.calm with ok := false }]

/-- The reader of the first connection reads its end. -/
def endOfStreamMoves : List (Move remoteMachine (remoteClients plainRemote) RemoteThread) :=
  [.start (.reader 0) (.readFrame 0), .step (.reader 0) { RemoteEnv.calm with eof := true }]

/-- An executor whose connection both sides have cleaned up attaches again, and its new record is
kept through the next clean-up. -/
theorem cleanup_spares_open_reattached :
    ∃ c, Pool.Reaches (identityRules plainRemote) (Pool.idle Remote.init) c ∧
      (c.prog (.reader 1)).nextOp = some (.deregister 1) ∧
      c.state.executors.lookup "x" = some 1 ∧
      ∀ e < c.state.next, (c.state.conn e).isOpen = true → c.state.Registered e := by
  obtain ⟨c, hc, hnext, hx⟩ := Pool.exists_reaches (identityRules plainRemote)
    (.idle init)
    (failedWriteMoves ++ .replicate 4 (.step .run .calm) ++ endOfStreamMoves ++
      .replicate 3 (.step (.reader 0) .calm) ++
      remoteMoves plainRemote (.other 1) (.attach (plainHello "x" 1)) 3 ++
      [.start (.reader 1) (.readFrame 1), .step (.reader 1) { RemoteEnv.calm with eof := true }])
    (fun c => (c.prog (.reader 1)).nextOp = some (.deregister 1) ∧
      c.state.executors.lookup "x" = some 1) (by decide +kernel)
  exact ⟨c, hc, hnext, hx, (cleanup_spares_open plainRemote c hc).2⟩

/-- **The second clean-up removes the record of a connection that is open.** The write to the
first connection fails and its record is removed; the executor attaches again; then the reader of
the first connection reads its end and removes what is registered under the id, the new record.
The new connection is open and nothing can be placed on it any more. -/
theorem cleanup_removes_open :
    ∃ c c' : Pool remoteMachine RemoteThread,
      Pool.Reaches (remoteRules plainRemote) (Pool.idle Remote.init) c ∧
      (c.prog (.reader 0)).nextOp = some (.deregister 0) ∧
      c.state.executors.lookup (c.state.conn 0).id = some 1 ∧
      (c.state.conn 1).isOpen = true ∧
      Pool.Reaches (remoteRules plainRemote) c c' ∧
      (c'.state.conn 1).isOpen = true ∧ ¬ c'.state.Registered 1 := by
  obtain ⟨c, c', hc, hc', hnext, hx, hopen, hopen', hgone⟩ := Pool.exists_reaches_twice
    (remoteRules plainRemote) (.idle init)
    (failedWriteMoves ++ .replicate 4 (.step .run .calm) ++
      remoteMoves plainRemote (.other 1) (.attach (plainHello "x" 1)) 3 ++ endOfStreamMoves)
    [.step (.reader 0) RemoteEnv.calm]
    (fun c c' => (c.prog (.reader 0)).nextOp = some (.deregister 0) ∧
      c.state.executors.lookup (c.state.conn 0).id = some 1 ∧ (c.state.conn 1).isOpen = true ∧
      (c'.state.conn 1).isOpen = true ∧ ¬ c'.state.Registered 1) (by decide +kernel)
  exact ⟨c, c', hc, hnext, hx, hopen, hc', hopen', hgone⟩

end Flexiq
