import Flexiq.RemoteControl

/-!
# Slots of a remote executor

A placement loads the free counter of every executor that advertises the task, and only then takes
one off the best one. The registry lock it holds keeps other placements away, but not the reader
thread: a heartbeat that announces **no** free slot, handled between the load and the decrement,
leaves zero in a counter the placement has seen as positive, and the decrement wraps. From then on
the executor looks as if it had four thousand million free slots.

Without such a heartbeat the counter is exact. What a slot is doing is always accounted for: it is
free, reserved for the job being placed, taken by a job in flight, or on its way back from a reader
that has taken a result. The account is kept until a write fails, and then the executor is dropped
before the next placement.
-/

namespace Flexiq

open Placed (run_of_ne)

open Remote (changed exec)

open Function List Remote AList Bool Nat

variable {e : Nat}

/-! ## The counter -/

variable {a b : UInt32}

theorem toNat_sub_one (h : a ≠ 0) : (a - 1).toNat + 1 = a.toNat := by
  have hpos : 0 < a.toNat := by
    rw [pos_iff_ne_zero]
    exact fun h0 => h (UInt32.toNat_inj.1 h0)
  have hle : (1 : UInt32) ≤ a := UInt32.le_iff_toNat_le.2 hpos
  rw [UInt32.toNat_sub_of_le _ _ hle]
  exact Nat.sub_add_cancel hpos

theorem toNat_add_one (h : a.toNat + 1 ≤ b.toNat) : (a + 1).toNat = a.toNat + 1 := by
  rw [UInt32.toNat_add]
  exact mod_eq_of_lt (lt_of_le_of_lt h b.toNat_lt)

theorem toNat_min_le (a b : UInt32) : (min a b).toNat ≤ a.toNat := by
  rw [show min a b = if a ≤ b then a else b from rfl]
  split
  · exact le_rfl
  · next h =>
    rw [UInt32.le_iff_toNat_le] at h
    omega

theorem min_ne_zero (ha : a ≠ 0) (hb : b ≠ 0) : min a b ≠ 0 := by
  rw [show min a b = if a ≤ b then a else b from rfl]
  split
  · exact ha
  · exact hb

/-- What an operation does to a slot is accounted for: free, reserved, in flight or on its way
back. -/
def Executor.Accounts (x : Executor) (charge : Nat) : Prop :=
  x.free.toNat + x.inFlight.keys.length + charge ≤ x.slots.toNat

/-- A change that takes from one place at least what it adds to another keeps the account. -/
theorem Executor.Accounts.of_le {x x' : Executor} {charge charge' : Nat} (h : x.Accounts charge)
    (hs : x'.slots = x.slots) (hle : x'.free.toNat + x'.inFlight.keys.length + charge' ≤
      x.free.toNat + x.inFlight.keys.length + charge) : x'.Accounts charge' := by
  unfold Executor.Accounts at h ⊢
  rw [hs]
  exact hle.trans h

/-- The slot reserved for the job being placed, until the job is in flight. -/
def RunPc.reservedFor : RunPc → Nat → Nat
  | .chosen e, e' | .reserved e, e' => if e = e' then 1 else 0
  | _, _ => 0

/-- The executor is being dropped after a failed write. -/
def RunPc.drops : RunPc → Nat → Prop
  | .unsent e _, e' | .dropped e, e' | .released e, e' => e = e'
  | _, _ => False

/-- The slot of a job whose entry the reader has taken, until it is free again. -/
def ReaderPc.returns : ReaderPc → Nat
  | .token _ => 1
  | _ => 0

def slotsHeld (G : RemoteThread → Pc) (e : Nat) : Nat :=
  (G .run).runPc.reservedFor e + (G (.reader e)).readerPc.returns

/-! ## Runs without a heartbeat of zero during a scan -/

/-- A heartbeat handled while a placement scans the counters announces a free slot. -/
def Remote.keepsOne (s : Remote) : RemoteOp → Bool
  | .shrink _ n => !s.locked || n != 0
  | _ => true

/-- Every interleaving in which no heartbeat of zero falls into a scan. -/
abbrev slotRules (cfg : RemoteDispatcher.Config) :
    Rules remoteMachine (remoteClients cfg) RemoteThread where
  mayStart s t call := Remote.mayStart s t call = true
  mayStep s _ op env := Remote.mayStep s env op = true ∧ Remote.keepsOne s op = true

namespace RemoteSlots

/-- The slots of every executor are accounted for. -/
structure Inv (s : Remote) (G : RemoteThread → Pc) : Prop where
  placed : Placed s G
  /-- No more jobs are in flight than there are slots. -/
  fits : ∀ e < s.next, (s.conn e).inFlight.keys.length ≤ (s.conn e).slots.toNat
  /-- Until a write fails every slot is accounted for. -/
  accounts : ∀ e < s.next, (s.conn e).broken = false → (s.conn e).Accounts (slotsHeld G e)
  /-- A counter seen as positive stays so until the scan is over. -/
  positive : ∀ e ∈ (G .run).runPc.found, (s.conn e).free ≠ 0
  /-- A broken connection that is still registered is being dropped. -/
  sound : ∀ e, s.Registered e → (s.conn e).broken = false ∨ (G .run).runPc.drops e
  dropping : ∀ e, (G .run).runPc.drops e → (s.conn e).broken = true
  reserving : ∀ e, (G .run).runPc.reservedFor e = 1 → (s.conn e).broken = false
  drained : ∀ es, (G .run).runPc = .draining es → ∀ e ∈ es, e < s.next ∧ ¬ s.Registered e

theorem init_inv : Inv .init RemoteThread.rest where
  placed := .init
  fits e he := absurd he (not_lt_zero e)
  accounts e he := absurd he (not_lt_zero e)
  positive e he := by cases he
  sound e he := by cases he
  dropping e he := by cases he
  reserving e he := by cases he
  drained es he := by cases he

variable {s : Remote} {G : RemoteThread → Pc} {t : RemoteThread} {op : RemoteOp} {env : RemoteEnv}

/-- The held slots after a step of the placing thread, and after one of a reader. -/
theorem slotsHeld_run (g : Pc) (e : Nat) : slotsHeld (update G .run g) e =
    g.runPc.reservedFor e + (G (.reader e)).readerPc.returns := by
  unfold slotsHeld
  rw [update_self, update_of_ne (by simp)]

theorem slotsHeld_reader (g : Pc) (e : Nat) : slotsHeld (update G (.reader e) g) e =
    (G .run).runPc.reservedFor e + g.readerPc.returns := by
  unfold slotsHeld
  rw [update_self, update_of_ne (by simp)]

theorem slotsHeld_reader_ne {e' : Nat} (h : e ≠ e') (g : Pc) :
    slotsHeld (update G (.reader e') g) e = slotsHeld G e := by
  unfold slotsHeld
  rw [update_of_ne (by simp), update_of_ne (by simpa using h)]

theorem slotsHeld_outside (n : Nat) (g : Pc) (e : Nat) :
    slotsHeld (update G (.other n) g) e = slotsHeld G e := by
  unfold slotsHeld
  rw [update_of_ne (by simp), update_of_ne (by simp)]

theorem length_keys_insert_le (m : AList fun _ => RemoteInFlight) (j : JobId)
    (d : RemoteInFlight) : (m.insert j d).keys.length ≤ m.keys.length + 1 := by
  rw [keys_insert, length_cons]
  exact succ_le_succ (length_erase_le ..)

theorem length_keys_erase_le (m : AList fun _ => RemoteInFlight) (j : JobId) :
    (m.erase j).keys.length ≤ m.keys.length := by
  rw [keys_erase]
  exact length_erase_le ..

theorem length_keys_erase {m : AList fun _ => RemoteInFlight} {j : JobId}
    (h : (m.lookup j).isSome = true) : (m.erase j).keys.length + 1 = m.keys.length := by
  have hmem : j ∈ m.keys := mem_keys.1 (lookup_isSome.1 h)
  rw [AList.keys_erase, List.length_erase_of_mem hmem]
  exact Nat.sub_add_cancel (List.length_pos_of_mem hmem)

/-- No thread holds a slot of a connection that is not attached yet. -/
theorem Inv.held_fresh (h : Inv s G) : slotsHeld G s.next = 0 := by
  have hrun : (G .run).runPc.reservedFor s.next = 0 := by
    have htarget := h.placed.target
    rw [h.placed.placing] at htarget
    generalize (G .run).runPc = p at htarget
    cases p with
    | chosen e | reserved e => exact if_neg (Nat.ne_of_lt (htarget e rfl))
    | _ => rfl
  have hreader : (G (.reader s.next)).readerPc.returns = 0 := by
    have hhome := h.placed.home (.reader s.next)
    rcases hg : G (.reader s.next) with _ | _ | ⟨e, p⟩
    · rfl
    · rfl
    · rw [hg] at hhome
      obtain rfl : s.next = e := hhome
      cases p with
      | token => exact absurd (h.placed.attached _ _ hg (fun h => by cases h)) (lt_irrefl _)
      | _ => rfl
  unfold slotsHeld
  rw [hrun, hreader]

theorem accounts_run (h : Inv s G) (hp : (G .run).Permits op) (he : e < s.next)
    (hb : ((exec op env s).2.conn e).broken = false) :
    ((exec op env s).2.conn e).Accounts
      (slotsHeld (update G .run ((G .run).next op (exec op env s).1)) e) := by
  have hhome := h.placed.home .run
  have hpos := h.positive
  have hdrop := h.dropping e
  have hacc := h.accounts e he
  rw [slotsHeld_run]
  unfold slotsHeld at hacc
  generalize G .run = g at hp hhome hpos hdrop hacc
  rw [conn_exec op env he] at hb ⊢
  cases hp with
  | @reserve vs found e₀ hf =>
    simp only [changed, changes, Pc.next, Pc.runPc, RunPc.reservedFor] at hb hacc ⊢
    by_cases hee : e₀ = e
    · subst hee
      have hfree := toNat_sub_one (hpos e₀ hf)
      simp only [if_true] at hb ⊢
      have := hacc hb
      simp only [Executor.Accounts] at this ⊢
      omega
    · simp only [if_neg (Ne.symm hee), if_neg hee] at hb ⊢
      exact hacc hb
  | @insert e₀ job =>
    simp only [changed, changes, Pc.next, Pc.runPc, RunPc.reservedFor] at hb hacc ⊢
    by_cases hee : e₀ = e
    · subst hee
      have hlen := length_keys_insert_le (s.conn e₀).inFlight job.id (.of job)
      simp only [if_true] at hb hacc ⊢
      have := hacc hb
      simp only [Executor.Accounts] at this ⊢
      omega
    · simp only [if_neg (Ne.symm hee), if_neg hee] at hb hacc ⊢
      exact hacc hb
  | @write e₀ job d =>
    obtain ⟨ok, _, _, _⟩ := env
    cases ok with
    | true =>
      simp only [changed, changes, Pc.next, Pc.runPc, exec, RunPc.reservedFor, if_true] at hb hacc ⊢
      split at hb
      · next hee => rw [if_pos hee]; exact hacc hb
      · next hee => rw [if_neg hee]; exact hacc hb
    | false =>
      simp only [changed, changes, false_eq_true, if_false] at hb ⊢
      split at hb
      · cases hb
      · next hee => rw [if_neg hee]; exact hacc hb
  | @takeBack e₀ j =>
    have hlen := length_keys_erase_le (s.conn e).inFlight j
    simp only [changed, changes] at hb ⊢
    split at hb
    · next hee =>
      rw [if_pos hee]
      have := hacc hb
      simp only [Executor.Accounts, Pc.next, Pc.runPc, RunPc.reservedFor] at this ⊢
      omega
    · next hee => rw [if_neg hee]; exact hacc hb
  | @giveBack e₀ =>
    simp only [changed, changes] at hb ⊢
    split at hb
    · next hee =>
      rw [show (s.conn e).broken = true from hdrop hee.symm] at hb
      cases hb
    · next hee => rw [if_neg hee]; exact hacc hb
  | @close es e₀ hmem =>
    simp only [changed, changes] at hb ⊢
    split at hb
    · cases hb
    · next hee => rw [if_neg hee]; exact hacc hb
  | _ =>
    first
    | exact hacc hb
    | exact absurd hhome (fun h => h)

theorem accounts_reader (h : Inv s G) {e₀ : Nat} (hp : (G (.reader e₀)).Permits op)
    (he : e < s.next) (hb : ((exec op env s).2.conn e).broken = false) :
    ((exec op env s).2.conn e).Accounts (slotsHeld
      (update G (.reader e₀) ((G (.reader e₀)).next op (exec op env s).1)) e) := by
  have hhome := h.placed.home (.reader e₀)
  have hacc := h.accounts e he
  have hheld : slotsHeld G e =
      (G .run).runPc.reservedFor e + (G (.reader e)).readerPc.returns := rfl
  generalize hg : G (.reader e₀) = g at hp hhome
  rw [conn_exec op env he] at hb ⊢
  by_cases hee : e = e₀
  · subst hee
    rw [hheld, hg] at hacc
    rw [slotsHeld_reader]
    cases hp with
    | @shrink _ n =>
      obtain rfl : e = _ := hhome
      have hmin := toNat_min_le (s.conn e).free n
      simp only [changed, changes, if_true] at hb ⊢
      exact (hacc hb).of_le rfl (Nat.add_le_add_right (Nat.add_le_add_right hmin _) _)
    | @take _ _ r hf =>
      obtain rfl : e = _ := hhome
      simp only [changed, changes, if_true, Pc.next, exec] at hb ⊢
      rcases hl : (s.conn e).inFlight.lookup r.jobId with _ | _
      · have hlen := length_keys_erase_le (s.conn e).inFlight r.jobId
        exact (hacc hb).of_le rfl (Nat.add_le_add_right (Nat.add_le_add_left hlen _) _)
      · have hlen := length_keys_erase (m := (s.conn e).inFlight) (by rw [hl]; rfl)
        refine (hacc hb).of_le rfl ?_
        simp only [Option.elim_some, Pc.readerPc, ReaderPc.returns]
        omega
    | pay =>
      obtain rfl : e = _ := hhome
      simp only [changed, changes, if_true, Pc.next] at hb ⊢
      have hbefore := hacc hb
      simp only [Executor.Accounts, Pc.readerPc, ReaderPc.returns] at hbefore ⊢
      have hadd := toNat_add_one (a := (s.conn e).free) (b := (s.conn e).slots) (by omega)
      omega
    | drainInFlight =>
      obtain rfl : e = _ := hhome
      simp only [changed, changes, if_true] at hb ⊢
      exact (hacc hb).of_le rfl (Nat.add_le_add_right (Nat.add_le_add_left (Nat.zero_le _) _) _)
    | running j =>
      generalize (exec (.running _ j) env s).1 = r
      cases r <;> exact hacc hb
    | read =>
      generalize (exec (.read _) env s).1 = r
      obtain rfl : e = _ := hhome
      obtain ⟨_, eof, _, _⟩ := env
      cases eof <;> simp only [changed, changes, false_eq_true, if_false, if_true] at hb ⊢ <;>
        cases r <;> exact (hacc hb).of_le rfl le_rfl
    | exit =>
      obtain rfl : e = _ := hhome
      simp only [changed, changes, if_true] at hb ⊢
      exact (hacc hb).of_le rfl le_rfl
    | _ => first | exact hacc hb | exact absurd hhome (fun h => h)
  · -- a reader only touches its own connection
    rw [slotsHeld_reader_ne hee]
    cases g with
    | reader e' =>
      obtain rfl : e₀ = e' := hhome
      rw [changed_of_reader env hp hee] at hb ⊢
      exact hacc hb
    | _ => exact absurd hhome (fun h => h)

/-- A peer, a handshake and the shutdown touch no account of an attached connection. -/
theorem accounts_outside (h : Inv s G) {n : Nat} (hp : (G (.other n)).Permits op)
    (he : e < s.next) (hb : ((exec op env s).2.conn e).broken = false) (g : Pc) :
    ((exec op env s).2.conn e).Accounts (slotsHeld (update G (.other n) g) e) := by
  have hhome := h.placed.home (.other n)
  rw [slotsHeld_outside]
  rw [conn_exec op env he] at hb ⊢
  generalize G (.other n) = g' at hp hhome
  cases hp with
  | send =>
    simp only [changed, changes] at hb ⊢
    split at hb
    · next hee =>
      rw [if_pos hee]
      exact (h.accounts e he hb).of_le rfl le_rfl
    · next hee =>
      rw [if_neg hee]
      exact h.accounts e he hb
  | _ => first | exact h.accounts e he hb | exact absurd hhome (fun h => h)

theorem accounts_exec (h : Inv s G) (hp : (G t).Permits op) :
    ∀ e < (exec op env s).2.next, ((exec op env s).2.conn e).broken = false →
      ((exec op env s).2.conn e).Accounts
        (slotsHeld (update G t ((G t).next op (exec op env s).1)) e) := by
  intro e he hb
  by_cases hold : e < s.next
  · cases t with
    | run => exact accounts_run h hp hold hb
    | reader => exact accounts_reader h hp hold hb
    | other => exact accounts_outside h hp hold hb _
  · obtain hsame | ⟨hello, rfl, -, hattached⟩ := next_exec (s := s) op env
    · rw [hsame] at he
      exact absurd he hold
    · -- the new connection: every slot is free, and no thread knows of it yet
      rw [hattached] at he ⊢
      obtain rfl : e = s.next := Nat.le_antisymm (Nat.lt_succ_iff.1 he) (Nat.le_of_not_lt hold)
      rw [attached_conn_new]
      have hheld := h.held_fresh
      have hhome := h.placed.home t
      generalize G t = g at hp hhome
      cases hp
      cases t with
      | other =>
        rw [slotsHeld_outside, hheld]
        exact le_rfl
      | _ => cases hhome

theorem inFlight_changed_le (hop : ∀ e' job, op ≠ .insertInFlight e' job) (e : Nat) (x : Executor) :
    (changed env op e x).inFlight.keys.length ≤ x.inFlight.keys.length := by
  cases op with
  | insertInFlight e' job => exact absurd rfl (hop e' job)
  | removeInFlight e' j =>
    simp only [changed, changes]
    split
    · exact length_keys_erase_le x.inFlight j
    · exact le_rfl
  | drainInFlight =>
    simp only [changed, changes]
    split
    · exact zero_le _
    · exact le_rfl
  | writeJob =>
    simp only [changed, changes]
    cases env.ok <;> simp only [false_eq_true, if_false, if_true] <;> split <;> exact le_rfl
  | read =>
    simp only [changed, changes]
    cases env.eof <;> simp only [false_eq_true, if_false, if_true] <;> split <;> exact le_rfl
  | _ => first | exact le_rfl | (simp only [changed, changes]; split <;> exact le_rfl)

theorem fits_exec (h : Inv s G) (hp : (G t).Permits op) :
    ∀ e < (exec op env s).2.next,
      ((exec op env s).2.conn e).inFlight.keys.length ≤
        ((exec op env s).2.conn e).slots.toNat := by
  intro e he
  by_cases hold : e < s.next
  · rw [slots_exec op env hold, conn_exec op env hold]
    by_cases hop : ∃ e' job, op = .insertInFlight e' job
    · obtain ⟨e', job, rfl⟩ := hop
      by_cases hee : e = e'
      · -- the reserved slot is the job's
        subst hee
        have hhome := h.placed.home t
        have hacc := h.accounts e hold
        have hres := h.reserving e
        have hlen := length_keys_insert_le (s.conn e).inFlight job.id (.of job)
        generalize hg : G t = g at hp hhome
        cases hp
        cases hhome.run
        unfold slotsHeld at hacc
        rw [hg] at hacc hres
        have hone : RunPc.reservedFor (.reserved e) e = 1 := if_pos rfl
        simp only [Pc.runPc, hone, Executor.Accounts] at hacc hres
        have := hacc (hres trivial)
        simp only [changed, changes, if_true]
        omega
      · rw [changed_of_ne rfl hee]
        exact h.fits e hold
    · have hne : ∀ e' job, op ≠ .insertInFlight e' job := fun e' job heq => hop ⟨e', job, heq⟩
      exact (inFlight_changed_le hne e _).trans (h.fits e hold)
  · obtain hsame | ⟨hello, -, -, hattached⟩ := next_exec (s := s) op env
    · rw [hsame] at he
      exact absurd he hold
    · rw [hattached] at he ⊢
      obtain rfl : e = s.next := Nat.le_antisymm (Nat.lt_succ_iff.1 he) (Nat.le_of_not_lt hold)
      rw [attached_conn_new]
      exact zero_le _

/-- What the placing thread has found is registered and not broken. -/
theorem Inv.found_sound (h : Inv s G) (he : e ∈ (G .run).runPc.found) :
    s.Registered e ∧ (s.conn e).broken = false := by
  have hreg := h.placed.walks e (h.placed.found he)
  refine ⟨hreg, (h.sound e hreg).resolve_right fun hdrop => ?_⟩
  generalize (G .run).runPc = p at he hdrop
  cases p with
  | scanning => cases hdrop
  | _ => cases he

variable (op env) in
/-- Only the placing thread finds a connection broken or closes it. -/
theorem broken_changed (e : Nat) (x : Executor) :
    (changed env op e x).broken = x.broken ∨
      (changed env op e x).broken = true ∧
        ((∃ job d, op = .writeJob e job d ∧ env.ok = false) ∨ op = .close e) := by
  cases op with
  | writeJob e' job disabled =>
    simp only [changed, changes]
    rcases hok : env.ok with _ | _
    · by_cases hee : e = e'
      · subst hee
        exact .inr ⟨by simp, .inl ⟨job, disabled, rfl, rfl⟩⟩
      · exact .inl (by simp [hee])
    · refine .inl ?_
      simp only [if_true]
      split <;> rfl
  | close e' =>
    by_cases hee : e = e'
    · subst hee
      exact .inr ⟨by simp [changed, changes], .inr rfl⟩
    · exact .inl (by simp [changed, changes, hee])
  | read =>
    refine .inl ?_
    simp only [changed, changes]
    cases env.eof <;> simp only [false_eq_true, if_false, if_true] <;> split <;> rfl
  | _ =>
    refine .inl ?_
    first | rfl | (simp only [changed, changes]; split <;> rfl)

/-- A counter seen as positive stays so: the load itself tells, and during the scan a heartbeat
leaves at least one and a result adds one. -/
theorem positive_exec (h : Inv s G) (hp : (G t).Permits op) (hkeep : s.keepsOne op = true) :
    ∀ e ∈ (update G t ((G t).next op (exec op env s).1) .run).runPc.found,
      ((exec op env s).2.conn e).free ≠ 0 := by
  intro e he
  have hhome := h.placed.home t
  cases t with
  | run =>
    rw [update_self] at he
    have hpos := h.positive
    have hwalks := h.placed.walks
    have hkeyed := h.placed.keyed
    generalize G .run = g at hp hhome he hpos hwalks
    cases hp with
    | @load vs found e' hmem =>
      change e ∈ if (s.conn e').free = 0 then found else e' :: found at he
      split at he
      · exact hpos e he
      · next hne =>
        rcases mem_cons.1 he with rfl | he
        · exact hne
        · exact hpos e he
    | write =>
      obtain ⟨ok, eof, _, _⟩ := env
      cases ok <;> cases he
    | _ => cases he
  | reader e₀ =>
    rw [run_of_ne (by simp)] at he
    obtain ⟨hreg, hsound⟩ := h.found_sound he
    have hlt := h.placed.keyed.lt hreg
    have hpos := h.positive e he
    have hacc := h.accounts e hlt hsound
    have hlocked : s.locked = true := h.placed.lock.trans (RunPc.locks_of_walks (h.placed.found he))
    rw [conn_exec op env hlt]
    generalize hg : G (.reader e₀) = g at hp hhome
    by_cases hee : e = e₀
    · subst hee
      cases hp with
      | @shrink _ n =>
        obtain rfl : e = _ := hhome
        have hn : n ≠ 0 := by simpa [keepsOne, hlocked] using hkeep
        simp only [changed, changes, if_true]
        exact min_ne_zero hpos hn
      | pay =>
        obtain rfl : e = _ := hhome
        simp only [changed, changes, if_true]
        have hroom : (s.conn e).free.toNat + 1 ≤ (s.conn e).slots.toNat := by
          simp only [Executor.Accounts, slotsHeld, hg, Pc.readerPc, ReaderPc.returns] at hacc
          omega
        have hadd := toNat_add_one hroom
        intro hzero
        rw [hzero] at hadd
        cases hadd
      | read =>
        simp only [changed, changes]
        cases env.eof <;> simp only [false_eq_true, if_false, if_true] <;> split <;> exact hpos
      | _ => first
        | exact absurd hhome (fun h => h)
        | exact hpos
        | (simp only [changed, changes]; split <;> exact hpos)
    · cases g with
      | reader e' =>
        obtain rfl : e₀ = e' := hhome
        rw [changed_of_reader env hp hee]
        exact hpos
      | _ => exact absurd hhome (fun h => h)
  | other n =>
    rw [run_of_ne (by simp)] at he
    obtain ⟨hreg, -⟩ := h.found_sound he
    rw [conn_exec op env (h.placed.keyed.lt hreg)]
    generalize G (.other n) = g at hp hhome
    cases hp with
    | send =>
      simp only [changed, changes]
      split <;> exact h.positive e he
    | _ => first | exact h.positive e he | exact absurd hhome (fun h => h)

theorem registered_of_exec (hk : s.Keyed) (h : (exec op env s).2.Registered e) :
    s.Registered e ∨
      ∃ hello, op = .register hello ∧ e = s.next ∧ (exec op env s).2 = s.attached hello := by
  obtain hold | ⟨hello, hop, -, he, -, hattached⟩ := executors_exec op env _ e h
  · refine .inl ?_
    have hlt := (hk _ e hold).1
    rw [id_exec op env hlt] at hold
    exact hold
  · exact .inr ⟨hello, hop, he, hattached⟩

section

variable (h : Inv s G)
include h

/-- The other threads leave the marks of the placing thread alone. -/
theorem marks_other (ht : t ≠ .run) (hp : (G t).Permits op) (he : e < s.next) :
    ((exec op env s).2.conn e).broken = (s.conn e).broken := by
  rw [conn_exec op env he]
  obtain hsame | ⟨-, hop⟩ := broken_changed op env e (s.conn e)
  · exact hsame
  · have hhome := h.placed.home t
    generalize G t = g at hp hhome
    rcases hop with ⟨_, _, rfl, -⟩ | rfl
    · cases hp
      exact absurd hhome.run ht
    · cases hp
      exact absurd hhome.run ht

theorem dropping_lt (hd : (G .run).runPc.drops e) : e < s.next := by
  have htarget := h.placed.target
  rw [h.placed.placing] at htarget
  generalize (G .run).runPc = p at hd htarget
  cases p with
  | unsent e' | dropped e' | released e' => exact hd ▸ htarget e' rfl
  | _ => cases hd

theorem reserving_lt (hr : (G .run).runPc.reservedFor e = 1) : e < s.next := by
  have htarget := h.placed.target
  rw [h.placed.placing] at htarget
  generalize (G .run).runPc = p at hr htarget
  cases p with
  | chosen e' | reserved e' =>
    simp only [RunPc.reservedFor] at hr
    split at hr
    · next hee => exact hee ▸ htarget e' rfl
    · cases hr
  | _ => cases hr

section

variable (hp : (G t).Permits op)
include hp

/-- A broken connection that is still registered is being dropped. -/
theorem sound_exec :
    ∀ e, (exec op env s).2.Registered e →
      ((exec op env s).2.conn e).broken = false ∨
        (update G t ((G t).next op (exec op env s).1) .run).runPc.drops e := by
  intro e hreg'
  obtain hreg | ⟨hello, rfl, rfl, hattached⟩ := registered_of_exec h.placed.keyed hreg'
  · have he := h.placed.keyed.lt hreg
    have hsound := h.sound e hreg
    by_cases ht : t = .run
    · subst ht
      rw [update_self]
      have hdrained := h.drained
      have hhome := h.placed.home .run
      rw [conn_exec op env he]
      generalize hg : G .run = g at hp hsound hdrained hhome
      obtain hsame | ⟨-, hop⟩ := broken_changed op env e (s.conn e)
      · rw [hsame]
        refine hsound.imp_right fun hd => ?_
        -- the thread is dropping the executor, and the record is still there
        cases hp with
        | dropExecutor =>
          obtain rfl : _ = e := hd
          unfold Remote.Registered at hreg'
          rw [id_exec _ env he] at hreg'
          simp only [exec, lookup_erase] at hreg'
          cases hreg'
        | takeBack | giveBack => exact hd
        | _ => cases hd
      · rcases hop with ⟨_, _, rfl, hok⟩ | rfl
        · refine .inr ?_
          cases hp
          obtain ⟨ok, eof, order, toggles⟩ := env
          obtain rfl : ok = false := hok
          exact rfl
        · cases hp with
          | close hmem => exact absurd hreg (hdrained _ rfl e hmem).2
    · rw [run_of_ne ht, marks_other h ht hp he]
      exact hsound
  · refine .inl ?_
    rw [hattached, attached_conn_new]
    rfl

theorem dropping_exec :
    ∀ e, (update G t ((G t).next op (exec op env s).1) .run).runPc.drops e →
      ((exec op env s).2.conn e).broken = true := by
  intro e hd
  have hkept : (G .run).runPc.drops e → ((exec op env s).2.conn e).broken = true := by
    intro hbefore
    have he := dropping_lt h hbefore
    rw [conn_exec op env he]
    obtain hsame | ⟨htrue, -⟩ := broken_changed op env e (s.conn e)
    · exact hsame.trans (h.dropping e hbefore)
    · exact htrue
  by_cases ht : t = .run
  · subst ht
    rw [update_self] at hd
    have hhome := h.placed.home .run
    have htarget := h.placed.target
    rw [h.placed.placing] at htarget
    generalize hg : G .run = g at hp hd hkept hhome htarget
    cases hp with
    | @write e' job d =>
      obtain ⟨ok, _, _, _⟩ := env
      cases ok with
      | true => cases hd
      | false =>
        obtain rfl : e' = e := hd
        rw [conn_exec _ _ (htarget e' rfl)]
        simp [changed, changes]
    | takeBack | giveBack => exact hkept hd
    | _ => cases hd
  · rw [run_of_ne ht] at hd
    exact hkept hd

theorem reserving_exec :
    ∀ e, (update G t ((G t).next op (exec op env s).1) .run).runPc.reservedFor e = 1 →
      ((exec op env s).2.conn e).broken = false := by
  intro e hr
  by_cases ht : t = .run
  · subst ht
    rw [update_self] at hr
    have hhome := h.placed.home .run
    have hres := h.reserving e
    have hlt := reserving_lt h (e := e)
    have hfound := h.found_sound (e := e)
    generalize hg : G .run = g at hp hr hhome hres hlt hfound
    cases hp with
    | @reserve vs found e' hf =>
      change (if e' = e then 1 else 0) = 1 at hr
      obtain rfl : e' = e := by
        by_contra hne
        rw [if_neg hne] at hr
        cases hr
      obtain ⟨hreg, hsound⟩ := hfound hf
      rw [conn_exec _ env (h.placed.keyed.lt hreg)]
      simpa [changed, changes] using hsound
    | unlockChosen =>
      rw [conn_exec _ env (hlt hr)]
      exact hres hr
    | toggles => exact hres hr
    | write =>
      obtain ⟨ok, _, _, _⟩ := env
      cases ok <;> cases hr
    | _ => cases hr
  · rw [run_of_ne ht] at hr
    rw [marks_other h ht hp (reserving_lt h hr)]
    exact h.reserving e hr

theorem drained_exec :
    ∀ es, (update G t ((G t).next op (exec op env s).1) .run).runPc = .draining es →
      ∀ e ∈ es, e < (exec op env s).2.next ∧ ¬ (exec op env s).2.Registered e := by
  intro es hes e hmem
  have hkept : e < s.next ∧ ¬ s.Registered e →
      e < (exec op env s).2.next ∧ ¬ (exec op env s).2.Registered e := by
    rintro ⟨hlt, hnot⟩
    refine ⟨lt_of_lt_of_le hlt (next_le_exec op env), fun hreg => ?_⟩
    obtain hold | ⟨-, -, rfl, -⟩ := registered_of_exec h.placed.keyed hreg
    · exact hnot hold
    · exact lt_irrefl _ hlt
  by_cases ht : t = .run
  · subst ht
    rw [update_self] at hes
    have hhome := h.placed.home .run
    have hdrained := h.drained
    generalize hg : G .run = g at hp hes hhome hdrained
    cases hp with
    | drainExecutors =>
      cases hes
      have hval : e ∈ s.values := by
        simp only [exec, arranged] at hmem
        split at hmem
        · next hperm => exact (isPerm_iff.1 hperm).mem_iff.1 hmem
        · exact hmem
      refine ⟨h.placed.keyed.lt (h.placed.keyed.of_values hval), fun hreg => ?_⟩
      cases hreg
    | isBusy | close => exact hkept (hdrained es hes e hmem)
    | write =>
      obtain ⟨ok, _, _, _⟩ := env
      cases ok <;> cases hes
    | _ => cases hes
  · rw [run_of_ne ht] at hes
    exact hkept (h.drained es hes e hmem)

theorem Inv.step (hm : s.mayStep env op = true) (hkeep : s.keepsOne op = true) :
    Inv (exec op env s).2 (update G t ((G t).next op (exec op env s).1)) where
  placed := h.placed.step hp hm
  fits := fits_exec h hp
  accounts := accounts_exec h hp
  positive := positive_exec h hp hkeep
  sound := sound_exec h hp
  dropping := dropping_exec h hp
  reserving := reserving_exec h hp
  drained := drained_exec h hp

end

/-- A thread that starts a call holds no slot, and held none where it was. -/
theorem Inv.start (hdone : (G t).Done) {call : RemoteCall} (hm : s.mayStart t call = true) :
    Inv s (update G t t.start) := by
  have hplaced := h.placed.start hdone hm
  have hheld : ∀ e, slotsHeld (update G t t.start) e = slotsHeld G e := by
    intro e
    have hhome := h.placed.home t
    cases t with
    | run =>
      rw [slotsHeld_run]
      unfold slotsHeld
      obtain hg | ⟨es, hg⟩ := hhome.run_done hdone <;> rw [hg] <;> rfl
    | reader e₀ =>
      by_cases hee : e = e₀
      · subst hee
        rw [slotsHeld_reader]
        unfold slotsHeld
        obtain hg | hg | ⟨_, hg, -⟩ := hhome.reader_done hdone <;> rw [hg] <;> rfl
      · exact slotsHeld_reader_ne hee _
    | other n => exact slotsHeld_outside n _ e
  by_cases ht : t = .run
  · subst ht
    refine ⟨hplaced, h.fits, fun e he hb => ?_, ?_, fun e hreg => ?_, ?_, ?_, ?_⟩
    · rw [hheld]
      exact h.accounts e he hb
    all_goals rw [update_self]
    · intro e he
      cases he
    · refine (h.sound e hreg).imp_right fun hd => ?_
      obtain hg | ⟨es, hg⟩ := (h.placed.home .run).run_done hdone <;> rw [hg] at hd <;> cases hd
    · intro e he
      cases he
    · intro e he
      cases he
    · intro _ he
      cases he
  · refine ⟨hplaced, h.fits, fun e he hb => ?_, ?_, ?_, ?_, ?_, ?_⟩
    · rw [hheld]
      exact h.accounts e he hb
    all_goals rw [run_of_ne ht]
    · exact h.positive
    · exact h.sound
    · exact h.dropping
    · exact h.reserving
    · exact h.drained

end

theorem sound (cfg : RemoteDispatcher.Config) :
    Pool.Sound (slotRules cfg) remoteDiscipline Inv where
  start _ _ t _ h hdone hm := ⟨t.start, h.start hdone hm, follows_remoteCall cfg hm⟩
  step _ _ _ _ _ h hp hm := ⟨trivial, h.step hp hm.1 hm.2⟩

end RemoteSlots

/-- **Slots are never oversold**, in every run in which no heartbeat that announces zero free slots
is handled while a placement scans the counters: whoever is about to take one off a counter finds
it positive, and an executor never has more jobs in flight than slots. -/
theorem slots_safe (cfg : RemoteDispatcher.Config) (c : Pool remoteMachine RemoteThread)
    (h : Pool.Reaches (slotRules cfg) (Pool.idle Remote.init) c) :
    (∀ t e, (c.prog t).nextOp = some (.reserve e) → (c.state.conn e).free ≠ 0) ∧
    ∀ e, c.state.Registered e →
      (c.state.conn e).inFlight.keys.length ≤ (c.state.conn e).slots.toNat := by
  obtain ⟨G, hG⟩ := (RemoteSlots.sound cfg).reachable
    (.idle RemoteSlots.init_inv RemoteThread.rest_done) h
  refine ⟨fun t e hnext => ?_, fun e he => hG.inv.fits e (hG.inv.placed.keyed.lt he)⟩
  rcases hp : c.prog t with _ | ⟨op, _⟩
  · rw [hp] at hnext
    cases hnext
  · rw [hp] at hnext
    obtain rfl : op = .reserve e := Option.some.inj hnext
    have hperm : (G t).Permits (.reserve e) := hG.permits hp
    have hhome := hG.inv.placed.home t
    have hpos := hG.inv.positive
    generalize hg : G t = g at hperm hhome
    cases hperm with
    | reserve hf =>
      cases hhome.run
      rw [hg] at hpos
      exact hpos e hf

/-- An executor with one slot attaches and sends a heartbeat. -/
def heartbeatMoves (freeSlots : UInt32) :
    List (Move remoteMachine (remoteClients plainRemote) RemoteThread) :=
  remoteMoves plainRemote (.other 0) (.attach (plainHello "x" 1)) 3 ++
  remoteMoves plainRemote (.other 1) (.send 0 ⟨.heartbeat freeSlots, []⟩) 1 ++
  remoteMoves plainRemote (.reader 0) (.readFrame 0) 1

/-- A heartbeat of one falls into the scan: the slot is still there to be reserved. -/
theorem slots_safe_heartbeat :
    ∃ c, Pool.Reaches (slotRules plainRemote) (Pool.idle Remote.init) c ∧
      (c.prog .run).nextOp = some (.reserve 0) ∧ (c.state.conn 0).free ≠ 0 := by
  obtain ⟨c, hc, hnext⟩ := Pool.exists_reaches (slotRules plainRemote) (Pool.idle init)
    (heartbeatMoves 1 ++ remoteMoves plainRemote .run (.place (plainJob "j") 0) 2 ++
      [.step (.reader 0) RemoteEnv.calm])
    (fun c => (c.prog .run).nextOp = some (.reserve 0)) (by decide +kernel)
  exact ⟨c, hc, hnext, (slots_safe plainRemote c hc).1 .run 0 hnext⟩

/-- **The counter wraps.** The placement loads a counter of one, the reader handles a heartbeat of
zero, and the placement takes one off zero. With the next placement the executor has two jobs in
flight for its one slot. -/
theorem slots_oversold :
    ∃ c c' : Pool remoteMachine RemoteThread,
      Pool.Reaches (remoteRules plainRemote) (Pool.idle Remote.init) c ∧
      (c.prog .run).nextOp = some (.reserve 0) ∧ (c.state.conn 0).free = 0 ∧
      Pool.Reaches (remoteRules plainRemote) c c' ∧
      c'.state.Registered 0 ∧ (c'.state.conn 0).slots = 1 ∧
      (c'.state.conn 0).inFlight.keys.length = 2 ∧ (c'.state.conn 0).free = 4294967294 := by
  obtain ⟨c, c', hc, hc', hnext, hfree, hreg, hslots, htwo, hwrapped⟩ := Pool.exists_reaches_twice
    (remoteRules plainRemote) (.idle init)
    (heartbeatMoves 0 ++ remoteMoves plainRemote .run (.place (plainJob "j") 0) 2 ++
      [.step (.reader 0) RemoteEnv.calm])
    (.replicate 5 (.step .run .calm) ++
      remoteMoves plainRemote .run (.place (plainJob "k") 0) 7)
    (fun c c' => (c.prog .run).nextOp = some (.reserve 0) ∧ (c.state.conn 0).free = 0 ∧
      c'.state.Registered 0 ∧ (c'.state.conn 0).slots = 1 ∧
      (c'.state.conn 0).inFlight.keys.length = 2 ∧ (c'.state.conn 0).free = 4294967294)
    (by decide +kernel)
  exact ⟨c, c', hc, hnext, hfree, hc', hreg, hslots, htwo, hwrapped⟩

end Flexiq
