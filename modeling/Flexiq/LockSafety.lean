import Flexiq.Locks

/-!
# Safety of the distributed locks

A lock is a lease (`LockState.lease`), and each statement or script does one act to it
(`LockOp.act`) that the law of leases allows (`run_allowed`, `exec_allowed`) — provided the moment
a client read before an acquire or a reap has come, which every client program sees to
(`lockDiscipline`). By the law of leases the promises made are then kept in every run
(`lock_safety`): the **latest** grant to an owner who has not given the lock back is honoured until
its end. An earlier grant is not: an extend *resets* the expiry, possibly to a nearer moment
(`every_grant_not_honoured`).
-/

namespace Flexiq

open LeaseAct (keep pledge)

open Sqlite (ownedBy)

open Function List Option Table

variable {b : LockBackend}

/-! ## Locks as leases -/

def LockRow.lease (row : LockRow) : Lease String := ⟨row.ownerId, row.expiresAt⟩

open LockRow (lease)

/-- Who holds a lock, and until when. -/
def LockState.lease (st : LockState) (lock : String) : Option (Lease String) :=
  (st.locks.find lock).map LockRow.lease

/-- What an operation that answered `r` did to the lease of `lock`. -/
def LockOp.act (lock : String) : {b : LockBackend} → (op : LockOp b) → op.Res → LeaseAct String
  | _, acquire l o _ e, r | _, extend l o e, r => if l = lock ∧ r = true then .grant o e else .keep
  | _, release l o, r => if l = lock ∧ r = true then .drop o else .keep
  | _, nowMillis, _ | _, reapExpired _, _ | _, scan, _ | _, reapLock _ _, _ => .keep

open LockOp (exec run)

/-- The moments an operation was given have come. -/
def LockOp.Timely (clock : Int) : {b : LockBackend} → LockOp b → Prop
  | _, acquire _ _ now _ | _, reapExpired now | _, reapLock _ now => now ≤ clock
  | _, nowMillis | _, release _ _ | _, extend _ _ _ | _, scan => True

/-! ## The tables, lock by lock -/

section Tables

variable {locks : LockTable} {lock : String} {now clock : Int}
variable {row : LockRow} {name owner : String}

theorem find_put :
    (LockTable.put locks row).find lock =
      if lock = row.lockName then some row else locks.find lock :=
  find_replace locks row _ lock

theorem find_del :
    (Redis.del name locks).find lock = if lock = name then none else locks.find lock := by
  rw [Redis.del, find_delete]
  rcases hf : locks.find lock with _ | r
  · simp
  · have hname : r.lockName = lock := find_key hf
    by_cases hl : lock = name
    · simp [hname, hl]
    · simp [hname, hl]

/-- What a script that writes a lock leaves: the lock, or nothing when its expiry has come. -/
theorem find_setLock :
    (Redis.setLock row clock locks).find lock =
      if lock = row.lockName then (if row.expiresAt ≤ clock then none else some row)
      else locks.find lock := by
  unfold Redis.setLock
  split
  · rw [find_del]
  · rw [find_put]

theorem lapse_delete {p : LockRow → Bool} (hp : ∀ row, p row = true → row.expiresAt ≤ clock) :
    keep.Allowed clock ((locks.find lock).map lease) (((locks.delete p).find lock).map lease) := by
  rw [find_delete]
  rcases hf : locks.find lock with _ | row
  · exact .inl rfl
  · rw [filter_some]
    cases hrow : p row with
    | true => exact .inr ⟨rfl, fun h hh => by cases hh; exact hp row hrow⟩
    | false => exact .inl rfl

/-- The row of a lock belongs to an owner iff the statement that looks for it counts one. -/
theorem count_ownedBy :
    0 < locks.count (ownedBy name owner) ↔
      ∃ row, locks.find name = some row ∧ row.ownerId = owner := by
  rw [Nat.pos_iff_ne_zero, ne_eq, count_eq_zero]
  push Not
  constructor
  · rintro ⟨row, hrow, hp⟩
    obtain ⟨rfl, rfl⟩ : row.lockName = name ∧ row.ownerId = owner := by
      simpa [ownedBy] using hp
    exact ⟨row, find_of_mem hrow, rfl⟩
  · rintro ⟨row, hrow, rfl⟩
    have hname : row.lockName = name := find_key hrow
    exact ⟨row, mem_of_find hrow, by simp [ownedBy, hname]⟩

theorem find_release :
    (Sqlite.releaseLock name owner locks).2.find lock =
      (locks.find lock).filter fun row => !ownedBy name owner row :=
  find_delete locks _ lock

theorem find_extend {expiresAt : Int} :
    (Sqlite.extendLock name owner expiresAt locks).2.find lock =
      (locks.find lock).map fun row =>
        if ownedBy name owner row then { row with expiresAt := expiresAt } else row :=
  find_update locks _ _ (Sqlite.preserves_extended name owner expiresAt) lock

end Tables

/-! ## Statements and scripts as acts on leases -/

variable {st : LockState} {lock : String}

/-- Time alone lets leases lapse. -/
theorem atTime_lapses {time : Int} :
    keep.Allowed (st.atTime b time).clock (st.lease lock) ((st.atTime b time).lease lock) := by
  cases b with
  | sqlite => exact .inl rfl
  | redis =>
    refine lapse_delete fun row hrow => ?_
    have hrow : row.expiresAt < max st.clock time := of_decide_eq_true hrow
    exact hrow.le

/-- The act of an operation on a lock that only touches the lock `name`: nothing for the others. -/
theorem allowed_of_name {name : String} {clock : Int} {l l' : Option (Lease String)} {r : Bool}
    {act : LeaseAct String} (hne : name ≠ lock → l' = l) (hno : r = false → l' = l)
    (hyes : name = lock → r = true → act.Allowed clock l l') :
    (if name = lock ∧ r = true then act else .keep).Allowed clock l l' := by
  split
  · next h => exact hyes h.1 h.2
  · next h =>
    refine .inl ?_
    by_cases hname : name = lock
    · exact hno (Bool.eq_false_iff.2 fun hr => h ⟨hname, hr⟩)
    · exact hne hname

section Operations

variable {locks : LockTable} {name owner : String} {now expiresAt clock : Int}

/-- The operation on the lock `name` acts on it if it says so, and not on another lock. -/
abbrev Acts (name lock : String) (clock : Int) (locks : LockTable) (r : Bool × LockTable)
    (act : LeaseAct String) : Prop :=
  (if name = lock ∧ r.1 = true then act else .keep).Allowed clock
    ((locks.find lock).map LockRow.lease) ((r.2.find lock).map LockRow.lease)

variable {r : Bool × LockTable} {row : LockRow}

theorem acquire_allowed (taken : LockTable) (hnow : now ≤ clock)
    (hother : lock ≠ name → taken.find lock = locks.find lock)
    (hself : (taken.find name).map lease = some ⟨owner, expiresAt⟩ ∨
      (taken.find name).map lease = none ∧ expiresAt ≤ clock) (hr : r = match locks.find name with
      | some row => if row.expiresAt > now then (false, locks) else (true, taken)
      | none => (true, taken)) : Acts name lock clock locks r (.grant owner expiresAt) := by
  have htaken : (∀ row, locks.find name = some row → row.expiresAt ≤ clock) →
      Acts name lock clock locks (true, taken) (.grant owner expiresAt) := by
    intro hold
    refine allowed_of_name (fun hne => ?_) (nofun) fun hname _ => ?_
    · rw [hother hne.symm]
    · subst hname
      refine ⟨fun h hh => .inr ?_, hself⟩
      obtain ⟨row, hrow, rfl⟩ := map_eq_some_iff.1 hh
      exact hold row hrow
  rcases hf : locks.find name with _ | row
  · rw [hf] at hr
    subst hr
    exact htaken fun row hrow => by rw [hf] at hrow; cases hrow
  · rw [hf] at hr
    dsimp only at hr
    split at hr
    · subst hr
      exact allowed_of_name (fun _ => rfl) (fun _ => rfl) nofun
    · next hexp =>
      subst hr
      refine htaken fun row' hrow => ?_
      rw [hf] at hrow
      cases hrow
      exact (not_lt.1 hexp).trans hnow

theorem sqlite_acquireLock_allowed (hnow : now ≤ clock) :
    Acts name lock clock locks (Sqlite.acquireLock name owner now expiresAt locks)
      (.grant owner expiresAt) := by
  refine acquire_allowed (.put locks ⟨name, owner, now, expiresAt⟩) hnow
    (fun h => find_put.trans (if_neg h)) (.inl ?_) rfl
  rw [find_put, if_pos rfl]
  rfl

theorem redis_acquireLock_allowed (hnow : now ≤ clock) :
    Acts name lock clock locks (Redis.acquireLock name owner now expiresAt clock locks)
      (.grant owner expiresAt) := by
  refine acquire_allowed (Redis.setLock ⟨name, owner, now, expiresAt⟩ clock locks) hnow
    (fun h => find_setLock.trans (if_neg h)) ?_ rfl
  rw [find_setLock, if_pos rfl]
  split
  · next hover => exact .inr ⟨rfl, hover⟩
  · exact .inl rfl

/-- The row of a lock matches the statements on lock `name` of an owner who holds it, only. -/
theorem ownedBy_of_find (hrow : locks.find lock = some row) :
    ownedBy name owner row = decide (lock = name ∧ row.ownerId = owner) := by
  have hname : row.lockName = lock := find_key hrow
  rw [ownedBy, hname]

/-- **Releasing a lock the owner does not hold changes nothing.** -/
theorem release_frame (h : ∀ row, locks.find name = some row → row.ownerId ≠ owner) :
    (Sqlite.releaseLock name owner locks).1 = false ∧
      (∀ lock, (Sqlite.releaseLock name owner locks).2.find lock = locks.find lock) ∧
      Redis.releaseLock name owner locks = (false, locks) := by
  refine ⟨decide_eq_false fun hcount => ?_, fun lock => ?_, ?_⟩
  · obtain ⟨row, hrow, howner⟩ := count_ownedBy.1 hcount
    exact h row hrow howner
  · rw [find_release]
    rcases hf : locks.find lock with _ | row
    · rfl
    · rw [filter_some, ownedBy_of_find hf, decide_eq_false]
      · rfl
      · rintro ⟨rfl, howner⟩
        exact h row hf howner
  · unfold Redis.releaseLock
    rcases hf : locks.find name with _ | row
    · rfl
    · exact if_neg (h row hf)

/-- **Extending a lock the owner does not hold changes nothing.** -/
theorem extend_frame (expiresAt clock : Int)
    (h : ∀ row, locks.find name = some row → row.ownerId ≠ owner) :
    (Sqlite.extendLock name owner expiresAt locks).1 = false ∧
      (∀ lock, (Sqlite.extendLock name owner expiresAt locks).2.find lock = locks.find lock) ∧
      Redis.extendLock name owner expiresAt clock locks = (false, locks) := by
  refine ⟨decide_eq_false fun hcount => ?_, fun lock => ?_, ?_⟩
  · obtain ⟨row, hrow, howner⟩ := count_ownedBy.1 hcount
    exact h row hrow howner
  · rw [find_extend]
    rcases hf : locks.find lock with _ | row
    · rfl
    · rw [map_some, ownedBy_of_find hf, decide_eq_false]
      · rfl
      · rintro ⟨rfl, howner⟩
        exact h row hf howner
  · unfold Redis.extendLock
    rcases hf : locks.find name with _ | row
    · rfl
    · exact if_neg (h row hf)

theorem release_held (hrow : locks.find name = some row) :
    (Sqlite.releaseLock name row.ownerId locks).1 = true ∧
      (∀ lock, (Sqlite.releaseLock name row.ownerId locks).2.find lock =
        if lock = name then none else locks.find lock) ∧
      Redis.releaseLock name row.ownerId locks = (true, Redis.del name locks) := by
  refine ⟨decide_eq_true (count_ownedBy.2 ⟨row, hrow, rfl⟩), fun lock => ?_, ?_⟩
  · rw [find_release]
    rcases hf : locks.find lock with _ | _
    · simp
    · rw [filter_some, ownedBy_of_find hf]
      by_cases hl : lock = name
      · subst hl
        cases hf.symm.trans hrow
        simp
      · simp [hl]
  · rw [Redis.releaseLock, hrow]
    exact if_pos rfl

theorem extend_held (expiresAt clock : Int) (hrow : locks.find name = some row) :
    (Sqlite.extendLock name row.ownerId expiresAt locks).1 = true ∧
      (∀ lock, (Sqlite.extendLock name row.ownerId expiresAt locks).2.find lock =
        if lock = name then some { row with expiresAt := expiresAt } else locks.find lock) ∧
      Redis.extendLock name row.ownerId expiresAt clock locks =
        (true, Redis.setLock { row with expiresAt := expiresAt } clock locks) := by
  refine ⟨decide_eq_true (count_ownedBy.2 ⟨row, hrow, rfl⟩), fun lock => ?_, ?_⟩
  · rw [find_extend]
    rcases hf : locks.find lock with _ | _
    · by_cases hl : lock = name
      · subst hl
        rw [hrow] at hf
        cases hf
      · rw [if_neg hl]
        rfl
    · rw [map_some, ownedBy_of_find hf]
      by_cases hl : lock = name
      · subst hl
        cases hf.symm.trans hrow
        simp
      · simp [hl]
  · rw [Redis.extendLock, hrow]
    exact if_pos rfl

/-- What an operation on a lock does when it is for the lock's holder only. -/
theorem holder_allowed (owner : String) {act : LeaseAct String}
    (hno : (∀ row, locks.find name = some row → row.ownerId ≠ owner) →
      r.1 = false ∧ ∀ lock, r.2.find lock = locks.find lock)
    (hyes : ∀ row, locks.find name = some row → row.ownerId = owner →
      r.1 = true ∧ (lock ≠ name → r.2.find lock = locks.find lock) ∧
        act.Allowed clock (some row.lease) ((r.2.find name).map lease)) :
    Acts name lock clock locks r act := by
  by_cases h : ∃ row, locks.find name = some row ∧ row.ownerId = owner
  · obtain ⟨row, hrow, howner⟩ := h
    obtain ⟨hr, hother, hact⟩ := hyes row hrow howner
    refine allowed_of_name (fun hne => by rw [hother hne.symm]) (fun h => ?_) fun hname _ => ?_
    · rw [hr] at h
      cases h
    · subst hname
      rw [hrow]
      exact hact
  · obtain ⟨hr, hsame⟩ := hno fun row hrow howner => h ⟨row, hrow, howner⟩
    rw [Acts, hsame]
    refine allowed_of_name (fun _ => rfl) (fun _ => rfl) fun _ h => ?_
    rw [hr] at h
    cases h

theorem sqlite_releaseLock_allowed :
    Acts name lock clock locks (Sqlite.releaseLock name owner locks) (.drop owner) := by
  refine holder_allowed owner (fun h => ?_) fun row hrow howner => ?_
  · obtain ⟨hr, hsame, -⟩ := release_frame h
    exact ⟨hr, hsame⟩
  · subst howner
    obtain ⟨hr, hfind, -⟩ := release_held hrow
    refine ⟨hr, fun hne => (hfind lock).trans (if_neg hne), ?_, ?_⟩
    · rintro _ ⟨⟩
      exact .inl rfl
    · rw [hfind, if_pos rfl]
      rfl

theorem redis_releaseLock_allowed :
    Acts name lock clock locks (Redis.releaseLock name owner locks) (.drop owner) := by
  refine holder_allowed owner (fun h => ?_) fun row hrow howner => ?_
  · obtain ⟨-, -, hr⟩ := release_frame h
    rw [hr]
    exact ⟨rfl, fun _ => rfl⟩
  · subst howner
    obtain ⟨-, -, hr⟩ := release_held hrow
    rw [hr]
    refine ⟨rfl, fun hne => find_del.trans (if_neg hne), ?_, ?_⟩
    · rintro _ ⟨⟩
      exact .inl rfl
    · rw [find_del, if_pos rfl]
      rfl

theorem sqlite_extendLock_allowed :
    Acts name lock clock locks (Sqlite.extendLock name owner expiresAt locks)
      (.grant owner expiresAt) := by
  refine holder_allowed owner (fun h => ?_) fun row hrow howner => ?_
  · obtain ⟨hr, hsame, -⟩ := extend_frame expiresAt 0 h
    exact ⟨hr, hsame⟩
  · subst howner
    obtain ⟨hr, hfind, -⟩ := extend_held expiresAt 0 hrow
    refine ⟨hr, fun hne => (hfind lock).trans (if_neg hne), ?_, .inl ?_⟩
    · rintro _ ⟨⟩
      exact .inl rfl
    · rw [hfind, if_pos rfl]
      rfl

theorem redis_extendLock_allowed :
    Acts name lock clock locks (Redis.extendLock name owner expiresAt clock locks)
      (.grant owner expiresAt) := by
  refine holder_allowed owner (fun h => ?_) fun row hrow howner => ?_
  · obtain ⟨-, -, hr⟩ := extend_frame expiresAt clock h
    rw [hr]
    exact ⟨rfl, fun _ => rfl⟩
  · subst howner
    have hname : row.lockName = name := find_key hrow
    obtain ⟨-, -, hr⟩ := extend_held expiresAt clock hrow
    rw [hr]
    refine ⟨rfl, fun hne => find_setLock.trans (if_neg (hname ▸ hne)), ?_, ?_⟩
    · rintro _ ⟨⟩
      exact .inl rfl
    · rw [find_setLock, if_pos hname.symm]
      split
      · next hover => exact .inr ⟨rfl, hover⟩
      · exact .inl rfl

theorem redis_reapLock_allowed (hnow : now ≤ clock) :
    keep.Allowed clock ((locks.find lock).map lease)
      (((Redis.reapLock name now locks).2.find lock).map lease) := by
  unfold Redis.reapLock
  split
  · next _ hrow =>
    split
    · next hexp =>
      rw [find_del]
      split
      · next hl =>
        refine .inr ⟨rfl, fun h hh => ?_⟩
        rw [hl, hrow] at hh
        cases hh
        exact hexp.trans hnow
      · exact .inl rfl
    · exact .inl rfl
  · exact .inl rfl

end Operations

variable {op : LockOp b} {w : LockWorld}

/-- **Every operation is an allowed act on every lock's lease**, once the moments it was given
have come. -/
theorem run_allowed (hop : op.Timely st.clock) :
    (op.act lock (op.run w st).1).Allowed st.clock (st.lease lock)
      ((op.run w st).2.lease lock) := by
  cases op with
  | nowMillis => cases b <;> exact .inl rfl
  | scan => exact .inl rfl
  | reapExpired now =>
    refine lapse_delete fun row hrow => ?_
    have hrow : row.expiresAt ≤ now := of_decide_eq_true hrow
    exact hrow.trans hop
  | reapLock => exact redis_reapLock_allowed hop
  | acquire =>
    cases b with
    | sqlite => exact sqlite_acquireLock_allowed hop
    | redis => exact redis_acquireLock_allowed hop
  | release =>
    cases b with
    | sqlite => exact sqlite_releaseLock_allowed
    | redis => exact redis_releaseLock_allowed
  | extend =>
    cases b with
    | sqlite => exact sqlite_extendLock_allowed
    | redis => exact redis_extendLock_allowed

theorem run_clock : (op.run w st).2.clock = st.clock := by
  cases op with
  | nowMillis | acquire | release | extend => cases b <;> rfl
  | reapExpired | scan | reapLock => rfl

theorem exec_clock : (op.exec w st).2.clock = max st.clock w.time := by
  rw [exec, run_clock]
  cases b <;> rfl

theorem exec_allowed (hop : op.Timely (op.exec w st).2.clock) :
    (op.act lock (op.exec w st).1).Allowed (op.exec w st).2.clock (st.lease lock)
      ((op.exec w st).2.lease lock) := by
  have hclock : (op.exec w st).2.clock = (st.atTime b w.time).clock := run_clock
  rw [hclock] at hop ⊢
  exact atTime_lapses.after_lapse (run_allowed hop)

/-- The lock operations that are for the holder only. -/
def LockOp.heldBy (name owner : String) : {b : LockBackend} → LockOp b → Prop
  | _, release l o | _, extend l o _ => l = name ∧ o = owner
  | _, acquire _ _ _ _ | _, nowMillis | _, reapExpired _ | _, scan | _, reapLock _ _ => False

theorem run_frame (op : LockOp b) (w : LockWorld) {name owner : String} (hop : op.heldBy name owner)
    (h : ∀ row, st.locks.find name = some row → row.ownerId ≠ owner) :
    (∀ lock, op.act lock (op.run w st).1 = .keep) ∧
      ∀ lock, (op.run w st).2.locks.find lock = st.locks.find lock := by
  have hkeep : ∀ {r : Bool} {name lock : String} {act : LeaseAct String}, r = false →
      (if name = lock ∧ r = true then act else .keep) = .keep := by
    rintro _ _ lock act rfl
    exact if_neg fun h => Bool.false_ne_true h.2
  cases op with
  | release =>
    obtain ⟨rfl, rfl⟩ := hop
    obtain ⟨hsql, hfind, hredis⟩ := release_frame h
    cases b with
    | sqlite => exact ⟨fun lock => hkeep hsql, hfind⟩
    | redis =>
      simp only [run, LockState.answer, LockOp.act, hredis]
      exact ⟨fun lock => hkeep rfl, fun _ => trivial⟩
  | extend l o e =>
    obtain ⟨rfl, rfl⟩ := hop
    obtain ⟨hsql, hfind, hredis⟩ := extend_frame e st.clock h
    cases b with
    | sqlite => exact ⟨fun lock => hkeep hsql, hfind⟩
    | redis =>
      simp only [run, LockState.answer, LockOp.act, hredis]
      exact ⟨fun lock => hkeep rfl, fun _ => trivial⟩
  | _ => exact hop.elim

variable (st) in
/-- The moment of an operation is the clock it leaves. -/
theorem atTime_exec (op : LockOp b) (w : LockWorld) :
    st.atTime b (op.exec w st).2.clock = st.atTime b w.time := by
  rw [exec_clock]
  simp only [LockState.atTime, max_eq_right (le_max_left st.clock w.time)]

/-! ## Histories -/

/-- One executed operation. -/
abbrev LockEvent (b : LockBackend) := Event (lockMachine b)

namespace LockEvent

/-- What the operation answered: the world decides its time only. -/
def reply (ev : LockEvent b) : ev.op.Res := (ev.op.exec ⟨ev.after.clock, [], true⟩ ev.before).1

/-- What the operation did to the lease of `lock`. -/
def act (lock : String) (ev : LockEvent b) : LeaseAct String := ev.op.act lock ev.reply

theorem act_exec (op : LockOp b) (w : LockWorld) :
    act lock (⟨op, st, (op.exec w st).2⟩ : LockEvent b) = op.act lock (op.exec w st).1 := by
  have htime := atTime_exec st op w
  cases op with
  | acquire | release | extend =>
    simp only [act, reply, exec, run]
    cases b <;> simp only [run, exec] at htime ⊢ <;> rw [htime]
  | nowMillis | reapExpired | scan | reapLock => rfl

end LockEvent

/-- What each owner was promised last on `lock`. -/
def pledged (lock : String) : List (LockEvent b) → String → Option Int
  | [] => fun _ => none
  | ev :: older => (ev.act lock).pledge (pledged lock older)

/-- A promise stands until its owner gets another or gives the lock back. -/
theorem pledged_append {mid older : List (LockEvent b)} {g : LockEvent b} {a : String} {e : Int}
    (hg : g.act lock = .grant a e)
    (hmid : ∀ ev ∈ mid, ev.act lock ≠ .drop a ∧ ∀ e', ev.act lock ≠ .grant a e') :
    pledged lock (mid ++ g :: older) a = some e := by
  induction mid with
  | nil => simp [pledged, hg, pledge]
  | cons ev mid ih =>
    obtain ⟨hdrop, hgrant⟩ := hmid ev (by simp)
    have ih := ih fun ev' hev' => hmid ev' (by simp [hev'])
    rw [cons_append, pledged]
    cases hact : ev.act lock with
    | grant a' e' =>
      have hne : a ≠ a' := by
        rintro rfl
        exact hgrant e' hact
      rwa [pledge, update_of_ne hne]
    | drop a' =>
      have hne : a ≠ a' := by
        rintro rfl
        exact hdrop hact
      rwa [pledge, update_of_ne hne]
    | keep => exact ih

/-- Every grant of `lock` came after the promises to other owners had ended. -/
def Exclusive (lock : String) : List (LockEvent b) → Prop
  | [] => True
  | ev :: older =>
    (∀ a e a' e', pledged lock older a = some e → ev.act lock = .grant a' e' → a ≠ a' →
      e ≤ ev.after.clock) ∧ Exclusive lock older

theorem Exclusive.suffix {newer log : List (LockEvent b)} (h : Exclusive lock (newer ++ log)) :
    Exclusive lock log := by
  induction newer with
  | nil => exact h
  | cons ev newer ih => exact ih h.2

/-! ## The clients act on moments that have come -/

/-- The latest moment a thread knows to have come, after an answer. -/
def LockOp.learn (known : Int) : {b : LockBackend} → (op : LockOp b) → op.Res → Int
  | _, nowMillis, now => now
  | _, acquire _ _ _ _, _ | _, release _ _, _ | _, extend _ _ _, _ | _, reapExpired _, _
  | _, scan, _ | _, reapLock _ _, _ => known

/-- A thread takes and reaps locks as of moments it knows to have come. -/
def lockDiscipline (b : LockBackend) : Discipline (lockSig b) Int where
  permits known op := op.Timely known
  expects _ _ _ := True
  next known op r := op.learn known r
  done _ := True

variable {known ttlMs now : Int} {name owner : String}

theorem LockOp.Timely.mono {clock : Int} (h : op.Timely known) (hle : known ≤ clock) :
    op.Timely clock := by
  cases op with
  | acquire | reapExpired | reapLock => exact Int.le_trans h hle
  | nowMillis | release | extend | scan => trivial

theorem obeys_acquireLock : Prog.Obeys (lockDiscipline b) (acquireLock name owner ttlMs) :=
  fun _ => ⟨trivial, fun now _ => ⟨Int.le_refl now, fun _ _ => trivial⟩⟩

theorem obeys_extendLock : Prog.Obeys (lockDiscipline b) (extendLock name owner ttlMs) :=
  fun _ => ⟨trivial, fun _ _ => ⟨trivial, fun _ _ => trivial⟩⟩

theorem obeys_tryLead : Prog.Obeys (lockDiscipline b) (tryLead name owner ttlMs) := by
  refine obeys_extendLock.bind fun extended => ?_
  cases extended with
  | true => exact .ret true
  | false => exact obeys_acquireLock

/-- Reaping as of a moment that has come. -/
theorem follows_reapKeys (h : now ≤ known) {names : List String} :
    (reapKeys now names).Follows (lockDiscipline .redis) known fun known' _ => known' = known := by
  induction names with
  | nil => rfl
  | cons name names ih => exact .bind ⟨h, fun _ _ => .bind (ih.mono fun _ _ heq => heq)⟩

theorem follows_reapPages (h : now ≤ known) {rounds : Nat} :
    (reapPages now rounds).Follows (lockDiscipline .redis) known
      fun known' _ => known' = known := by
  induction rounds with
  | zero => rfl
  | succ rounds ih =>
    refine .bind ⟨trivial, fun page _ => .bind ((follows_reapKeys h).mono ?_)⟩
    rintro _ _ rfl
    by_cases hlast : page.2 = true
    · rw [if_pos hlast]
      rfl
    · rw [if_neg hlast]
      exact .bind (ih.mono fun _ _ heq => heq)

theorem follows_discardLock {α : Type} {p : LockProg b α} {Q : Int → α → Prop}
    (h : p.Follows (lockDiscipline b) known Q) :
    (LockProg.discard p).Follows (lockDiscipline b) known fun _ _ => True :=
  .bind (h.mono fun _ _ _ => trivial)

/-! ## Runs -/

section Runs

variable {τ : Type} [DecidableEq τ]

/-- Locks are reaped as of a moment that has come; everything else is up to the clients. -/
abbrev lockRules (b : LockBackend) (τ : Type) : Rules (lockMachine b).logged (lockClients b) τ where
  mayStart s _ call :=
    match call with
    | .reapExpiredLocks now _ => now ≤ s.1.clock
    | .acquireLock _ _ _ | .releaseLock _ _ | .extendLock _ _ _ | .tryLead _ _ _ => True
  mayStep _ _ _ _ := True

omit [DecidableEq τ] in
theorem follows_prog {s : (lockMachine b).logged.State} {t : τ} {call : LockCall}
    (h : (lockRules b τ).mayStart s t call) :
    (call.prog b).Follows (lockDiscipline b) s.1.clock fun _ _ => True := by
  cases call with
  | acquireLock => exact follows_discardLock (obeys_acquireLock _)
  | releaseLock => exact ⟨trivial, fun _ _ => trivial⟩
  | extendLock => exact follows_discardLock (obeys_extendLock _)
  | tryLead => exact follows_discardLock (obeys_tryLead _)
  | reapExpiredLocks =>
    cases b with
    | sqlite => exact ⟨h, fun _ _ => trivial⟩
    | redis => exact follows_discardLock (follows_reapPages h)

/-- What holds of the locks, and of what the threads know, between operations. -/
structure LockInv (st : LockState) (log : List (LockEvent b)) (known : τ → Int) : Prop where
  /-- What the threads know to have come has come. -/
  come : ∀ t, known t ≤ st.clock
  /-- Every promise is kept, or over. -/
  honoured : ∀ lock, Honoured st.clock (st.lease lock) (pledged lock log)
  /-- Nobody else was given a lock before a promise was over. -/
  exclusive : ∀ lock, Exclusive lock log

theorem LockInv.step {log : List (LockEvent b)} {known : τ → Int} {t : τ} (w : LockWorld)
    (hinv : LockInv st log known) (hop : op.Timely (known t)) :
    LockInv (op.exec w st).2 (⟨op, st, (op.exec w st).2⟩ :: log)
      (update known t (op.learn (known t) (op.exec w st).1)) := by
  have hclock : st.clock ≤ (op.exec w st).2.clock := by
    rw [exec_clock]
    exact le_max_left _ _
  have hallowed : ∀ lock, (LockEvent.act lock ⟨op, st, (op.exec w st).2⟩).Allowed
      (op.exec w st).2.clock (st.lease lock) ((op.exec w st).2.lease lock) := by
    intro lock
    rw [LockEvent.act_exec]
    exact exec_allowed (hop.mono ((hinv.come t).trans hclock))
  refine ⟨fun u => ?_, fun lock => (hinv.honoured lock).step hclock (hallowed lock),
    fun lock => ⟨fun a e a' e' hp hact hne => ?_, hinv.exclusive lock⟩⟩
  · by_cases hu : u = t
    · subst hu
      rw [update_self]
      cases op with
      | nowMillis => cases b <;> exact Int.le_refl _
      | _ =>
        exact (hinv.come u).trans hclock
    · rw [update_of_ne hu]
      exact (hinv.come u).trans hclock
  · have hgrant := hallowed lock
    rw [hact] at hgrant
    exact (hinv.honoured lock).exclusive hclock hgrant hne hp

theorem lock_sound :
    Pool.Sound (lockRules b τ) (lockDiscipline b) fun s known => LockInv s.1 s.2 known where
  start s known t call hinv _ hstart := by
    refine ⟨s.1.clock, ⟨fun u => ?_, hinv.honoured, hinv.exclusive⟩, follows_prog hstart⟩
    by_cases hu : u = t
    · rw [hu, update_self]
    · rw [update_of_ne hu]
      exact hinv.come u
  step _ _ _ _ w hinv hpermit _ := ⟨trivial, hinv.step w hpermit⟩

/-- Every event is an operation that executed. -/
theorem events_executed {st₀ : LockState} {c : Pool (lockMachine b).logged τ}
    (h : Pool.Reaches (lockRules b τ) (Pool.idle (st₀, [])) c) :
    ∀ ev, ev ∈ c.state.2 → ∃ w, ev.after = (ev.op.exec w ev.before).2 := by
  refine Pool.invariant (P := fun s : (lockMachine b).logged.State =>
    ∀ ev ∈ s.2, ∃ w, ev.after = (ev.op.exec w ev.before).2) ?_ (by simp [Pool.idle]) h
  intro _ _ _ w hs _ ev hev
  obtain rfl | hev := mem_cons.1 hev
  · exact ⟨w, rfl⟩
  · exact hs ev hev

/-! ## Safety -/

def LockOp.isAcquire : {b : LockBackend} → LockOp b → Bool
  | _, acquire _ _ _ _ => true
  | _, nowMillis | _, release _ _ | _, extend _ _ _ | _, reapExpired _ | _, scan
  | _, reapLock _ _ => false

def LockEvent.Acquires (lock owner : String) (ev : LockEvent b) : Prop :=
  ev.op.isAcquire = true ∧ ∃ expiresAt, ev.act lock = .grant owner expiresAt

def LockEvent.GivesBack (lock owner : String) (ev : LockEvent b) : Prop := ev.act lock = .drop owner

/-- The owner gave the lock back, or was granted it anew. -/
def LockEvent.Supersedes (lock owner : String) (ev : LockEvent b) : Prop :=
  ev.GivesBack lock owner ∨ ∃ expiresAt, ev.act lock = .grant owner expiresAt

/-- When `a`'s acquire or extend of a lock granted it until `e`, and nothing `ends` the grant, no
acquire of the lock by another owner succeeds before `e`. -/
def HonoursGrants (ends : String → String → LockEvent b → Prop) (log : List (LockEvent b)) : Prop :=
  ∀ (lock a a' : String) (e : Int) (newer mid older : List (LockEvent b)) (g q : LockEvent b),
    log = newer ++ q :: (mid ++ g :: older) → g.act lock = .grant a e →
    (∀ ev ∈ mid, ¬ ends lock a ev) → q.Acquires lock a' → a ≠ a' → e ≤ q.after.clock

/-- A release or extend of a lock by somebody who is not recorded as its holder is refused and
leaves every lock as time alone would. -/
def HolderOnly (log : List (LockEvent b)) : Prop :=
  ∀ ev ∈ log, ∀ name owner, ev.op.heldBy name owner →
    (∀ row, (ev.before.atTime b ev.after.clock).locks.find name = some row →
      row.ownerId ≠ owner) →
    (∀ lock, ev.act lock = .keep) ∧
      ∀ lock, ev.after.locks.find lock = (ev.before.atTime b ev.after.clock).locks.find lock

/-- **The locks are safe**, on both stores and in every run of their clients: the latest grant to
an owner who has not given the lock back is honoured until its end, and only the recorded holder
of a lock can release or extend it. -/
theorem lock_safety {st₀ : LockState} {c : Pool (lockMachine b).logged τ}
    (h : Pool.Reaches (lockRules b τ) (Pool.idle (st₀, [])) c) :
    HonoursGrants LockEvent.Supersedes c.state.2 ∧ HolderOnly c.state.2 := by
  have hidle : Pool.Certified (lockDiscipline b)
      (fun (s : (lockMachine b).logged.State) known => LockInv s.1 s.2 known)
      (.idle (st₀, []) : Pool (lockMachine b).logged τ) fun _ => st₀.clock :=
    .idle ⟨fun _ => Int.le_refl _, fun _ => honoured_empty _ _, fun _ => trivial⟩ fun _ => trivial
  obtain ⟨known, hinv, -⟩ := lock_sound.reachable hidle h
  constructor
  · rintro lock a a' e _ mid older g _ hlog hg hmid ⟨-, e', hq⟩ hne
    have hexcl := hinv.exclusive lock
    rw [hlog] at hexcl
    have hpledge : pledged lock (mid ++ g :: older) a = some e :=
      pledged_append hg fun ev hev =>
        ⟨fun hdrop => hmid ev hev (.inl hdrop), fun e'' he => hmid ev hev (.inr ⟨e'', he⟩)⟩
    exact hexcl.suffix.1 a e a' e' hpledge hq hne
  · intro ev hev _ _ hop hrow
    obtain ⟨w, hafter⟩ := events_executed h ev hev
    have htime : ev.before.atTime b ev.after.clock = ev.before.atTime b w.time := by
      rw [hafter]
      exact atTime_exec _ ev.op w
    obtain ⟨op, before, after⟩ := ev
    obtain rfl : after = (op.exec w before).2 := hafter
    rw [htime] at hrow ⊢
    have hframe := run_frame op w hop hrow
    exact ⟨fun lock => (LockEvent.act_exec op w).trans (hframe.1 lock), hframe.2⟩

end Runs

/-! ## Two owners -/

instance (s : (lockMachine b).logged.State) (t : Bool) (call : (lockClients b).Call) :
    Decidable ((lockRules b Bool).mayStart s t call) := by
  dsimp only
  split <;> infer_instance

/-- A call at a time, as the moves of thread `t`. -/
def lockMoves (t : Bool) (call : LockCall) (time : Int) (ops : Nat) :
    List (Move (lockMachine b).logged (lockClients b) Bool) :=
  .start t call :: List.replicate ops (.step t ⟨time, [], true⟩)

/-- `a` takes the lock until 10, `b` cannot release it, and takes it at 20. -/
def takeover : List (Move (lockMachine b).logged (lockClients b) Bool) :=
  lockMoves true (.acquireLock "l" "a" 10) 0 2 ++ lockMoves false (.releaseLock "l" "b") 5 1 ++
    lockMoves false (.acquireLock "l" "b" 10) 20 2

theorem lock_safety_takeover :
    ∃ c, Pool.Reaches (lockRules .redis Bool) (Pool.idle (LockState.init 0, [])) c ∧
      c.state.2.map (LockEvent.act "l") =
        [.grant "b" 30, .keep, .keep, .grant "a" 10, .keep] ∧
      HonoursGrants LockEvent.Supersedes c.state.2 ∧ HolderOnly c.state.2 := by
  refine Pool.exists_reaches_and takeover ?_ fun c hc => lock_safety hc
  decide +kernel

/-- `a` takes the lock until 100 and then sets its expiry to 15, so `b` takes it at 20. -/
def shortened : List (Move (lockMachine b).logged (lockClients b) Bool) :=
  lockMoves true (.acquireLock "l" "a" 100) 0 2 ++ lockMoves true (.extendLock "l" "a" 10) 5 2 ++
    lockMoves false (.acquireLock "l" "b" 10) 20 2

/-- What an event did to lock `l`, whether by an acquire, and when. -/
def LockEvent.trace (ev : LockEvent b) : LeaseAct String × Bool × Int :=
  (ev.act "l", ev.op.isAcquire, ev.after.clock)

/-- An earlier grant that its owner has shortened is not honoured to its own end. -/
theorem every_grant_not_honoured :
    ¬ ∀ c : Pool (lockMachine .sqlite).logged Bool,
      Pool.Reaches (lockRules .sqlite Bool) (Pool.idle (LockState.init 0, [])) c →
      HonoursGrants LockEvent.GivesBack c.state.2 := by
  intro hall
  obtain ⟨c, hc, hlog⟩ := Pool.exists_reaches (lockRules .sqlite Bool)
    (Pool.idle (LockState.init 0, [])) shortened
    (fun c => c.state.2.map LockEvent.trace =
      (.grant "b" 30, true, 20) ::
        ([(.keep, false, 20), (.grant "a" 15, false, 5), (.keep, false, 5)] ++
          (.grant "a" 100, true, 0) :: [(.keep, false, 0)]))
    (by decide +kernel)
  obtain ⟨q, rest, hlog, hq, hrest⟩ := map_eq_cons_iff.1 hlog
  obtain ⟨mid, tail, rfl, hmid, htail⟩ := map_eq_append_iff.1 hrest
  obtain ⟨g, older, rfl, hg, -⟩ := map_eq_cons_iff.1 htail
  simp only [LockEvent.trace, Prod.mk.injEq] at hq hg
  have hends : ∀ ev ∈ mid, ¬ ev.GivesBack "l" "a" := by
    intro ev hev hdrop
    have hmem := mem_map_of_mem (f := LockEvent.trace) hev
    rw [hmid, LockEvent.trace, show ev.act "l" = _ from hdrop] at hmem
    simp at hmem
  have hle := hall c hc "l" "a" "b" 100 [] mid older g q hlog hg.1 hends ⟨hq.2.1, _, hq.1⟩
    (by decide)
  rw [hq.2.2] at hle
  exact absurd hle (by decide)

end Flexiq
