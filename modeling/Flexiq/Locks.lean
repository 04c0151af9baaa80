import Flexiq.Table
import Flexiq.Prog
import Flexiq.Lease

/-!
# Distributed locks

Named locks with a time to live, as the relational store keeps them (one row a lock, one
statement or transaction an operation) and as Redis does (one hash a lock, one Lua script an
operation). An operation reads the clock first and runs its statement later, so any number of
other clients' operations may fall in between.

On Redis a lock's key has an expiry of its own, and every script that writes `expires_at` sets
the key's expiry to the same moment, so the row stands for both: a key vanishes once its expiry
is past, and at once when it is set to a moment that has come already.
-/

namespace Flexiq

/-- Which store keeps the locks. -/
inductive LockBackend where
  | sqlite
  | redis
  deriving DecidableEq

structure LockRow where
  lockName : String
  ownerId : String
  acquiredAt : Int
  expiresAt : Int
  deriving DecidableEq

/-- `distributed_locks`: keyed by name. -/
def distributedLocksSchema : Schema LockRow String Unit where
  key := LockRow.lockName
  index _ := none

theorem distributedLocksSchema_index (row : LockRow) :
    distributedLocksSchema.index row = none := rfl

abbrev LockTable := Table distributedLocksSchema

/-- The lock in place of the one of its name. -/
def LockTable.put (locks : LockTable) (row : LockRow) : LockTable :=
  Table.replace locks row (distributedLocksSchema_index row)

/-- The moment `ttlMs` after `now`, in 64-bit arithmetic. -/
def expiryOf (now ttlMs : Int) : Int := (now + ttlMs).bmod (2 ^ 64)

/-! ## The relational store -/

namespace Sqlite

def acquireLock (lockName ownerId : String) (now expiresAt : Int) (locks : LockTable) :
    Bool × LockTable :=
  let taken := (true, LockTable.put locks ⟨lockName, ownerId, now, expiresAt⟩)
  match locks.find lockName with
  | some lock => if lock.expiresAt > now then (false, locks) else taken
  | none => taken

def ownedBy (lockName ownerId : String) (row : LockRow) : Bool :=
  row.lockName = lockName ∧ row.ownerId = ownerId

def releaseLock (lockName ownerId : String) (locks : LockTable) : Bool × LockTable :=
  (decide (0 < locks.count (ownedBy lockName ownerId)), locks.delete (ownedBy lockName ownerId))

theorem preserves_extended (lockName ownerId : String) (expiresAt : Int) :
    Table.Preserves distributedLocksSchema (ownedBy lockName ownerId)
      fun row => { row with expiresAt := expiresAt } :=
  fun _ _ => ⟨rfl, Or.inl rfl⟩

/-- Set the expiry of the owner's lock, whether or not it has passed. -/
def extendLock (lockName ownerId : String) (expiresAt : Int) (locks : LockTable) :
    Bool × LockTable :=
  (decide (0 < locks.count (ownedBy lockName ownerId)),
    locks.update (ownedBy lockName ownerId) (fun row => { row with expiresAt := expiresAt })
      (preserves_extended lockName ownerId expiresAt))

/-- Delete the expired locks; the answer is how many. -/
def reapExpiredLocks (now : Int) (locks : LockTable) : Nat × LockTable :=
  (locks.count fun row => row.expiresAt ≤ now, locks.delete fun row => row.expiresAt ≤ now)

end Sqlite

/-! ## Redis -/

namespace Redis

/-- The keys whose expiry is past are gone. -/
def evict (clock : Int) (locks : LockTable) : LockTable :=
  locks.delete fun row => row.expiresAt < clock

/-- `DEL` of a lock's key. -/
def del (lockName : String) (locks : LockTable) : LockTable :=
  locks.delete fun row => row.lockName = lockName

/-- `HSET` of a lock's fields and `PEXPIREAT` to its expiry, which deletes the key when that
moment has come. -/
def setLock (row : LockRow) (clock : Int) (locks : LockTable) : LockTable :=
  if row.expiresAt ≤ clock then del row.lockName locks else LockTable.put locks row

def acquireLock (lockName ownerId : String) (now expiresAt clock : Int) (locks : LockTable) :
    Bool × LockTable :=
  let taken := (true, setLock ⟨lockName, ownerId, now, expiresAt⟩ clock locks)
  match locks.find lockName with
  | some lock => if lock.expiresAt > now then (false, locks) else taken
  | none => taken

def releaseLock (lockName ownerId : String) (locks : LockTable) : Bool × LockTable :=
  match locks.find lockName with
  | some lock => if lock.ownerId = ownerId then (true, del lockName locks) else (false, locks)
  | none => (false, locks)

def extendLock (lockName ownerId : String) (expiresAt clock : Int) (locks : LockTable) :
    Bool × LockTable :=
  match locks.find lockName with
  | some lock =>
    if lock.ownerId = ownerId then (true, setLock { lock with expiresAt := expiresAt } clock locks)
    else (false, locks)
  | none => (false, locks)

/-- The reap script: delete the lock if it is still expired. -/
def reapLock (lockName : String) (now : Int) (locks : LockTable) : Nat × LockTable :=
  match locks.find lockName with
  | some lock => if lock.expiresAt ≤ now then (1, del lockName locks) else (0, locks)
  | none => (0, locks)

end Redis

/-! ## Operations -/

/-- The atomic operations of a backend's clients. -/
inductive LockOp : LockBackend → Type where
  | nowMillis {b : LockBackend} : LockOp b
  | acquire {b : LockBackend} (lockName ownerId : String) (now expiresAt : Int) : LockOp b
  | release {b : LockBackend} (lockName ownerId : String) : LockOp b
  | extend {b : LockBackend} (lockName ownerId : String) (expiresAt : Int) : LockOp b
  | reapExpired (now : Int) : LockOp .sqlite
  /-- One page of a `SCAN` over the locks. -/
  | scan : LockOp .redis
  | reapLock (lockName : String) (now : Int) : LockOp .redis

/-- What an operation answers; a page says whether it is the last. -/
@[reducible] def LockOp.Res : {b : LockBackend} → LockOp b → Type
  | _, nowMillis => Int
  | _, acquire _ _ _ _ | _, release _ _ | _, extend _ _ _ => Bool
  | _, reapExpired _ | _, reapLock _ _ => Nat
  | _, scan => List String × Bool

abbrev lockSig (b : LockBackend) : Signature := ⟨LockOp b, LockOp.Res⟩

/-- The common clock and the locks. -/
structure LockState where
  clock : Int
  locks : LockTable

def LockState.init (clock : Int) : LockState := ⟨clock, .empty⟩

/-- What the world decides at one operation: the time, and the page a scan returns. -/
structure LockWorld where
  time : Int
  names : List String
  last : Bool

/-- The state once the clock has reached `time`; it never goes back. -/
def LockState.atTime (b : LockBackend) (time : Int) (st : LockState) : LockState :=
  let clock := max st.clock time
  match b with
  | .sqlite => ⟨clock, st.locks⟩
  | .redis => ⟨clock, Redis.evict clock st.locks⟩

def LockState.answer {α : Type} (st : LockState) (r : α × LockTable) : α × LockState :=
  (r.1, { st with locks := r.2 })

/-- One operation, at the moment it executes. -/
def LockOp.run : {b : LockBackend} → (op : LockOp b) → LockWorld → LockState → op.Res × LockState
  | _, nowMillis, _, st => (st.clock, st)
  | .sqlite, acquire l o now e, _, st => st.answer (Sqlite.acquireLock l o now e st.locks)
  | .redis, acquire l o now e, _, st => st.answer (Redis.acquireLock l o now e st.clock st.locks)
  | .sqlite, release l o, _, st => st.answer (Sqlite.releaseLock l o st.locks)
  | .redis, release l o, _, st => st.answer (Redis.releaseLock l o st.locks)
  | .sqlite, extend l o e, _, st => st.answer (Sqlite.extendLock l o e st.locks)
  | .redis, extend l o e, _, st => st.answer (Redis.extendLock l o e st.clock st.locks)
  | _, reapExpired now, _, st => st.answer (Sqlite.reapExpiredLocks now st.locks)
  | _, scan, w, st => ((w.names, w.last), st)
  | _, reapLock l now, _, st => st.answer (Redis.reapLock l now st.locks)

/-- One operation. -/
def LockOp.exec {b : LockBackend} (op : LockOp b) (w : LockWorld) (st : LockState) :
    op.Res × LockState :=
  op.run w (st.atTime b w.time)

abbrev lockMachine (b : LockBackend) : Machine (lockSig b) := ⟨LockState, LockWorld, LockOp.exec⟩

/-! ## Programs -/

/-- A program of a backend's client. -/
abbrev LockProg (b : LockBackend) (α : Type) := Prog (lockSig b) α

/-- One operation, as a program. -/
def lockOp {b : LockBackend} (op : LockOp b) : LockProg b op.Res := Prog.perform (S := lockSig b) op

variable {b : LockBackend}

/-- Try to take a lock for `ttlMs`. -/
def acquireLock (lockName ownerId : String) (ttlMs : Int) : LockProg b Bool := do
  let now : Int ← lockOp .nowMillis
  lockOp (.acquire lockName ownerId now (expiryOf now ttlMs))

/-- Give a lock back. -/
def releaseLock (lockName ownerId : String) : LockProg b Bool := lockOp (.release lockName ownerId)

/-- Reset the expiry of a lock to `ttlMs` from now. -/
def extendLock (lockName ownerId : String) (ttlMs : Int) : LockProg b Bool := do
  let now : Int ← lockOp .nowMillis
  lockOp (.extend lockName ownerId (expiryOf now ttlMs))

/-- Hold a lock for another `ttlMs`: renew it, or take it when it is free. -/
def tryLead (lockName ownerId : String) (ttlMs : Int) : LockProg b Bool := do
  if ← extendLock lockName ownerId ttlMs then return true
  else acquireLock lockName ownerId ttlMs

def reapKeys (now : Int) : List String → LockProg .redis Nat
  | [] => return 0
  | name :: rest => do
    let deleted : Nat ← lockOp (.reapLock name now)
    let more ← reapKeys now rest
    return deleted + more

/-- Page through the locks and reap each; `rounds` bounds the pages, which the source does not. -/
def reapPages (now : Int) : Nat → LockProg .redis Nat
  | 0 => return 0
  | rounds + 1 => do
    let (names, last) ← lockOp .scan
    let deleted ← reapKeys now names
    if last then return deleted
    else
      let more ← reapPages now rounds
      return deleted + more

/-- Remove the locks that have expired by `now`; the answer is how many. -/
def reapExpiredLocks (now : Int) (rounds : Nat) : (b : LockBackend) → LockProg b Nat
  | .sqlite => lockOp (.reapExpired now)
  | .redis => reapPages now rounds

/-- What the clients of the locks can ask for. -/
inductive LockCall where
  | acquireLock (lockName ownerId : String) (ttlMs : Int)
  | releaseLock (lockName ownerId : String)
  | extendLock (lockName ownerId : String) (ttlMs : Int)
  | tryLead (lockName ownerId : String) (ttlMs : Int)
  | reapExpiredLocks (now : Int) (rounds : Nat)

/-- A program run for its effects. -/
def LockProg.discard {α : Type} (p : LockProg b α) : LockProg b Unit := do
  let _ ← p
  return ()

def LockCall.prog (b : LockBackend) : LockCall → LockProg b Unit
  | acquireLock l o ttl => LockProg.discard (Flexiq.acquireLock l o ttl)
  | releaseLock l o => LockProg.discard (Flexiq.releaseLock l o)
  | extendLock l o ttl => LockProg.discard (Flexiq.extendLock l o ttl)
  | tryLead l o ttl => LockProg.discard (Flexiq.tryLead l o ttl)
  | reapExpiredLocks now rounds => LockProg.discard (Flexiq.reapExpiredLocks now rounds b)

abbrev lockClients (b : LockBackend) : Clients (lockSig b) := ⟨LockCall, LockCall.prog b⟩

end Flexiq
