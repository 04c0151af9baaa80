import Flexiq.Job
import Flexiq.Delimited

/-! # The Redis keyspace

The Redis backend addresses everything it stores by a key that joins a few segments with `:`. The
first segment is always a fixed word; later ones may be caller-supplied strings, in which a `:` is
as good as any other character. This module gives the keys of the entities the backend addresses and
determines exactly when two different entities share one.

Job and dead-letter ids are generated (hyphenated UUIDs), so they hold no `:` and are never one of
the fixed words. The debounce index prefixes its namespace with the length of the namespace, which
keeps it apart from every other index for all strings. Subscriptions and periodic tasks have no such
protection, and these are the only families with clashes.
-/

namespace Flexiq

open String (toList_inj utf8Len)

open List

namespace Redis

/-- Build a Redis key from parts: `"{keyPrefix}{part1}:{part2}:..."`. -/
def key (keyPrefix : String) (parts : List String) : String :=
  parts.zipIdx.foldl (fun k part => (if part.2 > 0 then k.push ':' else k) ++ part.1) keyPrefix

/-- The hyphenated text of a UUID, as far as keys depend on it. -/
structure Uuid where
  text : String
  length : text.length = 36
  noSeparator : ':' ∉ text.toList
deriving DecidableEq

/-- What is stored for one job beside the indices. -/
inductive JobKey
  | blob
  | dependsOn
  | dependents
deriving DecidableEq

/-- The indices over all jobs. -/
inductive JobsIndex
  | all
  | cancelRequested
  | status (status : JobStatus)
  | byQueue (queue : String)
  | byTask (taskName : String)
  | unique (uniqueKey : String)
  | debounce (ns : Option String) (debounceKey : String)
deriving DecidableEq

/-- The backlog indices of a subscription. -/
inductive BacklogKind
  | pending
  | running
  | dead
deriving DecidableEq

/-- What is stored for one subscription. -/
inductive SubKey
  | blob (topic name : String)
  | backlog (kind : BacklogKind) (topic name : String)
deriving DecidableEq

/-- What is stored for periodic tasks: one blob each, and the set of due times. -/
inductive PeriodicKey
  | task (name : String)
  | due
deriving DecidableEq

/-- What is stored for dead letters: one blob each, and the set of all ids. -/
inductive DeadKey
  | entry (id : Uuid)
  | all
deriving DecidableEq

/-- An entity of the Redis backend, by what identifies it. -/
inductive Entity
  | job (id : Uuid) (part : JobKey)
  | pending (queue : String)
  | jobs (ix : JobsIndex)
  | sub (s : SubKey)
  | periodic (p : PeriodicKey)
  | lock (name : String)
  | claim (jobId : Uuid)
  | claimsByTime
  | dead (d : DeadKey)
deriving DecidableEq

def statusNumber : JobStatus → Nat
  | .pending => 0
  | .running => 1
  | .complete => 2
  | .failed => 3
  | .dead => 4
  | .cancelled => 5

def BacklogKind.word : BacklogKind → String
  | .pending => "pending"
  | .running => "running"
  | .dead => "dead"

/-- The namespace segment of a debounce index: `-` for the default namespace and `<len>:<ns>`
otherwise, with the length in bytes. -/
def nsSegment : Option String → String
  | some ns => toString ns.utf8ByteSize ++ ":" ++ ns
  | none => "-"

def JobKey.parts (id : Uuid) : JobKey → List String
  | .blob => [id.text]
  | .dependsOn => [id.text, "depends_on"]
  | .dependents => [id.text, "dependents"]

/-- The parts of the keys of the indices over all jobs, after the first one. -/
def JobsIndex.parts : JobsIndex → List String
  | .all => ["all"]
  | .cancelRequested => ["cancel_requested"]
  | .status s => ["status", toString (statusNumber s)]
  | .byQueue queue => ["by_queue", queue]
  | .byTask taskName => ["by_task", taskName]
  | .unique uniqueKey => ["unique", uniqueKey]
  | .debounce ns debounceKey => ["debounce", nsSegment ns, debounceKey]

/-- The parts of a subscription's keys, after the first one. -/
def SubKey.parts : SubKey → List String
  | .blob topic name => [topic, name]
  | .backlog kind topic name => [kind.word, topic, name]

def PeriodicKey.parts : PeriodicKey → List String
  | .task name => [name]
  | .due => ["due"]

def DeadKey.parts : DeadKey → List String
  | .entry id => [id.text]
  | .all => ["all"]

/-- The first part of an entity's key. -/
def Entity.family : Entity → String
  | .job _ _ => "job"
  | .pending _ => "queue"
  | .jobs _ => "jobs"
  | .sub _ => "sub"
  | .periodic _ => "periodic"
  | .lock _ => "lock"
  | .claim _ => "exec_claim"
  | .claimsByTime => "exec_claims"
  | .dead _ => "dlq"

/-- The parts of an entity's key after the first one. -/
def Entity.rest : Entity → List String
  | .job id part => part.parts id
  | .pending queue => [queue, "pending"]
  | .jobs ix => ix.parts
  | .sub s => s.parts
  | .periodic p => p.parts
  | .lock name => [name]
  | .claim jobId => [jobId.text]
  | .claimsByTime => ["by_time"]
  | .dead d => d.parts

def Entity.key (keyPrefix : String) (e : Entity) : String :=
  Redis.key keyPrefix (e.family :: e.rest)

/-! ## Joined keys -/

/-- The characters that some parts put after what stands before them. -/
def tails (parts : List String) : List Char := parts.flatMap fun part => ':' :: part.toList

@[simp]
theorem tails_nil : tails [] = [] := rfl

@[simp]
theorem tails_cons (part : String) (parts : List String) :
    tails (part :: parts) = ':' :: (part.toList ++ tails parts) := rfl

theorem toList_foldl (parts : List String) (n : Nat) (k : String) :
    ((parts.zipIdx (n + 1)).foldl
        (fun k part => (if part.2 > 0 then k.push ':' else k) ++ part.1) k).toList =
      k.toList ++ tails parts := by
  induction parts generalizing n k with
  | nil => simp
  | cons part parts ih => simp [zipIdx_cons, ih]

/-- A key is its prefix, its first part and the rest behind separators. -/
theorem toList_key (keyPrefix part : String) (parts : List String) :
    (key keyPrefix (part :: parts)).toList = keyPrefix.toList ++ (part.toList ++ tails parts) := by
  simp only [key, zipIdx_cons, foldl_cons, gt_iff_lt, lt_self_iff_false, ↓reduceIte]
  rw [toList_foldl parts 0]
  simp

variable {part part' k k' : String} {e e' : Entity}

/-- A part that does not contain the separator is read back. -/
theorem part_inj (h : ':' ∉ part.toList) (h' : ':' ∉ part'.toList) (parts parts' : List String) :
    part.toList ++ tails parts = part'.toList ++ tails parts' ↔
      part = part' ∧ tails parts = tails parts' := by
  rw [← toList_inj]
  cases parts with
  | nil =>
    cases parts' with
    | nil => simp
    | cons =>
      refine iff_of_false (fun heq => h ?_) (by simp)
      rw [tails_nil, append_nil] at heq
      simp [heq]
  | cons =>
    cases parts' with
    | nil =>
      refine iff_of_false (fun heq => h' ?_) (by simp)
      rw [tails_nil, append_nil] at heq
      simp [← heq]
    | cons => simp [Delimited.join_inj h h']

/-! ## Families that keep their entities apart -/

theorem tails_singleton_inj (h : tails [part] = tails [part']) : part = part' := by
  simpa [toList_inj] using h

theorem isDigit_of_mem_toString {n : Nat} {c : Char} (h : c ∈ (toString n).toList) :
    c.isDigit = true :=
  Nat.isDigit_of_mem_toDigits (by decide) (by decide) (Nat.toList_repr ▸ h)

theorem separator_notMem_toString (n : Nat) : ':' ∉ (toString n).toList :=
  fun h => absurd (isDigit_of_mem_toString h) (by decide)

theorem dash_ne_toString (n : Nat) : "-" ≠ toString n := by
  intro h
  have hmem : '-' ∈ (toString n).toList := by
    rw [← h]
    decide
  exact absurd (isDigit_of_mem_toString hmem) (by decide)

theorem tails_nsSegment (ns k : String) :
    tails [nsSegment (some ns), k] = tails [toString ns.utf8ByteSize, ns, k] := by
  simp [nsSegment]

/-- A length prefix keeps apart the texts behind it. -/
theorem lengthPrefixed_inj {ns ns' : String}
    (h : tails [toString ns.utf8ByteSize, ns, k] = tails [toString ns'.utf8ByteSize, ns', k']) :
    ns = ns' ∧ k = k' := by
  rw [tails_cons, tails_cons (toString ns'.utf8ByteSize)] at h
  obtain ⟨hlen, hrest⟩ := (part_inj (separator_notMem_toString _) (separator_notMem_toString _)
    _ _).mp (List.cons.inj h).2
  have hsize : utf8Len ns.toList = utf8Len ns'.toList := by
    simpa [← String.utf8ByteSize_ofList] using Nat.repr_inj.mp hlen
  have hns := (Delimited.append_inj_of_size String.utf8Len_append
    (fun _ => String.utf8Len_eq_zero.mp) hsize).mp (List.cons.inj hrest).2
  exact ⟨toList_inj.mp hns.1, tails_singleton_inj hns.2⟩

/-- The debounce indices of different (namespace, key) pairs are kept apart. -/
theorem debounce_inj {ns ns' : Option String}
    (h : tails [nsSegment ns, k] = tails [nsSegment ns', k']) : ns = ns' ∧ k = k' := by
  -- The default namespace is `-`, which is no number.
  have hdash : ∀ n : Nat, ∀ k parts, tails ["-", k] ≠ tails (toString n :: parts) := by
    intro n _ _ hne
    rw [tails_cons, tails_cons (toString n)] at hne
    have hword := (part_inj (by decide) (separator_notMem_toString n) _ _).mp
      (List.cons.inj hne).2
    exact dash_ne_toString n hword.1
  cases ns with
  | none =>
    cases ns' with
    | none => exact ⟨rfl, by simpa [toList_inj] using h⟩
    | some =>
      rw [tails_nsSegment] at h
      exact absurd h (hdash _ _ _)
  | some =>
    rw [tails_nsSegment] at h
    cases ns' with
    | none => exact absurd h.symm (hdash _ _ _)
    | some =>
      rw [tails_nsSegment] at h
      obtain ⟨rfl, rfl⟩ := lengthPrefixed_inj h
      exact ⟨rfl, rfl⟩

theorem statusNumber_injective : Function.Injective statusNumber := by
  intro s t _
  cases s <;> cases t <;> simp_all [statusNumber]

/-- The indices over all jobs are kept apart. -/
theorem JobsIndex.parts_inj {ix ix' : JobsIndex} (h : tails ix.parts = tails ix'.parts) :
    ix = ix' := by
  have hword : ∀ {w w' r r'}, ix.parts = w :: r → ix'.parts = w' :: r' → ':' ∉ w.toList →
      ':' ∉ w'.toList → w = w' ∧ tails r = tails r' := by
    intro _ _ r r' hix hix' hw hw'
    rw [hix, hix', tails_cons, tails_cons] at h
    exact (part_inj hw hw' r r').mp (List.cons.inj h).2
  -- different indexes differ in their first words
  cases ix <;> cases ix' <;>
    try exact absurd (hword rfl rfl (by decide) (by decide)).1 (by decide)
  case all.all | cancelRequested.cancelRequested => rfl
  case status.status =>
    have hnum := tails_singleton_inj (hword rfl rfl (by decide) (by decide)).2
    rw [statusNumber_injective (Nat.repr_inj.mp hnum)]
  case byQueue.byQueue | byTask.byTask | unique.unique =>
    rw [tails_singleton_inj (hword rfl rfl (by decide) (by decide)).2]
  case debounce.debounce =>
    obtain ⟨rfl, rfl⟩ := debounce_inj (hword rfl rfl (by decide) (by decide)).2
    rfl

theorem Uuid.text_injective : Function.Injective Uuid.text := by
  rintro ⟨_, _, _⟩ ⟨_, _, _⟩ h
  cases h
  rfl

/-- A generated id is none of the fixed words. -/
theorem Uuid.text_ne (id : Uuid) {word : String} (h : word.length ≠ 36) : id.text ≠ word :=
  fun heq => h (heq ▸ id.length)

/-! ## Which entities share a key -/

/-- A subscription key read as a topic and a name: a backlog index reads as the subscription of
the topic `kind:topic`. -/
def SubKey.reading : SubKey → String × String
  | .blob topic name => (topic, name)
  | .backlog kind topic name => (kind.word ++ ":" ++ topic, name)

/-- The second pair is the first one with its cut moved to a later `:`. -/
def Shifts (a b : String × String) : Prop :=
  ∃ x, b.1 = a.1 ++ ":" ++ x ∧ a.2 = x ++ ":" ++ b.2

/-- The entities that share a key although they are different: a periodic task named `due` and the
set of due times, and subscriptions or backlogs whose readings differ only in where they are
cut. -/
def Entity.Clash : Entity → Entity → Prop
  | .periodic (.task name), .periodic .due => name = "due"
  | .periodic .due, .periodic (.task name) => name = "due"
  | .sub s, .sub t =>
    s.reading = t.reading ∨ Shifts s.reading t.reading ∨ Shifts t.reading s.reading
  | _, _ => False

theorem shifted_iff {a b : String × String} :
    Delimited.Shifted ':' a.1.toList a.2.toList b.1.toList b.2.toList ↔ Shifts a b := by
  constructor
  · rintro ⟨x, h1, h2⟩
    refine ⟨String.ofList x, toList_inj.mp ?_, toList_inj.mp ?_⟩
    · simpa using h1
    · simpa using h2
  · rintro ⟨x, h1, h2⟩
    exact ⟨x.toList, by simp [h1], by simp [h2]⟩

theorem tails_sub (s : SubKey) :
    tails s.parts = ':' :: (s.reading.1.toList ++ ':' :: s.reading.2.toList) := by
  cases s <;> simp [SubKey.parts, SubKey.reading]

theorem tails_sub_eq_iff (s t : SubKey) :
    tails s.parts = tails t.parts ↔ (Entity.sub s).Clash (.sub t) := by
  rw [tails_sub, tails_sub, List.cons.injEq, Delimited.join_eq_join_iff, shifted_iff, shifted_iff,
    toList_inj, toList_inj, ← Prod.ext_iff]
  simp [Entity.Clash]

theorem JobKey.parts_inj {id id' : Uuid} {part part' : JobKey}
    (h : tails (part.parts id) = tails (part'.parts id')) : id = id' ∧ part = part' := by
  have hword : ∀ {w w' r r'}, part.parts id = w :: r → part'.parts id' = w' :: r' →
      ':' ∉ w.toList → ':' ∉ w'.toList → w = w' ∧ tails r = tails r' := by
    intro _ _ r r' hp hp' hw hw'
    rw [hp, hp', tails_cons, tails_cons] at h
    exact (part_inj hw hw' r r').mp (List.cons.inj h).2
  cases part <;> cases part' <;>
    obtain ⟨hid, hrest⟩ := hword rfl rfl id.noSeparator id'.noSeparator <;>
    simp_all [Uuid.text_injective.eq_iff]

theorem separator_notMem_family (e : Entity) : ':' ∉ e.family.toList := by
  cases e <;> simp only [Entity.family] <;> decide

/-- Two entities share a key iff they are of one family and the rest of their parts agree. -/
theorem Entity.key_eq_iff (keyPrefix : String) (e e' : Entity) :
    e.key keyPrefix = e'.key keyPrefix ↔ e.family = e'.family ∧ tails e.rest = tails e'.rest := by
  rw [Entity.key, Entity.key, ← toList_inj, toList_key, toList_key,
    append_cancel_left_eq, part_inj (separator_notMem_family e) (separator_notMem_family e')]

/-- Entities of one family whose parts agree are equal or clash. -/
theorem Entity.eq_or_clash (hfamily : e.family = e'.family) (h : tails e.rest = tails e'.rest) :
    e = e' ∨ e.Clash e' := by
  -- entities of different kinds are in different families
  cases e <;> cases e' <;> simp only [Entity.family, String.reduceEq] at hfamily
  case job.job =>
    obtain ⟨rfl, rfl⟩ := JobKey.parts_inj h
    exact .inl rfl
  case pending.pending q q' =>
    have hq : q = q' := by simpa [Entity.rest, toList_inj] using h
    exact .inl (hq ▸ rfl)
  case jobs.jobs => exact .inl (JobsIndex.parts_inj h ▸ rfl)
  case sub.sub s t => exact .inr ((tails_sub_eq_iff s t).mp h)
  case periodic.periodic p p' =>
    cases p <;> cases p' <;> have hname := tails_singleton_inj h
    · exact .inl (hname ▸ rfl)
    · exact .inr hname
    · exact .inr hname.symm
    · exact .inl rfl
  case lock.lock => exact .inl (tails_singleton_inj h ▸ rfl)
  case claim.claim => exact .inl (Uuid.text_injective (tails_singleton_inj h) ▸ rfl)
  case claimsByTime.claimsByTime => exact .inl rfl
  case dead.dead d d' =>
    cases d <;> cases d' <;> have hid := tails_singleton_inj h
    · exact .inl (Uuid.text_injective hid ▸ rfl)
    · exact absurd hid (Uuid.text_ne _ (by decide))
    · exact absurd hid.symm (Uuid.text_ne _ (by decide))
    · exact .inl rfl

theorem Entity.Clash.key_eq (h : e.Clash e') (keyPrefix : String) :
    e.key keyPrefix = e'.key keyPrefix := by
  rw [Entity.key_eq_iff]
  cases e with
  | sub s =>
    cases e' with
    | sub t => exact ⟨rfl, (tails_sub_eq_iff s t).mpr h⟩
    | _ => exact h.elim
  | periodic p =>
    cases e' with
    | periodic p' =>
      cases p <;> cases p' <;> simp_all [Entity.Clash, Entity.family, Entity.rest,
        PeriodicKey.parts]
    | _ => cases p <;> exact h.elim
  | _ => exact h.elim

/-- Different entities have different keys, for any names, unless they are a periodic task named
`due` and the set of due times, or subscription keys that differ only in where they are cut. -/
theorem redis_keys_separate (keyPrefix : String) (e e' : Entity) (hne : e ≠ e') :
    e.key keyPrefix ≠ e'.key keyPrefix ↔ ¬e.Clash e' := by
  rw [ne_eq, not_iff_not]
  constructor
  · intro h
    obtain ⟨hfamily, hrest⟩ := (Entity.key_eq_iff keyPrefix e e').mp h
    exact (Entity.eq_or_clash hfamily hrest).resolve_left hne
  · exact fun h => h.key_eq keyPrefix

/-- The debounce indices of namespace `a` with key `b:c` and of namespace `a:b` with key `c` have
different keys. -/
theorem redis_keys_separate_debounce :
    (Entity.jobs (.debounce (some "a") "b:c")).key "flexiq:" ≠
      (Entity.jobs (.debounce (some "a:b") "c")).key "flexiq:" := by
  exact (redis_keys_separate "flexiq:" (.jobs (.debounce (some "a") "b:c"))
    (.jobs (.debounce (some "a:b") "c")) (by decide)).mpr id

/-- A periodic task named `due` is stored under the key of the set of due times, and the blob of a
subscription under the key of a backlog of another one. -/
theorem redis_keys_collide :
    (Entity.periodic (.task "due")).key "flexiq:" = (Entity.periodic .due).key "flexiq:" ∧
      (Entity.sub (.blob "a" "b:c")).key "flexiq:" = (Entity.sub (.blob "a:b" "c")).key "flexiq:" ∧
      (Entity.sub (.blob "pending" "t:n")).key "flexiq:" =
        (Entity.sub (.backlog .pending "t" "n")).key "flexiq:" := by
  refine ⟨?_, ?_, ?_⟩ <;> decide +kernel

end Redis

end Flexiq
