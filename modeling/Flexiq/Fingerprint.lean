import Mathlib

/-!
# Registry fingerprints

Two workers compare what they have registered by one number: a hash of the registered names, sorted
and without duplicates, each behind its length in eight bytes. The lengths make the hashed bytes
readable in one way only, so different registries hash different bytes (`fingerprint_injective`).
-/

namespace Flexiq.Fingerprint

/-- The last `k` digits of a number, the most significant first. -/
def bigEndian {α : Type} (base : Nat) (digit : Nat → α) : Nat → Nat → List α
  | 0, _ => []
  | k + 1, n => bigEndian base digit k (n / base) ++ [digit (n % base)]

section Digits

variable {α : Type} {base : Nat} {digit : Nat → α}

theorem length_bigEndian (k n : Nat) : (bigEndian base digit k n).length = k := by
  induction k generalizing n with
  | zero => rfl
  | succ k ih => rw [bigEndian, List.length_append, ih, List.length_singleton]

theorem bigEndian_inj (hdigit : ∀ i < base, ∀ j < base, digit i = digit j → i = j) {k m n : Nat}
    (hm : m < base ^ k) (hn : n < base ^ k)
    (h : bigEndian base digit k m = bigEndian base digit k n) : m = n := by
  induction k generalizing m n with
  | zero =>
    rw [Nat.pow_zero] at hm hn
    omega
  | succ k ih =>
    have hbase : 0 < base := Nat.pos_of_ne_zero fun h0 => by simp [h0] at hm
    have hquot : ∀ {x}, x < base ^ (k + 1) → x / base < base ^ k := fun hx =>
      Nat.div_lt_of_lt_mul (by rwa [← Nat.pow_succ'])
    obtain ⟨hinit, hlast⟩ := List.append_inj' h rfl
    have hdiv := ih (hquot hm) (hquot hn) hinit
    have hmod := hdigit _ (Nat.mod_lt m hbase) _ (Nat.mod_lt n hbase) (List.singleton_inj.1 hlast)
    rw [← Nat.div_add_mod m base, hdiv, hmod, Nat.div_add_mod]

end Digits

abbrev Byte := Fin 256

/-- The bytes of a task name; their number fits in 64 bits. -/
abbrev Name := { bytes : List Byte // bytes.length < 256 ^ 8 }

def encode (name : Name) : List Byte := bigEndian 256 (Fin.ofNat 256) 8 name.1.length ++ name.1

/-- The bytes that are hashed: the names in the order of their bytes, each once. -/
def hashed (names : List Name) : List Byte := (names.toFinset.sort (· ≤ ·)).flatMap encode

def fnvOffsetBasis : UInt64 := 0xcbf29ce484222325
def fnvPrime : UInt64 := 0x00000100000001b3

def fnv1a (bytes : List Byte) : UInt64 :=
  bytes.foldl (fun hash byte => (hash ^^^ UInt64.ofNat byte) * fnvPrime) fnvOffsetBasis

/-- The hash in sixteen hex digits; a registry that holds nothing has no fingerprint. -/
def registryFingerprint (names : List Name) : Option String :=
  if names.isEmpty then none
  else some (String.ofList (bigEndian 16 Nat.digitChar 16 (fnv1a (hashed names)).toNat))

theorem encode_append_inj {a b : Name} {x y : List Byte} (h : encode a ++ x = encode b ++ y) :
    a = b ∧ x = y := by
  simp only [encode, List.append_assoc] at h
  obtain ⟨hlen, hrest⟩ := List.append_inj h (by rw [length_bigEndian, length_bigEndian])
  have hsize := bigEndian_inj (fun i hi j hj h => by
    have hmod : i % 256 = j % 256 := congrArg Fin.val h
    omega) a.2 b.2 hlen
  obtain ⟨hname, hrest⟩ := List.append_inj hrest hsize
  exact ⟨Subtype.ext hname, hrest⟩

theorem encode_ne_nil (a : Name) : encode a ≠ [] := by
  refine List.ne_nil_of_length_pos ?_
  rw [encode, List.length_append, length_bigEndian]
  omega

theorem flatMap_encode_inj {l l' : List Name} (h : l.flatMap encode = l'.flatMap encode) :
    l = l' := by
  induction l generalizing l' with
  | nil =>
    cases l' with
    | nil => rfl
    | cons b l' => exact absurd (List.append_eq_nil_iff.1 h.symm).1 (encode_ne_nil b)
  | cons a l ih =>
    cases l' with
    | nil => exact absurd (List.append_eq_nil_iff.1 h).1 (encode_ne_nil a)
    | cons b l' =>
      obtain ⟨rfl, hrest⟩ := encode_append_inj h
      rw [ih hrest]

theorem hashed_eq_iff {names names' : List Name} :
    hashed names = hashed names' ↔ ∀ name, name ∈ names ↔ name ∈ names' := by
  constructor
  · intro h name
    have hsort := flatMap_encode_inj h
    rw [← List.mem_toFinset, ← Finset.mem_sort (· ≤ ·), hsort, Finset.mem_sort, List.mem_toFinset]
  · intro h
    have hset : names.toFinset = names'.toFinset := by
      ext name
      simpa using h name
    rw [hashed, hashed, hset]

/-- **The hashed bytes tell registries apart**: they are the same for the same set of names only.
Registries with one fingerprint are the same, or their hashes collide. -/
theorem fingerprint_injective (names names' : List Name) :
    (hashed names = hashed names' ↔ ∀ name, name ∈ names ↔ name ∈ names') ∧
    (registryFingerprint names = registryFingerprint names' →
      (∀ name, name ∈ names ↔ name ∈ names') ∨
      hashed names ≠ hashed names' ∧ fnv1a (hashed names) = fnv1a (hashed names')) := by
  refine ⟨hashed_eq_iff, fun h => ?_⟩
  by_cases heq : hashed names = hashed names'
  · exact .inl (hashed_eq_iff.1 heq)
  · refine .inr ⟨heq, ?_⟩
    cases names with
    | nil => cases names' with
      | nil => exact absurd rfl heq
      | cons => simp [registryFingerprint] at h
    | cons a names => cases names' with
      | nil => simp [registryFingerprint] at h
      | cons b names' =>
        have hlt (hash : UInt64) : hash.toNat < 16 ^ 16 := hash.toNat_lt.trans_eq (by decide)
        have hdigits := String.ofList_inj.1 (Option.some.inj h)
        exact UInt64.toNat_inj.1 (bigEndian_inj (by decide +kernel) (hlt _) (hlt _) hdigits)

end Flexiq.Fingerprint
