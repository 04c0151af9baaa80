import Mathlib

/-!
# Admitting under a cap by counting

Several threads admit items under a common cap. A thread first takes some items — from then on
everyone's counts include them —, then counts **once** what has been taken in total, and then
decides its items one by one against that number, lowering it by one for each item it gives back.

The number grows stale at once: others take, admit and give back in the meantime. What holds is a
bound on what the threads that have counted may still admit, their **room**: with a count of `c`
and `p` undecided items, a thread gives back the first `c - cap` of them before it admits one.
Admitted items and room together never exceed the cap (`Within`).
-/

namespace Flexiq

/-- A thread that admits under a cap: how many items it still has to decide, and the count it goes
by, once it has counted. -/
structure Stake where
  undecided : Nat
  count : Option Int

namespace Stake

/-- Nothing to decide. -/
def none : Stake := ⟨0, .none⟩

/-- How many items the thread may still admit. -/
def room (cap : Int) (k : Stake) : Nat :=
  match k.count with
  | .none => 0
  | some c => k.undecided - (c - cap).toNat

@[simp] theorem room_none (cap : Int) (p : Nat) : room cap ⟨p, .none⟩ = 0 := rfl

@[simp] theorem room_some (cap : Int) (p : Nat) (c : Int) :
    room cap ⟨p, some c⟩ = p - (c - cap).toNat := rfl

theorem room_le (cap : Int) (k : Stake) : k.room cap ≤ k.undecided := by
  unfold room
  split <;> omega

/-- Giving an item back and lowering the count leaves no more room than before. -/
theorem room_giveBack (cap : Int) (p : Nat) (c : Option Int) :
    room cap ⟨p, c.map (· - 1)⟩ ≤ room cap ⟨p + 1, c⟩ := by
  rcases c with _ | _
  · exact le_refl 0
  · simp only [Option.map_some, room_some]
    omega

/-- Admitting an item when the count, lowered by the `d` items before it, is within the cap. -/
theorem room_admit {cap c : Int} {d : Nat} (h : c - d ≤ cap) (p : Nat) :
    room cap ⟨p, some (c - d)⟩ + 1 ≤ room cap ⟨d + 1 + p, some c⟩ := by
  simp only [room_some]
  omega

end Stake

/-- What was admitted, and what any of the threads may still admit, is within the cap. -/
def Within {τ : Type} (cap : Int) (admitted : Nat) (stake : τ → Stake) : Prop :=
  ∀ F : Finset τ, admitted + ∑ t ∈ F, (stake t).room cap ≤ cap.toNat

namespace Within

variable {τ : Type} {cap : Int} {admitted admitted' : Nat} {stake : τ → Stake}

theorem init (cap : Int) : Within cap 0 fun _ : τ => Stake.none := by
  intro _
  simp [Stake.none, Stake.room]

theorem admitted_le (h : Within cap admitted stake) : admitted ≤ cap.toNat := by
  simpa using h ∅

theorem mono (h : Within cap admitted stake) (hle : admitted' ≤ admitted) :
    Within cap admitted' stake := fun F => by
  have := h F
  omega

variable [DecidableEq τ]

/-- A step of one thread that admits no more than it gives up in room. -/
theorem update (h : Within cap admitted stake) (t : τ) {k : Stake}
    (hle : admitted' + k.room cap ≤ admitted + (stake t).room cap) :
    Within cap admitted' (Function.update stake t k) := by
  intro F
  have hothers : ∑ u ∈ F.erase t, (Function.update stake t k u).room cap =
      ∑ u ∈ F.erase t, (stake u).room cap := by
    refine Finset.sum_congr rfl fun u hu => ?_
    rw [Function.update_of_ne (Finset.ne_of_mem_erase hu)]
  have hbound := h (insert t F)
  rw [← Finset.add_sum_erase _ _ (Finset.mem_insert_self t F), Finset.erase_insert_eq_erase]
    at hbound
  by_cases ht : t ∈ F
  · rw [← Finset.add_sum_erase _ _ ht, hothers, Function.update_self]
    omega
  · rw [Finset.erase_eq_of_notMem ht] at hothers hbound
    rw [hothers]
    omega

/-- **Counting**: the number covers everything that was admitted and everything any thread has
still to decide. -/
theorem load (h : Within cap admitted stake) {t : τ} {c : Int}
    (hc : ∀ F : Finset τ, ((admitted + ∑ u ∈ F, (stake u).undecided : Nat) : Int) ≤ c) :
    Within cap admitted (Function.update stake t ⟨(stake t).undecided, some c⟩) := by
  intro F
  have hothers : ∀ f : Stake → Nat, ∑ u ∈ F.erase t, f (Function.update stake t
      ⟨(stake t).undecided, some c⟩ u) = ∑ u ∈ F.erase t, f (stake u) := by
    intro _
    refine Finset.sum_congr rfl fun u hu => ?_
    rw [Function.update_of_ne (Finset.ne_of_mem_erase hu)]
  -- the others cannot admit more than they have to decide
  have hroom : ∑ u ∈ F.erase t, (stake u).room cap ≤ ∑ u ∈ F.erase t, (stake u).undecided :=
    Finset.sum_le_sum fun u _ => (stake u).room_le cap
  have hall := hc (insert t F)
  rw [← Finset.add_sum_erase _ _ (Finset.mem_insert_self t F), Finset.erase_insert_eq_erase] at hall
  have hold := h (F.erase t)
  by_cases ht : t ∈ F
  · rw [← Finset.add_sum_erase _ _ ht, hothers (Stake.room cap), Function.update_self]
    rw [Stake.room_some]
    omega
  · have hsame := hothers (Stake.room cap)
    rw [Finset.erase_eq_of_notMem ht] at hold hsame
    rw [hsame]
    exact hold

end Within

end Flexiq
