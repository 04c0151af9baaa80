import Mathlib

/-! # Registers that keep their highest-ranked value

A register is empty or holds one value. Every value has a rank in a linear order, and a write is
guarded: it takes effect on an empty register, and otherwise only if the value it brings ranks
strictly above the one that is held. Values of equal rank may still differ, so what a register
holds does depend on the order of the writes. Its *height*, the rank of what it holds, does not:
after any list of writes it is the maximum of the height before and of the ranks written.
-/

namespace Flexiq

open List

namespace Register

variable {α ρ : Type*} (rank : α → ρ)

/-- The rank of what the register holds, with `⊥` for an empty one. -/
def height (held : Option α) : WithBot ρ := held.map rank

@[simp]
theorem height_none : height rank (none : Option α) = ⊥ := rfl

@[simp]
theorem height_some (a : α) : height rank (some a) = (rank a : WithBot ρ) := rfl

variable [LinearOrder ρ]

/-- The guarded write of `a` over what the register holds. -/
def absorb (held : Option α) (a : α) : Option α :=
  match held with
  | none => some a
  | some b => if rank b < rank a then some a else some b

@[simp]
theorem height_absorb (held : Option α) (a : α) :
    height rank (absorb rank held a) = max (height rank held) (rank a) := by
  cases held with
  | none => simp [absorb]
  | some b =>
    by_cases h : rank b < rank a
    · have hle : (rank b : WithBot ρ) ≤ rank a := by exact_mod_cast h.le
      simp [absorb, h, hle]
    · have hle : (rank a : WithBot ρ) ≤ rank b := by exact_mod_cast not_lt.mp h
      simp [absorb, h, hle]

/-- A list of writes raises a register to the maximum of its height and the ranks written. -/
theorem height_foldl (writes : List α) (held : Option α) :
    height rank (writes.foldl (absorb rank) held) =
      max (height rank held) (writes.map rank).maximum := by
  induction writes generalizing held with
  | nil => simp
  | cons a writes ih =>
    simp only [foldl_cons, map_cons, maximum_cons]
    rw [ih, height_absorb, max_assoc]

/-- After a list of writes the height is the greatest rank among what was held before and what was
written: neither the order of the writes nor their number of repetitions enters. -/
theorem height_foldl_eq_coe (writes : List α) (held : Option α) (r : ρ) :
    height rank (writes.foldl (absorb rank) held) = r ↔
      IsGreatest {x | (∃ a ∈ held, rank a = x) ∨ ∃ a ∈ writes, rank a = x} r := by
  have hcons : max (height rank held) (writes.map rank).maximum =
      ((held.toList ++ writes).map rank).maximum := by
    cases held with
    | none => simp
    | some b => simp [maximum_cons]
  rw [height_foldl, hcons, maximum_eq_coe_iff]
  simp only [map_append, mem_append, mem_map, Option.mem_toList]
  rfl

end Register

end Flexiq
