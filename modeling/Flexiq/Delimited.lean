import Mathlib

/-! # Texts joined by a separator

Two texts joined by a separator can be read back only up to where the cut is made: if the separator
occurs inside the parts, the same joined text has several readings. This module says exactly which.
Two pairs join to the same text iff they are equal or one is the other with its cut moved to a later
occurrence of the separator. Two usual remedies rule the shift out: a first part that does not
contain the separator, and a first part whose size is known beforehand.
-/

namespace Flexiq

namespace Delimited

variable {α : Type*} {sep : α} {a b c d : List α}

/-- The pair `(c, d)` is the pair `(a, b)` with its cut moved to a later separator. -/
def Shifted (sep : α) (a b c d : List α) : Prop :=
  ∃ x, c = a ++ sep :: x ∧ b = x ++ sep :: d

/-- If one first part extends another and both joins agree, the cut was kept or moved. -/
theorem eq_or_shifted_of_extends {x : List α} (hc : c = a ++ x)
    (hb : sep :: b = x ++ sep :: d) : (a = c ∧ b = d) ∨ Shifted sep a b c d := by
  cases x with
  | nil =>
    obtain ⟨-, rfl⟩ := List.cons.inj hb
    exact .inl ⟨by simpa using hc.symm, rfl⟩
  | cons s x =>
    obtain ⟨rfl, rfl⟩ := List.cons.inj hb
    exact .inr ⟨x, hc, rfl⟩

theorem Shifted.join_eq (h : Shifted sep a b c d) : a ++ sep :: b = c ++ sep :: d := by
  obtain ⟨x, rfl, rfl⟩ := h
  simp

theorem join_eq_join_iff :
    a ++ sep :: b = c ++ sep :: d ↔
      (a = c ∧ b = d) ∨ Shifted sep a b c d ∨ Shifted sep c d a b := by
  constructor
  · intro h
    rcases List.append_eq_append_iff.mp h with ⟨x, hc, hb⟩ | ⟨_, ha, hd⟩
    · rcases eq_or_shifted_of_extends hc hb with heq | hshift
      · exact .inl heq
      · exact .inr (.inl hshift)
    · rcases eq_or_shifted_of_extends ha hd with ⟨hca, hdb⟩ | hshift
      · exact .inl ⟨hca.symm, hdb.symm⟩
      · exact .inr (.inr hshift)
  · rintro (⟨rfl, rfl⟩ | h | h)
    · rfl
    · exact h.join_eq
    · exact h.join_eq.symm

theorem join_inj (ha : sep ∉ a) (hc : sep ∉ c) : a ++ sep :: b = c ++ sep :: d ↔ a = c ∧ b = d := by
  rw [join_eq_join_iff]
  constructor
  · rintro (h | ⟨x, rfl, -⟩ | ⟨_, rfl, -⟩)
    · exact h
    · simp at hc
    · simp at ha
  · exact .inl

/-- The pair `(c, d)` is the pair `(a, b)`, joined by a doubled separator, with its cut moved: by
one place within three separators in a row, or to a later doubled one. -/
def DoubleShifted (sep : α) (a b c d : List α) : Prop :=
  c = a ++ [sep] ∧ b = sep :: d ∨ ∃ x, c = a ++ sep :: sep :: x ∧ b = x ++ sep :: sep :: d

/-- Moving the cut of a doubled separator is moving the cut of a single one. -/
theorem shifted_cons_iff : Shifted sep a (sep :: b) c (sep :: d) ↔ DoubleShifted sep a b c d := by
  constructor
  · rintro ⟨x, hc, hb⟩
    cases x with
    | nil => exact .inl ⟨hc, (List.cons.inj hb).2⟩
    | cons s x =>
      obtain ⟨rfl, hrest⟩ := List.cons.inj hb
      exact .inr ⟨x, hc, hrest⟩
  · rintro (⟨rfl, rfl⟩ | ⟨x, rfl, rfl⟩)
    · exact ⟨[], rfl, rfl⟩
    · exact ⟨sep :: x, rfl, rfl⟩

theorem double_join_eq_iff :
    a ++ sep :: sep :: b = c ++ sep :: sep :: d ↔
      (a = c ∧ b = d) ∨ DoubleShifted sep a b c d ∨ DoubleShifted sep c d a b := by
  rw [join_eq_join_iff, shifted_cons_iff, shifted_cons_iff, List.cons_inj_right]

/-- First parts of one known size are read back, for any size that adds up over concatenation and
is zero only on the empty text. -/
theorem append_inj_of_size {size : List α → ℕ} (hadd : ∀ x y, size (x ++ y) = size x + size y)
    (hzero : ∀ x, size x = 0 → x = []) (hsize : size a = size c) :
    a ++ b = c ++ d ↔ a = c ∧ b = d := by
  constructor
  · intro h
    rcases List.append_eq_append_iff.mp h with ⟨x, rfl, rfl⟩ | ⟨x, rfl, rfl⟩
    · cases hzero x (by rw [hadd] at hsize; omega)
      simp
    · cases hzero x (by rw [hadd] at hsize; omega)
      simp
  · rintro ⟨rfl, rfl⟩
    rfl

end Delimited

end Flexiq
