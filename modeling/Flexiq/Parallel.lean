import Flexiq.Prog

/-!
# Two sides

Programs over two signatures that share one state: an operation is one of either side, a program
of one side runs as it is, and a discipline for each side makes a discipline for both. A program
that follows its side's discipline follows the joint one (`Follows.left`, `Follows.right`).
-/

namespace Flexiq

/-- The operations of both sides. -/
@[reducible] def Signature.sum (S T : Signature) : Signature :=
  ⟨S.Op ⊕ T.Op, Sum.elim S.Res T.Res⟩

variable {S T : Signature} {α γ δ : Type}

namespace Prog

/-- A program of the left side. -/
def left : Prog S α → Prog (S.sum T) α
  | ret a => ret a
  | call op k => call (S := S.sum T) (.inl op) fun r => (k r).left

/-- A program of the right side. -/
def right : Prog T α → Prog (S.sum T) α
  | ret a => ret a
  | call op k => call (S := S.sum T) (.inr op) fun r => (k r).right

end Prog

/-- Each thread keeps to the discipline of its side. -/
def Discipline.sum (D : Discipline S γ) (E : Discipline T δ) : Discipline (S.sum T) (γ ⊕ δ) where
  permits
    | .inl g, .inl op => D.permits g op
    | .inr g, .inr op => E.permits g op
    | _, _ => False
  expects
    | .inl g, .inl op, r => D.expects g op r
    | .inr g, .inr op, r => E.expects g op r
    | _, _, _ => True
  next
    | .inl g, .inl op, r => .inl (D.next g op r)
    | .inr g, .inr op, r => .inr (E.next g op r)
    | g, _, _ => g
  done := Sum.elim D.done E.done

namespace Prog

variable {D : Discipline S γ} {E : Discipline T δ}

theorem Follows.left {p : Prog S α} {g : γ} {Q : γ → α → Prop} (h : p.Follows D g Q) :
    (p.left : Prog (S.sum T) α).Follows (D.sum E) (.inl g)
      fun g' a => ∃ g₀, g' = .inl g₀ ∧ Q g₀ a := by
  induction p generalizing g with
  | ret a => exact ⟨g, rfl, h⟩
  | call op k ih => exact ⟨h.1, fun r hr => ih r (h.2 r hr)⟩

theorem Follows.right {p : Prog T α} {g : δ} {Q : δ → α → Prop} (h : p.Follows E g Q) :
    (p.right : Prog (S.sum T) α).Follows (D.sum E) (.inr g)
      fun g' a => ∃ g₀, g' = .inr g₀ ∧ Q g₀ a := by
  induction p generalizing g with
  | ret a => exact ⟨g, rfl, h⟩
  | call op k ih => exact ⟨h.1, fun r hr => ih r (h.2 r hr)⟩

end Prog

end Flexiq
