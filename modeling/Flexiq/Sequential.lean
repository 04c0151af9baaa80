import Flexiq.Prog

/-!
# One program alone

What a program does when nothing else touches the shared state: the calls happen one after the
other, each under an input of the world. `Returns` is its big-step relation, restricted to
inputs that a condition `A` allows at each call, and `Ensures` the matching precondition: from
this state, whatever allowed inputs come, the program ends in a state and with a result that
satisfy the postcondition. Programs always end, so `Ensures` is a statement of total
correctness.
-/

namespace Flexiq

namespace Prog

variable {S T : Signature} {M : Machine S} {α β : Type} {A : M.State → S.Op → M.Env → Prop}
variable {p : Prog S α} {s : M.State}

/-- Alone, from state `s` and under inputs that `A` allows, the program returns `a` in
state `s'`. -/
inductive Returns (M : Machine S) (A : M.State → S.Op → M.Env → Prop) :
    Prog S α → M.State → α → M.State → Prop
  | ret (a : α) (s : M.State) : Returns M A (.ret a) s a s
  | call {op : S.Op} {k : S.Res op → Prog S α} {s s' : M.State} {env : M.Env} {a : α}
      (allowed : A s op env) (rest : Returns M A (k (M.exec op env s).1) (M.exec op env s).2 a s') :
      Returns M A (.call op k) s a s'

/-- Run a program on a list of inputs, as long as they are allowed. -/
def runAlone (A : M.State → S.Op → M.Env → Prop) [∀ s op env, Decidable (A s op env)] :
    Prog S α → M.State → List M.Env → Option (α × M.State)
  | .ret a, s, _ => some (a, s)
  | .call _ _, _, [] => none
  | .call op k, s, env :: envs =>
    if A s op env then (k (M.exec op env s).1).runAlone A (M.exec op env s).2 envs else none

variable {s' : M.State} {a : α}

theorem returns_of_runAlone [∀ s op env, Decidable (A s op env)] {envs : List M.Env}
    (h : p.runAlone A s envs = some (a, s')) : p.Returns M A s a s' := by
  induction p generalizing s envs with
  | ret =>
    cases h
    exact .ret _ _
  | call op k ih =>
    cases envs with
    | nil => cases h
    | cons =>
      simp only [runAlone] at h
      split at h
      · next hallowed => exact .call hallowed (ih _ h)
      · cases h

/-- A concrete run that ends, and whose end a test accepts. -/
theorem exists_returns (A : M.State → S.Op → M.Env → Prop) [∀ s op env, Decidable (A s op env)]
    (p : Prog S α) (s : M.State) (envs : List M.Env) (P : α → M.State → Prop)
    [∀ a s, Decidable (P a s)] (h : (p.runAlone A s envs).any (fun r => P r.1 r.2) = true) :
    ∃ a s', p.Returns M A s a s' ∧ P a s' := by
  obtain ⟨⟨a, s'⟩, hrun, hP⟩ := (Option.any_eq_true _ _).1 h
  exact ⟨a, s', returns_of_runAlone hrun, of_decide_eq_true hP⟩

/-- Alone, from state `s`, the program ends with `Q` true of the last state and the result,
whatever inputs that `A` allows the world chooses. -/
def Ensures (A : M.State → S.Op → M.Env → Prop) :
    Prog S α → M.State → (M.State → α → Prop) → Prop
  | .ret a, s, Q => Q s a
  | .call op k, s, Q =>
    ∀ env, A s op env → (k (M.exec op env s).1).Ensures A (M.exec op env s).2 Q

theorem Ensures.returns {Q : M.State → α → Prop} (h : p.Ensures A s Q) (hr : p.Returns M A s a s') :
    Q s' a := by
  induction hr with
  | ret => exact h
  | call hallowed _ ih => exact ih (h _ hallowed)

theorem Ensures.mono {Q Q' : M.State → α → Prop} (h : p.Ensures A s Q)
    (hQ : ∀ s a, Q s a → Q' s a) : p.Ensures A s Q' := by
  induction p generalizing s with
  | ret a => exact hQ s a h
  | call op k ih => exact fun env henv => ih _ (h env henv)

theorem Ensures.bind {f : α → Prog S β} {Q : M.State → β → Prop}
    (h : p.Ensures A s fun s' a => (f a).Ensures A s' Q) : (p >>= f).Ensures A s Q := by
  induction p generalizing s with
  | ret => exact h
  | call op k ih => exact fun env henv => ih _ (h env henv)

theorem Ensures.perform {op : S.Op} {Q : M.State → S.Res op → Prop}
    (h : ∀ env, A s op env → Q (M.exec op env s).2 (M.exec op env s).1) :
    (Prog.perform op).Ensures A s Q := h

/-- What every call of a program keeps, the program keeps. -/
theorem Ensures.of_calls {P : S.Op → Prop} {R : M.State → Prop} (hp : p.Calls P)
    (hstep : ∀ op env s, P op → R s → R (M.exec op env s).2) (hs : R s) :
    p.Ensures A s fun s' _ => R s' := by
  induction p generalizing s with
  | ret => exact hs
  | call op k ih => exact fun env _ => ih _ (hp.2 _) (hstep op env s hp.1 hs)

section Guarded

variable {f : T.Op → S.Op} {g : ∀ op, S.Res (f op) → Option (T.Res op)}

theorem Ensures.guarded_perform {op : T.Op} {Q : M.State → Option (T.Res op) → Prop}
    (h : ∀ env, A s (f op) env → Q (M.exec (f op) env s).2 (g op (M.exec (f op) env s).1)) :
    ((Prog.perform op).guarded f g).Ensures A s Q := by
  simp only [Prog.perform, guarded, Ensures]
  intro env henv
  have hQ := h env henv
  rcases hg : g op (M.exec (f op) env s).1 with _ | _
  · rwa [hg] at hQ
  · rwa [hg] at hQ

theorem Ensures.guarded_bind {p : Prog T α} {k : α → Prog T β} {Q : M.State → Option β → Prop}
    (h : (p.guarded f g).Ensures A s fun s' r => match r with
      | none => Q s' none
      | some a => ((k a).guarded f g).Ensures A s' Q) :
    ((p >>= k).guarded f g).Ensures A s Q := by
  induction p generalizing s with
  | ret => exact h
  | call op k' ih =>
    simp only [guarded, Ensures] at h
    rw [call_bind]
    simp only [guarded, Ensures]
    intro env henv
    have h' := h env henv
    rcases hg : g op (M.exec (f op) env s).1 with _ | a
    · rw [hg] at h'
      exact h'
    · rw [hg] at h'
      exact ih a h'

end Guarded

end Prog

end Flexiq
