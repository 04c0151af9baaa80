import Mathlib

/-!
# Interleaved client programs

Code that talks to a shared store is a **program**: it either returns, or makes one call —
an *atomic* operation of a signature — and goes on with the answer. A **machine** gives the
operations their meaning on a shared state; what the world decides at a call (the clock, a
fresh identifier, whether a send succeeds) is an explicit input, so a machine is a function
and concrete runs evaluate.

A **pool** is a shared state and, for every thread, the program it still has to run. A move
either *starts* a client call on an idle thread or lets one thread make its next call; the
reachable pools are therefore the results of *every* interleaving of the clients at the
granularity of single operations.

Reasoning is by a **discipline**: each thread carries a ghost value that its own calls move
(a typestate), a program `Follows` the discipline when every call it makes is permitted, and
an invariant ties the ghost values of all threads to the shared state. `Sound.reachable` is
the induction over runs, done once.
-/

namespace Flexiq

open Relation.ReflTransGen (head refl)

open Function Option

section Update

variable {ι β : Type} [DecidableEq ι] {f : ι → Option β} {t u : ι} {b c : β}

/-- What is found after a write is the new value, or one from before. -/
theorem found_update (h : update f t (some b) u = some c) :
    (u = t ∧ c = b) ∨ (u ≠ t ∧ f u = some c) := by
  by_cases hut : u = t
  · subst hut
    rw [update_self] at h
    exact .inl ⟨rfl, (some.inj h).symm⟩
  · rw [update_of_ne hut] at h
    exact .inr ⟨hut, h⟩

/-- What is found after a removal was there before. -/
theorem found_of_none (h : update f t none u = some c) : f u = some c := by
  by_cases hut : u = t
  · subst hut
    rw [update_self] at h
    cases h
  · rwa [update_of_ne hut] at h

end Update

/-- The operations of a store, with the type of each one's answer. -/
structure Signature where
  /-- The atomic operations. -/
  Op : Type
  /-- What an operation answers. -/
  Res : Op → Type

/-- A client program: return, or make one call and continue with its answer. -/
inductive Prog (S : Signature) (α : Type) : Type where
  | ret (a : α) : Prog S α
  | call (op : S.Op) (k : S.Res op → Prog S α) : Prog S α

namespace Prog

variable {S : Signature} {α β : Type}

/-- Run `p`, then `f` on its result. -/
protected def bind : Prog S α → (α → Prog S β) → Prog S β
  | ret a, f => f a
  | call op k, f => call op fun r => (k r).bind f

instance : Monad (Prog S) where
  pure := ret
  bind := Prog.bind

protected theorem bind_assoc {δ : Type} (p : Prog S α) (f : α → Prog S β) (g : β → Prog S δ) :
    (p.bind f).bind g = p.bind fun a => (f a).bind g := by
  induction p with
  | ret a => rfl
  | call op k ih => exact congrArg (call op) (funext ih)

theorem call_bind (op : S.Op) (k : S.Res op → Prog S α) (f : α → Prog S β) :
    (call op k >>= f) = call op fun r => k r >>= f := rfl

/-- The program that makes one call and returns its answer. -/
def perform (op : S.Op) : Prog S (S.Res op) := call op ret

/-- Run `f` on every element, in order, for its effects. -/
def forEach : List α → (α → Prog S Unit) → Prog S Unit
  | [], _ => ret ()
  | a :: as, f => (f a).bind fun _ => forEach as f

/-- A program over one signature, run over another whose calls may fail: the first failure ends
the program without a result. -/
def guarded {T : Signature} (f : S.Op → T.Op) (g : ∀ op, T.Res (f op) → Option (S.Res op)) :
    Prog S α → Prog T (Option α)
  | ret a => ret (some a)
  | call op k => call (f op) fun r =>
    match g op r with
    | some a => (k a).guarded f g
    | none => ret none

/-- A program over a part of a signature, as one over the whole. -/
def embed {T : Signature} (f : S.Op → T.Op) (g : ∀ op, T.Res (f op) → S.Res op) :
    Prog S α → Prog T α
  | ret a => ret a
  | call op k => call (f op) fun r => (k (g op r)).embed f g

end Prog

/-! ## Machines and pools -/

/-- The meaning of a signature's operations on a shared state. `Env` is what the world
decides at a call. -/
structure Machine (S : Signature) where
  State : Type
  /-- The world's input to one call. -/
  Env : Type
  /-- One atomic call. -/
  exec : (op : S.Op) → Env → State → S.Res op × State

/-- The calls that clients start, each with the program it runs. -/
structure Clients (S : Signature) where
  Call : Type
  prog : Call → Prog S Unit

/-- A shared state and the program each thread still has to run. -/
structure Pool {S : Signature} (M : Machine S) (τ : Type) where
  state : M.State
  /-- What is left to run, thread by thread; an idle thread has returned. -/
  prog : τ → Prog S Unit

/-- One move of a pool: an idle thread starts a client call, or a thread makes its next
atomic call under the given input. -/
inductive Move {S : Signature} (M : Machine S) (C : Clients S) (τ : Type) where
  | start (t : τ) (c : C.Call)
  | step (t : τ) (env : M.Env)

/-- What a run is allowed to do: when a thread may start a call, and under which inputs an
operation may execute in a given state. -/
structure Rules {S : Signature} (M : Machine S) (C : Clients S) (τ : Type) where
  mayStart : M.State → τ → C.Call → Prop
  /-- The thread's next operation may execute in this state under this input. -/
  mayStep : M.State → τ → S.Op → M.Env → Prop

namespace Pool

variable {S : Signature} {M : Machine S} {C : Clients S} {τ : Type} [DecidableEq τ]
variable {R : Rules M C τ} {c c' : Pool M τ}

/-- Every thread idle. -/
def idle (s : M.State) : Pool M τ := ⟨s, fun _ => .ret ()⟩

def move (c : Pool M τ) : Move M C τ → Option (Pool M τ)
  | .start t call =>
    match c.prog t with
    | .ret _ => some ⟨c.state, update c.prog t (C.prog call)⟩
    | .call _ _ => none
  | .step t env =>
    match c.prog t with
    | .ret _ => none
    | .call op k =>
      let r := M.exec op env c.state
      some ⟨r.2, update c.prog t (k r.1)⟩

/-- The rules allow the first call of a program; a program that has returned makes none. -/
def CallAllowed (R : Rules M C τ) (s : M.State) (t : τ) (env : M.Env) : Prog S Unit → Prop
  | .ret _ => True
  | .call op _ => R.mayStep s t op env

def Allowed (R : Rules M C τ) (c : Pool M τ) : Move M C τ → Prop
  | .start t call => R.mayStart c.state t call
  | .step t env => CallAllowed R c.state t env (c.prog t)

instance (R : Rules M C τ) [∀ s t op env, Decidable (R.mayStep s t op env)] (s : M.State)
    (t : τ) (env : M.Env) : DecidablePred (CallAllowed R s t env)
  | .ret _ => isTrue trivial
  | .call op _ => inferInstanceAs (Decidable (R.mayStep s t op env))

instance (R : Rules M C τ) [∀ s t call, Decidable (R.mayStart s t call)]
    [∀ s t op env, Decidable (R.mayStep s t op env)] (c : Pool M τ) :
    DecidablePred (Allowed R c)
  | .start t call => inferInstanceAs (Decidable (R.mayStart c.state t call))
  | .step t env => inferInstanceAs (Decidable (CallAllowed R c.state t env (c.prog t)))

/-- An allowed move from one pool to the next. -/
def Step (R : Rules M C τ) (c c' : Pool M τ) : Prop :=
  ∃ m, Allowed R c m ∧ c.move m = some c'

/-- The pools an allowed run can reach. -/
def Reaches (R : Rules M C τ) : Pool M τ → Pool M τ → Prop := Relation.ReflTransGen (Step R)

/-- What a step is: a start on an idle thread, or one atomic call of one thread. -/
theorem step_cases (h : Step R c c') :
    (∃ t call, c.prog t = .ret () ∧ R.mayStart c.state t call ∧
      c' = ⟨c.state, update c.prog t (C.prog call)⟩) ∨
    (∃ t op k env, c.prog t = .call op k ∧ R.mayStep c.state t op env ∧
      c' = ⟨(M.exec op env c.state).2,
        update c.prog t (k (M.exec op env c.state).1)⟩) := by
  obtain ⟨m, hm, hc⟩ := h
  cases m with
  | start t call =>
    simp only [move] at hc
    rcases hp : c.prog t with _ | ⟨op, k⟩
    · rw [hp] at hc
      exact Or.inl ⟨t, call, hp, hm, (some.inj hc).symm⟩
    · rw [hp] at hc
      cases hc
  | step t env =>
    simp only [move] at hc
    simp only [Allowed, CallAllowed] at hm
    rcases hp : c.prog t with _ | ⟨op, k⟩
    · rw [hp] at hc
      cases hc
    · rw [hp] at hc hm
      exact Or.inr ⟨t, op, k, env, hp, hm, (some.inj hc).symm⟩

theorem Reaches.mono {R' : Rules M C τ}
    (hstart : ∀ s t call, R.mayStart s t call → R'.mayStart s t call)
    (hstep : ∀ s t op env, R.mayStep s t op env → R'.mayStep s t op env) (h : Reaches R c c') :
    Reaches R' c c' := by
  induction h with
  | refl => exact refl
  | tail _ hs ih =>
    obtain ⟨m, hm, hmove⟩ := hs
    refine ih.tail ⟨m, ?_, hmove⟩
    cases m with
    | start => exact hstart _ _ _ hm
    | step t =>
      simp only [Allowed] at hm ⊢
      rcases hp : Pool.prog _ t with _ | ⟨_, _⟩
      · trivial
      · rw [hp] at hm
        exact hstep _ _ _ _ hm

/-- The pool after a list of moves that the rules allow, move by move. -/
def runAllowed (R : Rules M C τ) [∀ c, DecidablePred (Allowed R c)] (c : Pool M τ) :
    List (Move M C τ) → Option (Pool M τ)
  | [] => some c
  | m :: ms => if Allowed R c m then (c.move m).bind fun c' => runAllowed R c' ms else none

theorem reaches_of_runAllowed [∀ c, DecidablePred (Allowed R c)] {ms : List (Move M C τ)}
    (h : runAllowed R c ms = some c') : Reaches R c c' := by
  induction ms generalizing c with
  | nil =>
    cases h
    exact refl
  | cons m ms ih =>
    simp only [runAllowed] at h
    split at h
    · next hm =>
      obtain ⟨c₁, hc₁, h⟩ := bind_eq_some_iff.1 h
      exact head ⟨m, hm, hc₁⟩ (ih h)
    · cases h

/-- A concrete run of allowed moves whose result a test accepts: such a pool is reachable. -/
theorem exists_reaches (R : Rules M C τ) [∀ c, DecidablePred (Allowed R c)] (c : Pool M τ)
    (ms : List (Move M C τ)) (P : Pool M τ → Prop) [DecidablePred P]
    (h : (runAllowed R c ms).any (fun c' => P c') = true) : ∃ c', Reaches R c c' ∧ P c' := by
  obtain ⟨c', hc', hP⟩ := (any_eq_true _ _).1 h
  exact ⟨c', reaches_of_runAllowed hc', of_decide_eq_true hP⟩

/-- Such a pool, with what holds in every reachable one. -/
theorem exists_reaches_and {P Q : Pool M τ → Prop} [∀ c, DecidablePred (Allowed R c)]
    [DecidablePred P] (ms : List (Move M C τ))
    (h : (runAllowed R c ms).any (fun c' => P c') = true) (hQ : ∀ c', Reaches R c c' → Q c') :
    ∃ c', Reaches R c c' ∧ P c' ∧ Q c' := by
  obtain ⟨c', hc', hP⟩ := exists_reaches R c ms P h
  exact ⟨c', hc', hP, hQ c' hc'⟩

/-- Two concrete runs of allowed moves, one after the other, whose results a test accepts. -/
theorem exists_reaches_twice (R : Rules M C τ) [∀ c, DecidablePred (Allowed R c)] (c : Pool M τ)
    (ms ms' : List (Move M C τ)) (P : Pool M τ → Pool M τ → Prop) [∀ c₁, DecidablePred (P c₁)]
    (h : (runAllowed R c ms).any (fun c₁ => (runAllowed R c₁ ms').any fun c₂ => P c₁ c₂) = true) :
    ∃ c₁ c₂, Reaches R c c₁ ∧ Reaches R c₁ c₂ ∧ P c₁ c₂ := by
  obtain ⟨c₁, hc₁, h⟩ := (any_eq_true _ _).1 h
  obtain ⟨c₂, hc₂, hP⟩ := (any_eq_true _ _).1 h
  exact ⟨c₁, c₂, reaches_of_runAllowed hc₁, reaches_of_runAllowed hc₂, of_decide_eq_true hP⟩

/-- **Invariants of the shared state.** A property that every allowed operation keeps holds
in every reachable pool. -/
theorem invariant {P : M.State → Prop}
    (hstep : ∀ s t op env, P s → R.mayStep s t op env → P (M.exec op env s).2) (hc : P c.state)
    (h : Reaches R c c') : P c'.state := by
  induction h with
  | refl => exact hc
  | tail _ hs ih =>
    obtain ⟨t, call, -, -, rfl⟩ | ⟨t, op, k, env, -, hr, rfl⟩ := step_cases hs
    · exact ih
    · exact hstep _ t op env ih hr

end Pool

/-! ## Histories -/

/-- One executed call: the operation, and the state before and after it. -/
structure Event {S : Signature} (M : Machine S) where
  op : S.Op
  before : M.State
  after : M.State

/-- The machine that also keeps every call it has executed, the latest first. -/
def Machine.logged {S : Signature} (M : Machine S) : Machine S where
  State := M.State × List (Event M)
  Env := M.Env
  exec op env s :=
    ((M.exec op env s.1).1, (M.exec op env s.1).2, ⟨op, s.1, (M.exec op env s.1).2⟩ :: s.2)

/-! ## Disciplines -/

/-- A discipline on the calls of a thread. The thread carries a ghost value in `γ`; the
discipline says which operations it may perform there, which answers can come back, and
where the answer moves the ghost value. -/
structure Discipline (S : Signature) (γ : Type) where
  /-- The thread may perform the operation. -/
  permits : γ → S.Op → Prop
  /-- The operation can answer this. -/
  expects : γ → (op : S.Op) → S.Res op → Prop
  /-- The ghost value after the answer. -/
  next : γ → (op : S.Op) → S.Res op → γ
  /-- The thread may return. -/
  done : γ → Prop

namespace Prog

variable {S : Signature} {α β γ : Type} {D : Discipline S γ}
variable {p : Prog S α} {g c : γ} {f : α → Prog S β} {op : S.Op} {T : Signature}

/-- From ghost value `g`, the program only makes permitted calls, whatever the expected
answers are, and returns with `Q` true of the last ghost value and the result. -/
def Follows (D : Discipline S γ) : Prog S α → γ → (γ → α → Prop) → Prop
  | ret a, g, Q => Q g a
  | call op k, g, Q =>
    D.permits g op ∧ ∀ r, D.expects g op r → (k r).Follows D (D.next g op r) Q

theorem Follows.mono {Q Q' : γ → α → Prop} (h : p.Follows D g Q) (hQ : ∀ g a, Q g a → Q' g a) :
    p.Follows D g Q' := by
  induction p generalizing g with
  | ret a => exact hQ g a h
  | call op k ih => exact ⟨h.1, fun r hr => ih r (h.2 r hr)⟩

theorem Follows.bind {Q : γ → β → Prop} (h : p.Follows D g fun g' a => (f a).Follows D g' Q) :
    (p >>= f).Follows D g Q := by
  induction p generalizing g with
  | ret => exact h
  | call op k ih => exact ⟨h.1, fun r hr => ih r (h.2 r hr)⟩

theorem Follows.perform {Q : γ → S.Res op → Prop} (hp : D.permits g op)
    (h : ∀ r, D.expects g op r → Q (D.next g op r) r) : (Prog.perform op).Follows D g Q :=
  ⟨hp, h⟩

/-- The loop rule: an invariant of the ghost value that every pass keeps. -/
theorem Follows.forEach {f : α → Prog S Unit} (I : γ → Prop) :
    ∀ {as : List α} {g : γ}, I g →
      (∀ a ∈ as, ∀ g, I g → (f a).Follows D g fun g' _ => I g') →
      (Prog.forEach as f).Follows D g fun g' _ => I g' := by
  intro as
  induction as with
  | nil => intro g hg _; exact hg
  | cons a as ih =>
    intro g hg hf
    refine Follows.bind ((hf a (by simp) g hg).mono fun g' _ hg' => ?_)
    exact ih hg' fun b hb => hf b (by simp [hb])

/-! ### Programs that need no ghost value -/

/-- Every call the program can make satisfies `P`. -/
def Calls (P : S.Op → Prop) : Prog S α → Prop
  | ret _ => True
  | call op k => P op ∧ ∀ r, (k r).Calls P

variable {P : S.Op → Prop}

theorem Calls.bind (h : p.Calls P) (hf : ∀ a, (f a).Calls P) : (p >>= f).Calls P := by
  induction p with
  | ret a => exact hf a
  | call op k ih => exact ⟨h.1, fun r => ih r (h.2 r)⟩

theorem Calls.perform (h : P op) : (Prog.perform op).Calls P :=
  ⟨h, fun _ => trivial⟩

theorem Calls.mono {Q : S.Op → Prop} (h : p.Calls P) (hPQ : ∀ op, P op → Q op) : p.Calls Q := by
  induction p with
  | ret => trivial
  | call op k ih => exact ⟨hPQ op h.1, fun r => ih r (h.2 r)⟩

/-- From every ghost value, the program follows the discipline. -/
def Obeys (D : Discipline S γ) (p : Prog S α) : Prop := ∀ g, p.Follows D g fun _ _ => True

theorem Obeys.ret (a : α) : Obeys D (ret a : Prog S α) := fun _ => trivial

theorem Obeys.bind (hp : Obeys D p) (hf : ∀ a, Obeys D (f a)) : Obeys D (p >>= f) :=
  fun g => Follows.bind ((hp g).mono fun g' a _ => hf a g')

theorem Obeys.perform (h : ∀ g, D.permits g op) : Obeys D (Prog.perform op) :=
  fun g => ⟨h g, fun _ _ => trivial⟩

theorem Obeys.forEach {f : α → Prog S Unit} (hf : ∀ a, Obeys D (f a)) (as : List α) :
    Obeys D (Prog.forEach as f) :=
  fun _ => Follows.forEach (fun _ => True) trivial fun a _ g _ => hf a g

theorem Calls.obeys (h : p.Calls P) (hP : ∀ op, P op → ∀ c, D.permits c op) : Obeys D p := by
  induction p with
  | ret a => exact Obeys.ret a
  | call op k ih => exact fun c => ⟨hP op h.1 c, fun r _ => ih r (h.2 r) _⟩

/-- A program of calls that are permitted at a ghost value and do not move it. -/
theorem Calls.follows (h : p.Calls P) (hP : ∀ op, P op → D.permits c op ∧ ∀ r, D.next c op r = c) :
    p.Follows D c fun c' _ => c' = c := by
  induction p with
  | ret => rfl
  | call op k ih =>
    refine ⟨(hP op h.1).1, fun r _ => ?_⟩
    rw [(hP op h.1).2 r]
    exact ih r (h.2 r)

/-- The calls of a guarded program. -/
theorem Calls.guarded {Q : T.Op → Prop} {f : S.Op → T.Op}
    {g : ∀ op, T.Res (f op) → Option (S.Res op)} (h : p.Calls P) (hPQ : ∀ op, P op → Q (f op)) :
    (p.guarded f g).Calls Q := by
  induction p with
  | ret => trivial
  | call op k ih =>
    simp only [Prog.guarded, Calls]
    refine ⟨hPQ op h.1, fun r => ?_⟩
    rcases g op r with _ | a
    · trivial
    · exact ih a (h.2 a)

theorem Follows.guarded_perform {D : Discipline T γ} {f : S.Op → T.Op}
    {g : ∀ op, T.Res (f op) → Option (S.Res op)} {Q : γ → Option (S.Res op) → Prop}
    (hp : D.permits c (f op)) (h : ∀ r, D.expects c (f op) r → Q (D.next c (f op) r) (g op r)) :
    ((Prog.perform op).guarded f g).Follows D c Q := by
  simp only [Prog.perform, guarded, Follows]
  refine ⟨hp, fun r hr => ?_⟩
  have hQ := h r hr
  rcases hg : g op r with _ | _
  · rwa [hg] at hQ
  · rwa [hg] at hQ

theorem Follows.guarded_bind {D : Discipline T γ} {f : S.Op → T.Op}
    {g : ∀ op, T.Res (f op) → Option (S.Res op)} {k : α → Prog S β} {Q : γ → Option β → Prop}
    (h : (p.guarded f g).Follows D c fun c' r => match r with
      | none => Q c' none
      | some a => ((k a).guarded f g).Follows D c' Q) :
    ((p >>= k).guarded f g).Follows D c Q := by
  induction p generalizing c with
  | ret => exact h
  | call op k' ih =>
    simp only [guarded, Follows] at h
    rw [call_bind]
    simp only [guarded, Follows]
    refine ⟨h.1, fun r hr => ?_⟩
    have h' := h.2 r hr
    rcases hg : g op r with _ | a
    · rw [hg] at h'
      exact h'
    · rw [hg] at h'
      exact ih a h'

/-! ### Programs that may fail -/

/-- The program follows the discipline, and whatever it succeeds with satisfies `Q`. -/
def Tries {ε : Type} (D : Discipline S γ) (p : ExceptT ε (Prog S) α) (g : γ)
    (Q : γ → α → Prop) : Prop :=
  p.run.Follows D g fun g' r => ∀ a, r = .ok a → Q g' a

variable {ε : Type}
variable {p : ExceptT ε (Prog S) α} {g : γ}
variable {Q : γ → α → Prop}

theorem Tries.mono {Q' : γ → α → Prop} (h : Tries D p g Q) (hQ : ∀ g a, Q g a → Q' g a) :
    Tries D p g Q' :=
  Follows.mono h fun g _ hr a ha => hQ g a (hr a ha)

theorem Tries.pure {a : α} (h : Q g a) : Tries D (Pure.pure a : ExceptT ε (Prog S) α) g Q := by
  intro _ hb
  cases hb
  exact h

theorem Tries.throw (e : ε) : Tries D (MonadExcept.throw e : ExceptT ε (Prog S) α) g Q := by
  intro _ hb
  cases hb

/-- A sequence: the second part runs on what the first succeeds with. -/
theorem Tries.bind {f : α → ExceptT ε (Prog S) β} {Q : γ → β → Prop}
    (h : Tries D p g fun g' a => Tries D (f a) g' Q) : Tries D (p >>= f) g Q := by
  refine Follows.bind (Follows.mono h fun g' r hr => ?_)
  cases r with
  | ok a => exact hr a rfl
  | error =>
    intro _ hb
    cases hb

/-- A call whose answer is itself an error or a value. -/
theorem Tries.perform {f : S.Res op → Except ε α} (hp : p.run = call op fun r => ret (f r))
    (h : D.permits g op) (hQ : ∀ r, D.expects g op r → ∀ a, f r = .ok a → Q (D.next g op r) a) :
    Tries D p g Q := by
  unfold Tries
  rw [hp]
  exact ⟨h, hQ⟩

/-- Every call a program that may fail can make satisfies `P`. -/
theorem Calls.except_bind {f : α → ExceptT ε (Prog S) β} (h : p.run.Calls P)
    (hf : ∀ a, (f a).run.Calls P) : (p >>= f).run.Calls P := by
  refine Calls.bind h fun r => ?_
  cases r with
  | ok a => exact hf a
  | error => trivial

end Prog

namespace Pool

variable {S : Signature} {M : Machine S} {C : Clients S} {τ γ : Type} [DecidableEq τ]
variable {D : Discipline S γ} {G : τ → γ} {c : Pool M τ}

/-- A discipline is **sound** for an invariant between the shared state and the ghost values
of all threads: starting a call gives the thread a ghost value from which the call follows
the discipline, and every permitted operation answers as expected and keeps the invariant. -/
structure Sound (R : Rules M C τ) (D : Discipline S γ) (Inv : M.State → (τ → γ) → Prop) :
    Prop where
  /-- A started call follows the discipline from a ghost value that fits the invariant. -/
  start : ∀ s G t call, Inv s G → D.done (G t) → R.mayStart s t call →
    ∃ g, Inv s (update G t g) ∧ (C.prog call).Follows D g fun g' _ => D.done g'
  /-- A permitted operation keeps the invariant. -/
  step : ∀ s G t op env, Inv s G → D.permits (G t) op → R.mayStep s t op env →
    D.expects (G t) op (M.exec op env s).1 ∧
    Inv (M.exec op env s).2 (update G t (D.next (G t) op (M.exec op env s).1))

/-- Ghost values that fit the invariant, and from which every thread's remaining program
follows the discipline. -/
structure Certified (D : Discipline S γ) (Inv : M.State → (τ → γ) → Prop) (c : Pool M τ)
    (G : τ → γ) : Prop where
  inv : Inv c.state G
  follows : ∀ t, (c.prog t).Follows D (G t) fun g _ => D.done g

variable {Inv : M.State → (τ → γ) → Prop} {R : Rules M C τ} {c' : Pool M τ}

omit [DecidableEq τ] in
theorem Certified.idle {s : M.State} (hinv : Inv s G) (hdone : ∀ t, D.done (G t)) :
    Certified D Inv (Pool.idle s) G :=
  ⟨hinv, hdone⟩

theorem Sound.certified_step (hS : Sound R D Inv) (hc : Certified D Inv c G) (h : Step R c c') :
    ∃ G', Certified D Inv c' G' := by
  obtain ⟨t, call, hp, hr, rfl⟩ | ⟨t, op, k, env, hp, hr, rfl⟩ := step_cases h
  · have hdone : D.done (G t) := by
      have := hc.follows t
      rwa [hp] at this
    obtain ⟨g, hinv, hg⟩ := hS.start _ G t call hc.inv hdone hr
    refine ⟨_, hinv, fun u => ?_⟩
    by_cases hu : u = t
    · subst hu
      simpa only [update_self] using hg
    · simpa only [update_of_ne hu] using hc.follows u
  · have hf := hc.follows t
    rw [hp] at hf
    obtain ⟨hexp, hinv⟩ := hS.step _ G t op env hc.inv hf.1 hr
    refine ⟨_, hinv, fun u => ?_⟩
    by_cases hu : u = t
    · subst hu
      simpa only [update_self] using hf.2 _ hexp
    · simpa only [update_of_ne hu] using hc.follows u

/-- **Every reachable pool is certified.** -/
theorem Sound.reachable (hS : Sound R D Inv) (hc : Certified D Inv c G) (h : Reaches R c c') :
    ∃ G', Certified D Inv c' G' := by
  induction h with
  | refl => exact ⟨G, hc⟩
  | tail _ hs ih =>
    obtain ⟨G', hG'⟩ := ih
    exact hS.certified_step hG' hs

omit [DecidableEq τ] in
theorem Certified.permits (hc : Certified D Inv c G) {t : τ} {op : S.Op}
    {k : S.Res op → Prog S Unit} (hp : c.prog t = .call op k) : D.permits (G t) op := by
  have hf := hc.follows t
  rw [hp] at hf
  exact hf.1

end Pool

end Flexiq
