import Flexiq.Prog

/-!
# Calls in progress

A pool knows what a thread still has to run, not which call it runs. Some laws hold only when
certain calls do not get in each other's way, so they need to say which calls are in progress,
and what the state was when each was made. A **session** is a pool that remembers both: an idle
thread runs nothing, a busy one has its call, the state it started in, and the rest of its
program. The rules of a session may look at all calls in progress when they allow a start.

Runs, reachability and disciplines are those of a pool; `Session.Sound.reachable` is again the
one induction over runs, with the calls in progress as part of the invariant.
-/

namespace Flexiq

open Function Option Bool

/-- The program has nothing left to do. -/
def Prog.returned {S : Signature} {α : Type} : Prog S α → Bool
  | .ret _ => true
  | .call _ _ => false

/-- A call in progress: the call, and the state in which it was made. -/
structure Begun {S : Signature} (M : Machine S) (C : Clients S) where
  call : C.Call
  since : M.State

/-- A busy thread. -/
structure Running {S : Signature} (M : Machine S) (C : Clients S) extends Begun M C where
  /-- What is left to run. -/
  rest : Prog S Unit

/-- The calls in progress, thread by thread. -/
abbrev Active {S : Signature} (M : Machine S) (C : Clients S) (τ : Type) := τ → Option (Begun M C)

/-- A shared state and the busy threads. -/
structure Session {S : Signature} (M : Machine S) (C : Clients S) (τ : Type) where
  state : M.State
  thread : τ → Option (Running M C)

/-- What a session is allowed to do. -/
structure SessionRules {S : Signature} (M : Machine S) (C : Clients S) (τ : Type) where
  /-- The thread may make the call in this state, with these calls in progress. -/
  mayStart : M.State → Active M C τ → τ → C.Call → Prop
  /-- The thread's next operation may execute in this state under this input. -/
  mayStep : M.State → τ → S.Op → M.Env → Prop

namespace Session

variable {S : Signature} {M : Machine S} {C : Clients S} {τ : Type} [DecidableEq τ]
variable {R : SessionRules M C τ} {c c' : Session M C τ}

/-- No call in progress. -/
def idle (s : M.State) : Session M C τ := ⟨s, fun _ => none⟩

/-- The calls in progress. -/
def active (c : Session M C τ) : Active M C τ := fun t => (c.thread t).map Running.toBegun

/-- A thread that has nothing left to do is idle. -/
def settle (r : Running M C) : Option (Running M C) := if r.rest.returned then none else some r

def move (c : Session M C τ) : Move M C τ → Option (Session M C τ)
  | .start t call =>
    match c.thread t with
    | some _ => none
    | none =>
      some ⟨c.state, update c.thread t (settle ⟨⟨call, c.state⟩, C.prog call⟩)⟩
  | .step t env =>
    match c.thread t with
    | none => none
    | some r =>
      match r.rest with
      | .ret _ => none
      | .call op k =>
        let ans := M.exec op env c.state
        some ⟨ans.2, update c.thread t (settle { r with rest := k ans.1 })⟩

/-- The rules allow the next call of a thread; a thread without one makes none. -/
def CallAllowed (R : SessionRules M C τ) (s : M.State) (t : τ) (env : M.Env) :
    Option (Running M C) → Prop
  | some ⟨_, .call op _⟩ => R.mayStep s t op env
  | _ => True

def Allowed (R : SessionRules M C τ) (c : Session M C τ) : Move M C τ → Prop
  | .start t call => R.mayStart c.state c.active t call
  | .step t env => CallAllowed R c.state t env (c.thread t)

instance (R : SessionRules M C τ) [∀ s t op env, Decidable (R.mayStep s t op env)]
    (s : M.State) (t : τ) (env : M.Env) : DecidablePred (CallAllowed R s t env)
  | some ⟨_, .call op _⟩ => inferInstanceAs (Decidable (R.mayStep s t op env))
  | some ⟨_, .ret _⟩ => isTrue trivial
  | none => isTrue trivial

instance (R : SessionRules M C τ) [∀ s K t call, Decidable (R.mayStart s K t call)]
    [∀ s t op env, Decidable (R.mayStep s t op env)] (c : Session M C τ) :
    DecidablePred (Allowed R c)
  | .start t call => inferInstanceAs (Decidable (R.mayStart c.state c.active t call))
  | .step t env => inferInstanceAs (Decidable (CallAllowed R c.state t env (c.thread t)))

/-- An allowed move from one session to the next. -/
def Step (R : SessionRules M C τ) (c c' : Session M C τ) : Prop :=
  ∃ m, Allowed R c m ∧ c.move m = some c'

/-- The sessions an allowed run can reach. -/
def Reaches (R : SessionRules M C τ) : Session M C τ → Session M C τ → Prop :=
  Relation.ReflTransGen (Step R)

/-- What a step is: a start on an idle thread, or one atomic call of a busy one. -/
theorem step_cases (h : Step R c c') :
    (∃ t call, c.thread t = none ∧ R.mayStart c.state c.active t call ∧
      c' = ⟨c.state, update c.thread t (settle ⟨⟨call, c.state⟩, C.prog call⟩)⟩) ∨
    (∃ t b op k env, c.thread t = some ⟨b, .call op k⟩ ∧ R.mayStep c.state t op env ∧
      c' = ⟨(M.exec op env c.state).2,
        update c.thread t (settle ⟨b, k (M.exec op env c.state).1⟩)⟩) := by
  obtain ⟨m, hm, hc⟩ := h
  cases m with
  | start t call =>
    simp only [move] at hc
    rcases ht : c.thread t with _ | _
    · rw [ht] at hc
      exact .inl ⟨t, call, ht, hm, (some.inj hc).symm⟩
    · rw [ht] at hc
      cases hc
  | step t env =>
    simp only [move] at hc
    simp only [Allowed] at hm
    rcases ht : c.thread t with _ | ⟨b, _ | ⟨op, k⟩⟩
    · rw [ht] at hc
      cases hc
    · rw [ht] at hc
      cases hc
    · rw [ht] at hc hm
      exact .inr ⟨t, b, op, k, env, ht, hm, (some.inj hc).symm⟩

/-- The calls in progress once a thread has got on. -/
theorem active_update (s : M.State) (c : Session M C τ) (t : τ) (r : Running M C) :
    (⟨s, update c.thread t (settle r)⟩ : Session M C τ).active =
      update c.active t (if r.rest.returned then none else some r.toBegun) := by
  funext u
  unfold active settle
  by_cases hu : u = t
  · subst hu
    simp only [update_self]
    split <;> rfl
  · simp only [update_of_ne hu]

/-- The session after a list of moves that the rules allow, move by move. -/
def runAllowed (R : SessionRules M C τ) [∀ c, DecidablePred (Allowed R c)]
    (c : Session M C τ) : List (Move M C τ) → Option (Session M C τ)
  | [] => some c
  | m :: ms => if Allowed R c m then (c.move m).bind fun c' => runAllowed R c' ms else none

/-- A concrete run of allowed moves reaches its result. -/
theorem reaches_of_runAllowed [∀ c, DecidablePred (Allowed R c)] {ms : List (Move M C τ)}
    (h : runAllowed R c ms = some c') : Reaches R c c' := by
  induction ms generalizing c with
  | nil =>
    cases h
    exact Relation.ReflTransGen.refl
  | cons m ms ih =>
    simp only [runAllowed] at h
    split at h
    · next hm =>
      obtain ⟨c₁, hc₁, h⟩ := bind_eq_some_iff.1 h
      exact Relation.ReflTransGen.head ⟨m, hm, hc₁⟩ (ih h)
    · cases h

/-- Two concrete runs of allowed moves, one after the other, whose results a test accepts. -/
theorem exists_reaches (R : SessionRules M C τ) [∀ c, DecidablePred (Allowed R c)]
    (c : Session M C τ) (ms ms' : List (Move M C τ)) (P : Session M C τ → Session M C τ → Prop)
    [∀ c₁, DecidablePred (P c₁)]
    (h : (runAllowed R c ms).any (fun c₁ => (runAllowed R c₁ ms').any fun c₂ => P c₁ c₂) = true) :
    ∃ c₁ c₂, Reaches R c c₁ ∧ Reaches R c₁ c₂ ∧ P c₁ c₂ := by
  obtain ⟨c₁, hc₁, h⟩ := (any_eq_true _ _).1 h
  obtain ⟨c₂, hc₂, hP⟩ := (any_eq_true _ _).1 h
  exact ⟨c₁, c₂, reaches_of_runAllowed hc₁, reaches_of_runAllowed hc₂, of_decide_eq_true hP⟩

/-! ## Disciplines -/

variable {γ : Type}
variable {D : Discipline S γ} {G : τ → γ} {R : SessionRules M C τ} {c c' : Session M C τ}

/-- A discipline is **sound** for an invariant between the shared state, the calls in progress
and the ghost values of all threads. -/
structure Sound (R : SessionRules M C τ) (D : Discipline S γ)
    (Inv : M.State → Active M C τ → (τ → γ) → Prop) : Prop where
  /-- A started call follows the discipline from a ghost value that fits the invariant. -/
  start : ∀ s K G t call, Inv s K G → K t = none → D.done (G t) → R.mayStart s K t call →
    ∃ g, Inv s (update K t (some ⟨call, s⟩)) (update G t g) ∧
      (C.prog call).Follows D g fun g' _ => D.done g'
  /-- A permitted operation of a call in progress keeps the invariant. -/
  step : ∀ s K G t op env, Inv s K G → (K t).isSome → D.permits (G t) op →
    R.mayStep s t op env →
    D.expects (G t) op (M.exec op env s).1 ∧
    Inv (M.exec op env s).2 K (update G t (D.next (G t) op (M.exec op env s).1))
  /-- A call that is over can be forgotten. -/
  finish : ∀ s K G t, Inv s K G → D.done (G t) → Inv s (update K t none) G

/-- Ghost values that fit the invariant, and from which every thread goes on as the discipline
wants. -/
structure Certified (D : Discipline S γ) (Inv : M.State → Active M C τ → (τ → γ) → Prop)
    (c : Session M C τ) (G : τ → γ) : Prop where
  inv : Inv c.state c.active G
  busy : ∀ t r, c.thread t = some r → r.rest.Follows D (G t) fun g _ => D.done g
  idle : ∀ t, c.thread t = none → D.done (G t)

variable {Inv : M.State → Active M C τ → (τ → γ) → Prop} {s : M.State}

omit [DecidableEq τ] in
theorem Certified.of_idle (hinv : Inv s (fun _ => none) G) (hdone : ∀ t, D.done (G t)) :
    Certified D Inv (Session.idle s : Session M C τ) G :=
  ⟨hinv, nofun, fun t _ => hdone t⟩

/-- A thread that gets on, with the ghost value and the invariant of its new state. -/
theorem Sound.certified_update (hS : Sound R D Inv) (hc : Certified D Inv c G) {t : τ}
    {r : Running M C} {g : γ} (hinv : Inv s (update c.active t (some r.toBegun)) (update G t g))
    (hf : r.rest.Follows D g fun g' _ => D.done g') :
    Certified D Inv (⟨s, update c.thread t (settle r)⟩ : Session M C τ) (update G t g) := by
  have hdone : r.rest.returned = true → D.done (update G t g t) := by
    intro hret
    rw [update_self]
    rcases hrest : r.rest with _ | ⟨_, _⟩
    · rwa [hrest] at hf
    · rw [hrest] at hret
      cases hret
  refine ⟨?_, fun u r' hr' => ?_, fun u hu => ?_⟩
  · show Inv s (Session.active _) _
    rw [active_update]
    split
    · next hret =>
      have := hS.finish _ _ _ t hinv (hdone hret)
      rwa [update_idem] at this
    · exact hinv
  · by_cases hut : u = t
    · subst hut
      simp only [update_self, settle] at hr' ⊢
      split at hr'
      · cases hr'
      · cases hr'
        exact hf
    · simp only [update_of_ne hut] at hr' ⊢
      exact hc.busy u r' hr'
  · by_cases hut : u = t
    · subst hut
      simp only [update_self, settle] at hu
      split at hu
      · next hret => exact hdone hret
      · cases hu
    · simp only [update_of_ne hut] at hu ⊢
      exact hc.idle u hu

/-- One allowed step of a certified session leads to a certified session. -/
theorem Sound.certified_step (hS : Sound R D Inv) (hc : Certified D Inv c G) (h : Step R c c') :
    ∃ G', Certified D Inv c' G' := by
  obtain ⟨t, call, ht, hr, rfl⟩ | ⟨t, b, op, k, env, ht, hr, rfl⟩ := step_cases h
  · have hK : c.active t = none := by rw [active, ht]; rfl
    obtain ⟨g, hinv, hg⟩ := hS.start _ _ G t call hc.inv hK (hc.idle t ht) hr
    exact ⟨_, hS.certified_update hc hinv hg⟩
  · have hK : c.active t = some b := by rw [active, ht]; rfl
    have hf := hc.busy t _ ht
    obtain ⟨hexp, hinv⟩ := hS.step _ _ G t op env hc.inv (by rw [hK]; rfl) hf.1 hr
    refine ⟨_, hS.certified_update hc ?_ (hf.2 _ hexp)⟩
    rwa [show (some b : Option (Begun M C)) = c.active t from hK.symm, update_eq_self]

/-- **Every reachable session is certified.** -/
theorem Sound.reachable (hS : Sound R D Inv) (hc : Certified D Inv c G) (h : Reaches R c c') :
    ∃ G', Certified D Inv c' G' := by
  induction h with
  | refl => exact ⟨G, hc⟩
  | tail _ hs ih =>
    obtain ⟨G', hG'⟩ := ih
    exact hS.certified_step hG' hs

/-- **What every permitted operation keeps, a run keeps.** -/
theorem Sound.stable (hS : Sound R D Inv)
    {P : M.State → Prop}
    (hP : ∀ s K G t op env, Inv s K G → (K t).isSome → D.permits (G t) op → R.mayStep s t op env →
      P s → P (M.exec op env s).2)
    (hc : Certified D Inv c G) (h : Reaches R c c') (hs : P c.state) : P c'.state := by
  induction h with
  | refl => exact hs
  | tail hreach hstep ih =>
    obtain ⟨G', hG'⟩ := hS.reachable hc hreach
    obtain ⟨t, call, -, -, rfl⟩ | ⟨t, b, op, k, env, ht, hr, rfl⟩ := step_cases hstep
    · exact ih
    · refine hP _ _ G' t op env hG'.inv ?_ (hG'.busy t _ ht).1 hr ih
      rw [active, ht]
      rfl

end Session

/-! ## Calls that write one thing

A **guard** watches one thing in the state that can come to an end. It says which calls can write
the thing and which can end it. When a call that can end it never overlaps another that can write
it, a thread that has found the thing still open can rely on that until it writes. -/

/-- What can happen to the thing: it is over, a call can write it, a call can end it. -/
structure Guard {S : Signature} (M : Machine S) (C : Clients S) where
  isOver : M.State → Bool
  writes : Begun M C → Bool
  ends : Begun M C → Bool

namespace Guard

variable {S : Signature} {M : Machine S} {C : Clients S} {τ γ : Type}

/-- The two calls get in each other's way. -/
def conflicts (Γ : Guard M C) (a b : Begun M C) : Bool :=
  Γ.writes a && Γ.ends b || Γ.ends a && Γ.writes b

theorem conflicts_comm (Γ : Guard M C) (a b : Begun M C) : Γ.conflicts a b = Γ.conflicts b a := by
  unfold conflicts
  rw [Bool.or_comm, Bool.and_comm (Γ.ends a), Bool.and_comm (Γ.writes a)]

/-- No call in progress conflicts with the given one. -/
abbrev Free (Γ : Guard M C) (K : Active M C τ) (b : Begun M C) : Prop :=
  ∀ u, (K u).all (fun c => !Γ.conflicts b c) = true

/-- The ghost value of a busy thread says whether it may write the thing now. If it may, then in
a call that can, and the thing is open; and calls in progress do not conflict. -/
structure Holds (Γ : Guard M C) (may : γ → Bool) (s : M.State) (K : Active M C τ) (G : τ → γ) :
    Prop where
  writes : ∀ t b, K t = some b → may (G t) = true → Γ.writes b = true
  isOpen : ∀ t b, K t = some b → may (G t) = true → Γ.isOver s = false
  apart : ∀ t u b c, t ≠ u → K t = some b → K u = some c → Γ.conflicts b c = false

variable {Γ : Guard M C} {may : γ → Bool} {s : M.State} {K : Active M C τ} {G : τ → γ}

theorem Holds.idle (Γ : Guard M C) (may : γ → Bool) (s : M.State) (G : τ → γ) :
    Γ.Holds may s (fun _ => none) G :=
  ⟨nofun, nofun, nofun⟩

variable [DecidableEq τ]
variable {t u : τ} {b c : Begun M C} {g : γ}

/-- The thread goes on. The others may go on writing: only a call that conflicts with theirs
could have ended the thing. -/
theorem Holds.step (h : Γ.Holds may s K G) (ht : K t = some b) {s' : M.State}
    (hwrites : may g = true → Γ.writes b = true) (hopen : may g = true → Γ.isOver s' = false)
    (hover : Γ.isOver s' = true → Γ.isOver s = true ∨ Γ.ends b = true) :
    Γ.Holds may s' K (update G t g) where
  writes u c hu hmay := by
    by_cases hut : u = t
    · subst hut
      rw [update_self] at hmay
      obtain rfl : b = c := some.inj (ht.symm.trans hu)
      exact hwrites hmay
    · rw [update_of_ne hut] at hmay
      exact h.writes u c hu hmay
  isOpen u c hu hmay := by
    by_cases hut : u = t
    · subst hut
      rw [update_self] at hmay
      exact hopen hmay
    · rw [update_of_ne hut] at hmay
      refine eq_false_iff.2 fun hnow => ?_
      obtain hbefore | hends := hover hnow
      · rw [h.isOpen u c hu hmay] at hbefore
        cases hbefore
      · have happart := h.apart u t c b hut hu ht
        rw [conflicts, h.writes u c hu hmay, hends] at happart
        cases happart
  apart := h.apart

theorem Holds.start (h : Γ.Holds may s K G) (hfree : Γ.Free K b)
    (hwrites : may g = true → Γ.writes b = true) (hopen : may g = true → Γ.isOver s = false) :
    Γ.Holds may s (update K t (some b)) (update G t g) where
  writes u c hu hmay := by
    obtain ⟨rfl, rfl⟩ | ⟨hut, hu⟩ := found_update hu
    · rw [update_self] at hmay
      exact hwrites hmay
    · rw [update_of_ne hut] at hmay
      exact h.writes u c hu hmay
  isOpen u c hu hmay := by
    obtain ⟨rfl, rfl⟩ | ⟨hut, hu⟩ := found_update hu
    · rw [update_self] at hmay
      exact hopen hmay
    · rw [update_of_ne hut] at hmay
      exact h.isOpen u c hu hmay
  apart u v c d huv hu hv := by
    have hfree : ∀ w e, K w = some e → Γ.conflicts b e = false := by
      intro w _ hw
      have := hfree w
      rw [hw] at this
      simpa using this
    obtain ⟨rfl, rfl⟩ | ⟨-, hu'⟩ := found_update hu
    · obtain ⟨rfl, -⟩ | ⟨-, hv'⟩ := found_update hv
      · exact absurd rfl huv
      · exact hfree v d hv'
    · obtain ⟨rfl, rfl⟩ | ⟨-, hv'⟩ := found_update hv
      · rw [conflicts_comm]
        exact hfree u c hu'
      · exact h.apart u v c d huv hu' hv'

theorem Holds.finish (h : Γ.Holds may s K G) (t : τ) : Γ.Holds may s (update K t none) G where
  writes u c hu := h.writes u c (found_of_none hu)
  isOpen u c hu := h.isOpen u c (found_of_none hu)
  apart u v c d huv hu hv := h.apart u v c d huv (found_of_none hu) (found_of_none hv)

end Guard

end Flexiq
