import Mathlib

/-!
# Load shedding

A queue that opted in has a controller that sheds jobs when they have waited too long for too long.
It sees the waiting time of every candidate and remembers four numbers: when shedding may begin,
when the next job may be shed, how many were shed in a row, and whether it is shedding at all.

The numbers stand for the whole recent history (`Armed`): the time when shedding may begin is one
interval after a call since which every job waited for the target or longer. The sum saturates, so
this needs times that are an interval away from the largest one (`sheds_sustained`,
`shed_too_early`).
-/

namespace Flexiq

open List

/-- `CodelConfig`. -/
structure CodelConfig where
  targetMs : Int
  intervalMs : Int

/-- `CodelState`. A `firstAboveTime` of zero says that the last job waited for less than the
target. -/
structure CodelState where
  firstAboveTime : Int := 0
  dropNext : Int := 0
  count : Nat := 0
  dropping : Bool := false
  deriving DecidableEq

/-- A candidate: how long it has waited, and the clock. -/
structure CodelCall where
  sojournMs : Int
  now : Int

namespace CodelState

def maxTime : Int := 2 ^ 63 - 1

section

variable (law : Nat → Int → Int) (cfg : CodelConfig)

/-- `should_drop`. The control law gives the time of the next drop from the number of drops and
the clock. -/
def shouldDrop (s : CodelState) (c : CodelCall) : Bool × CodelState :=
  if c.sojournMs < cfg.targetMs then
    (false, { s with firstAboveTime := 0, dropping := false })
  else if s.firstAboveTime = 0 then
    (false, { s with firstAboveTime := min (c.now + cfg.intervalMs) maxTime })
  else if c.now < s.firstAboveTime then (false, s)
  else if s.dropping = false then
    -- soon after the last drop the rate is taken up again
    let count := if s.count > 2 ∧ c.now - s.dropNext < 8 * cfg.intervalMs then s.count - 2 else 1
    (true, { s with dropping := true, count := count, dropNext := law count c.now })
  else if s.dropNext ≤ c.now then
    let count := min (s.count + 1) (2 ^ 32 - 1)
    (true, { s with count := count, dropNext := law count c.now })
  else (false, s)

/-- The controller after a sequence of calls. -/
def run (calls : List CodelCall) (s : CodelState) : CodelState :=
  calls.foldl (fun s c => (s.shouldDrop law cfg c).2) s

end

variable {law : Nat → Int → Int} {cfg : CodelConfig} {s : CodelState} {c : CodelCall}
  {calls : List CodelCall}

/-- When shedding may begin is one interval after a call since which every job waited for the
target. -/
def Armed (cfg : CodelConfig) (calls : List CodelCall) (s : CodelState) : Prop :=
  s.firstAboveTime ≠ 0 → ∃ before d since, calls = before ++ d :: since ∧
    (∀ x ∈ d :: since, cfg.targetMs ≤ x.sojournMs) ∧
    s.firstAboveTime = min (d.now + cfg.intervalMs) maxTime

theorem firstAboveTime_shouldDrop (law : Nat → Int → Int) (cfg : CodelConfig) (s : CodelState)
    (c : CodelCall) : (s.shouldDrop law cfg c).2.firstAboveTime =
      if c.sojournMs < cfg.targetMs then 0
      else if s.firstAboveTime = 0 then min (c.now + cfg.intervalMs) maxTime
      else s.firstAboveTime := by
  unfold shouldDrop
  split
  · rfl
  · split
    · rfl
    · split
      · rfl
      · split
        · rfl
        · split <;> rfl

theorem Armed.shouldDrop (h : Armed cfg calls s) (c : CodelCall) :
    Armed cfg (calls ++ [c]) (s.shouldDrop law cfg c).2 := by
  intro hne
  rw [firstAboveTime_shouldDrop] at hne ⊢
  by_cases hlow : c.sojournMs < cfg.targetMs
  · simp [hlow] at hne
  · simp only [if_neg hlow] at hne ⊢
    have hc : cfg.targetMs ≤ c.sojournMs := Int.not_lt.1 hlow
    by_cases hzero : s.firstAboveTime = 0
    · exact ⟨calls, c, [], rfl, by simpa using hc, by simp [hzero]⟩
    · obtain ⟨before, d, since, rfl, hsince, htime⟩ := h hzero
      refine ⟨before, d, since ++ [c], by simp, fun x hx => ?_, (if_neg hzero).trans htime⟩
      obtain hx | hx := mem_append.1 (cons_append ▸ hx)
      · exact hsince x hx
      · exact mem_singleton.1 hx ▸ hc

theorem armed_run (law : Nat → Int → Int) (calls : List CodelCall) :
    Armed cfg calls (run law cfg calls {}) := by
  induction calls using List.reverseRecOn with
  | nil => exact fun h => absurd rfl h
  | append_singleton calls c ih =>
    rw [run, foldl_append]
    exact ih.shouldDrop c

/-- A job is shed when shedding may begin; the controller is then shedding, and the control law has
set the time of the next drop. -/
theorem of_drop (h : (s.shouldDrop law cfg c).1 = true) :
    cfg.targetMs ≤ c.sojournMs ∧ s.firstAboveTime ≠ 0 ∧ s.firstAboveTime ≤ c.now ∧
      (s.shouldDrop law cfg c).2.dropping = true ∧
      (s.shouldDrop law cfg c).2.dropNext = law (s.shouldDrop law cfg c).2.count c.now := by
  unfold shouldDrop at h ⊢
  grind

/-- Before the time of the next drop, a job that waited for the target changes nothing. -/
theorem shouldDrop_wait (law : Nat → Int → Int) (hdrop : s.dropping = true)
    (hzero : s.firstAboveTime ≠ 0) (hnow : c.now < s.dropNext) (hc : cfg.targetMs ≤ c.sojournMs) :
    s.shouldDrop law cfg c = (false, s) := by
  unfold shouldDrop
  rw [if_neg (Int.not_lt.2 hc), if_neg hzero, hdrop, if_neg (Int.not_le.2 hnow)]
  split <;> rfl

/-- **Jobs are shed under sustained overload only**, and no faster than the control law says. -/
theorem sheds_sustained (hmax : ∀ x ∈ calls, x.now + cfg.intervalMs ≤ maxTime)
    (hdrop : ((run law cfg calls {}).shouldDrop law cfg c).1 = true) :
    (∃ before d since, calls = before ++ d :: since ∧ d.now ≤ c.now - cfg.intervalMs ∧
      ∀ x ∈ d :: since ++ [c], cfg.targetMs ≤ x.sojournMs) ∧
    (run law cfg (calls ++ [c]) {}).dropNext =
      law (run law cfg (calls ++ [c]) {}).count c.now ∧
    ∀ between e, ((between ++ [e]).map CodelCall.now).Pairwise (· ≤ ·) →
      (∀ x ∈ between, cfg.targetMs ≤ x.sojournMs) →
      e.now < (run law cfg (calls ++ [c]) {}).dropNext →
      ((run law cfg (calls ++ c :: between) {}).shouldDrop law cfg e).1 = false := by
  obtain ⟨hc, hzero, hle, hdropping, hnext⟩ := of_drop hdrop
  refine ⟨?_, ?_, ?_⟩
  · obtain ⟨before, d, since, hcalls, hsince, htime⟩ := armed_run law calls hzero
    have hd := hmax d (by simp [hcalls])
    rw [htime, min_eq_left hd] at hle
    refine ⟨before, d, since, hcalls, by omega, fun x hx => ?_⟩
    obtain hx | hx := mem_append.1 hx
    · exact hsince x hx
    · exact mem_singleton.1 hx ▸ hc
  · simp only [run, foldl_append, foldl_cons, foldl_nil]
    exact hnext
  · intro between e hclock hbetween hnow
    have hafter : ∀ rest, run law cfg (calls ++ c :: rest) {} =
        run law cfg rest ((run law cfg calls {}).shouldDrop law cfg c).2 := fun rest => by
      simp only [run, foldl_append, foldl_cons]
    rw [hafter] at hnow ⊢
    have hkept : ((run law cfg calls {}).shouldDrop law cfg c).2.firstAboveTime ≠ 0 := by
      rw [firstAboveTime_shouldDrop, if_neg (Int.not_lt.2 hc), if_neg hzero]
      exact hzero
    generalize ((run law cfg calls {}).shouldDrop law cfg c).2 = s at *
    -- the calls in between leave the controller as it is
    have hsame : run law cfg between s = s := by
      induction between with
      | nil => rfl
      | cons b between ih =>
        obtain ⟨hfirst, hclock⟩ := pairwise_cons.1 hclock
        have hb : b.now ≤ e.now := hfirst e.now (by simp)
        have hwait := shouldDrop_wait law hdropping hkept (Int.lt_of_le_of_lt hb hnow)
          (hbetween b mem_cons_self)
        rw [run, foldl_cons, hwait]
        exact ih hclock fun x hx => hbetween x (mem_cons_of_mem _ hx)
    rw [hsame]
    by_cases hlow : e.sojournMs < cfg.targetMs
    · simp [shouldDrop, hlow]
    · rw [shouldDrop_wait law hdropping hkept hnow (Int.not_lt.1 hlow)]

/-- The next drop is an interval later. -/
def slowLaw (_ : Nat) (now : Int) : Int := now + 1000

/-- A job is shed after two that waited too long, the first of them a second ago. -/
theorem sheds_sustained_once : ∃ before d since,
    [⟨500, 1⟩, ⟨500, 900⟩] = before ++ (d : CodelCall) :: since ∧ d.now ≤ (1001 : Int) - 1000 ∧
      ∀ x ∈ d :: since ++ [⟨500, 1001⟩], 100 ≤ x.sojournMs :=
  (@sheds_sustained slowLaw ⟨100, 1000⟩ ⟨500, 1001⟩ [⟨500, 1⟩, ⟨500, 900⟩] (by decide)
    (by decide)).1

/-- **Too early at the end of time**: the interval is ten, and the first job that waited too long
was seen five milliseconds before. -/
theorem shed_too_early :
    ((run slowLaw ⟨100, 10⟩ [⟨500, maxTime - 5⟩] {}).shouldDrop slowLaw ⟨100, 10⟩
      ⟨500, maxTime⟩).1 = true ∧
    ¬ ∃ d ∈ [(⟨500, maxTime - 5⟩ : CodelCall)], d.now ≤ maxTime - 10 := by
  decide

end CodelState

end Flexiq
