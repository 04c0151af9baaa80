import Mathlib

/-!
# Circuit breakers

A task's breaker is one row: closed while the task runs well, open after too many failures, and
half-open when the cooldown is over and a few probes may run. The scheduler asks it before it
dispatches a job, and reports how every run ended, also the runs that started before it tripped.

Three things are expected of it, and each holds under a condition. While it is half-open it lets
`half_open_max_probes` runs through: the call that half-opens it is let through without being
counted, so it is one more unless the last probe is never asked for (`half_open_probes_iff`). Once
open it stays open for the cooldown: a late success closes it at once (`open_holds`). It trips on
the failure that is the `threshold`-th within the window: it counts the failures that follow each
other within the window, however long ago the first was (`trips_on_threshold_iff`).
-/

namespace Flexiq

open List

/-! ## The row -/

inductive CircuitState where
  | closed
  | opened
  | halfOpen
  deriving DecidableEq

/-- `CircuitBreakerConfig`. The threshold is an `i32`. -/
structure CircuitBreakerConfig where
  threshold : Int
  windowMs : Int
  cooldownMs : Int
  halfOpenMaxProbes : Int
  halfOpenSuccessRate : Float
  threshold_le : threshold ≤ 2 ^ 31 - 1 := by decide

/-- A row of `circuit_breakers`. Times are milliseconds since the epoch, so that differences of
them are far from the ends of an `i64`. -/
structure CircuitBreakerState where
  state : CircuitState
  failureCount : Int
  lastFailureAt : Option Nat
  openedAt : Option Nat
  halfOpenAt : Option Nat
  threshold : Int
  windowMs : Int
  cooldownMs : Int
  halfOpenMaxProbes : Int
  halfOpenSuccessRate : Float
  halfOpenProbeCount : Int
  halfOpenSuccessCount : Int
  halfOpenFailureCount : Int

namespace CircuitBreakerState

/-- The row that `register` writes. -/
def registered (config : CircuitBreakerConfig) : CircuitBreakerState where
  state := .closed
  failureCount := 0
  lastFailureAt := none
  openedAt := none
  halfOpenAt := none
  threshold := config.threshold
  windowMs := config.windowMs
  cooldownMs := config.cooldownMs
  halfOpenMaxProbes := config.halfOpenMaxProbes
  halfOpenSuccessRate := config.halfOpenSuccessRate
  halfOpenProbeCount := 0
  halfOpenSuccessCount := 0
  halfOpenFailureCount := 0

/-- `saturating_add` of one to an `i32`. -/
def increment (n : Int) : Int := min (n + 1) (2 ^ 31 - 1)

def clearProbes (row : CircuitBreakerState) : CircuitBreakerState :=
  { row with halfOpenProbeCount := 0, halfOpenSuccessCount := 0, halfOpenFailureCount := 0 }

/-- Clean and closed. -/
def reset (row : CircuitBreakerState) : CircuitBreakerState :=
  { row.clearProbes with state := .closed, failureCount := 0, openedAt := none, halfOpenAt := none }

/-- Open again after probing. -/
def reopen (now : Nat) (row : CircuitBreakerState) : CircuitBreakerState :=
  { row.clearProbes with state := .opened, openedAt := some now, halfOpenAt := none }

/-- Whether a run is let through. -/
def allow (now : Nat) (row : CircuitBreakerState) : Bool × CircuitBreakerState :=
  match row.state with
  | .closed => (true, row)
  | .opened =>
    if row.cooldownMs ≤ now - row.openedAt.getD 0 then
      (true, { row.clearProbes with state := .halfOpen, halfOpenAt := some now })
    else (false, row)
  | .halfOpen =>
    if row.halfOpenProbeCount < row.halfOpenMaxProbes then
      (true, { row with halfOpenProbeCount := row.halfOpenProbeCount + 1 })
    -- the probes have not come back in time
    else if row.cooldownMs ≤ now - row.halfOpenAt.getD 0 then (false, row.reopen now)
    else (false, row)

def recordSuccess (now : Nat) (row : CircuitBreakerState) : CircuitBreakerState :=
  match row.state with
  | .closed => if row.failureCount = 0 then row else row.reset
  | .halfOpen =>
    let successes := row.halfOpenSuccessCount + 1
    let total := successes + row.halfOpenFailureCount
    if row.halfOpenMaxProbes ≤ total then
      if row.halfOpenSuccessRate ≤ Float.ofInt successes / Float.ofInt total then row.reset
      else row.reopen now
    else { row with halfOpenSuccessCount := successes }
  | .opened => row.reset

def countFailure (now : Nat) (row : CircuitBreakerState) : Int :=
  match row.lastFailureAt with
  | some last => if row.windowMs < now - last then 1 else increment row.failureCount
  | none => 1

def recordFailure (now : Nat) (row : CircuitBreakerState) : CircuitBreakerState :=
  match row.state with
  | .halfOpen =>
    let failures := row.halfOpenFailureCount + 1
    let total := row.halfOpenSuccessCount + failures
    let remaining := row.halfOpenMaxProbes - total
    let bestPossibleRate :=
      if 0 < row.halfOpenMaxProbes then
        Float.ofInt (row.halfOpenSuccessCount + remaining) / Float.ofInt row.halfOpenMaxProbes
      else 0
    let counted := { row with
      failureCount := increment row.failureCount, lastFailureAt := some now }
    if row.halfOpenMaxProbes ≤ total ∨ bestPossibleRate < row.halfOpenSuccessRate then
      counted.reopen now
    else { counted with halfOpenFailureCount := failures }
  | .closed =>
    let count := row.countFailure now
    let counted := { row with failureCount := count, lastFailureAt := some now }
    if row.threshold ≤ count then
      { counted with state := .opened, openedAt := some now, halfOpenAt := none }
    else counted
  | .opened =>
    { row with failureCount := increment row.failureCount, lastFailureAt := some now }

end CircuitBreakerState

open CircuitBreakerState (allow clearProbes increment registered reopen reset)

/-! ## Sequences of calls -/

inductive BreakerAction where
  | allow
  | recordSuccess
  | recordFailure
  deriving DecidableEq

/-- A call on the breaker, with the time the clock shows. -/
structure BreakerCall where
  now : Nat
  action : BreakerAction

/-- The answer of a call, which only `allow` has, and the row after it. -/
def BreakerCall.exec (c : BreakerCall) (row : CircuitBreakerState) : Bool × CircuitBreakerState :=
  match c.action with
  | .allow => row.allow c.now
  | .recordSuccess => (false, row.recordSuccess c.now)
  | .recordFailure => (false, row.recordFailure c.now)

def runCalls (calls : List BreakerCall) (row : CircuitBreakerState) : CircuitBreakerState :=
  calls.foldl (fun row c => (c.exec row).2) row

/-- How many runs a sequence of calls lets through. -/
def admitted : List BreakerCall → CircuitBreakerState → Nat
  | [], _ => 0
  | c :: calls, row => (if (c.exec row).1 then 1 else 0) + admitted calls (c.exec row).2

/-- Every call finds the breaker such that `P`. -/
def Along (P : CircuitBreakerState → BreakerCall → Prop) :
    List BreakerCall → CircuitBreakerState → Prop
  | [], _ => True
  | c :: calls, row => P row c ∧ Along P calls (c.exec row).2

variable {row : CircuitBreakerState} {c : BreakerCall} {calls : List BreakerCall}
variable {now k : Nat}

/-! ## Probes -/

/-- Whoever half-opens the breaker is let through, and not counted. -/
theorem exec_halfOpens (hrow : row.state ≠ .halfOpen) (h : (c.exec row).2.state = .halfOpen) :
    (c.exec row).1 = true ∧ (c.exec row).2.halfOpenProbeCount = 0 ∧
      (c.exec row).2.halfOpenMaxProbes = row.halfOpenMaxProbes := by
  unfold BreakerCall.exec at h ⊢
  cases hc : c.action <;> cases hs : row.state <;>
    grind [allow, CircuitBreakerState.recordSuccess,
      CircuitBreakerState.recordFailure, reset, clearProbes]

/-- A probe that is asked for while there are some left. -/
theorem exec_probe (hrow : row.state = .halfOpen)
    (hleft : row.halfOpenProbeCount < row.halfOpenMaxProbes) (hc : c.action = .allow) :
    c.exec row = (true, { row with halfOpenProbeCount := row.halfOpenProbeCount + 1 }) := by
  simp [BreakerCall.exec, hc, allow, hrow, hleft]

/-- Results let no run through, and leave the probes alone unless they end the episode. -/
theorem exec_result (hrow : row.state = .halfOpen) (hc : c.action ≠ .allow) :
    (c.exec row).1 = false ∧ ((c.exec row).2.state = .halfOpen →
      (c.exec row).2.halfOpenProbeCount = row.halfOpenProbeCount ∧
      (c.exec row).2.halfOpenMaxProbes = row.halfOpenMaxProbes) := by
  unfold BreakerCall.exec
  cases hc' : c.action <;>
    grind [CircuitBreakerState.recordSuccess, CircuitBreakerState.recordFailure,
      reset, reopen, clearProbes]

def FindsHalfOpen (row : CircuitBreakerState) (_ : BreakerCall) : Prop := row.state = .halfOpen

def SparesLastProbe (row : CircuitBreakerState) (c : BreakerCall) : Prop :=
  c.action = .allow → row.state = .halfOpen → row.halfOpenProbeCount + 1 ≠ row.halfOpenMaxProbes

/-- The rest of an episode in which `n` runs were let through: one more than were counted. -/
theorem probes_iff {n p : Int} (hn : n ≤ p)
    (hrow : row.state = .halfOpen → row.halfOpenProbeCount + 1 = n ∧ row.halfOpenMaxProbes = p)
    (h : Along FindsHalfOpen calls row) :
    n + admitted calls row ≤ p ↔ Along SparesLastProbe calls row := by
  induction calls generalizing row n with
  | nil => simpa [admitted, Along] using hn
  | cons c calls ih =>
    obtain ⟨hopen, hrest⟩ := h
    obtain ⟨hcount, hmax⟩ := hrow hopen
    simp only [admitted, Along]
    by_cases hc : c.action = .allow
    · have hexec := exec_probe (c := c) hopen (by omega) hc
      rw [hexec] at hrest ⊢
      by_cases hlast : n = p
      · -- the last probe is asked for
        have hmore : ¬ SparesLastProbe row c := fun hs => hs hc hopen (by omega)
        simp only [hmore, false_and, iff_false, if_true]
        push_cast
        omega
      · have hspares : SparesLastProbe row c := fun _ _ => by omega
        have hcounted : { row with
            halfOpenProbeCount := row.halfOpenProbeCount + 1 }.halfOpenProbeCount + 1 = n + 1 :=
          congrArg (· + 1) hcount
        rw [← ih (by omega) (fun _ => ⟨hcounted, hmax⟩) hrest]
        simp only [hspares, true_and, if_true]
        push_cast
        omega
    · obtain ⟨hfalse, hkept⟩ := exec_result hopen hc
      have hspares : SparesLastProbe row c := fun ha => absurd ha hc
      rw [← ih hn (fun hs => by rw [(hkept hs).1, (hkept hs).2]; exact ⟨hcount, hmax⟩) hrest]
      simp [hfalse, hspares]

/-- **Probes are bounded** by `half_open_max_probes`, from the call that half-opens the breaker to
the last one that finds it so, exactly if no call asks for the last probe. -/
theorem half_open_probes_iff {inside : List BreakerCall} (hp : 1 ≤ row.halfOpenMaxProbes)
    (hrow : row.state ≠ .halfOpen) (henter : (c.exec row).2.state = .halfOpen)
    (hinside : Along FindsHalfOpen inside (c.exec row).2) :
    (admitted (c :: inside) row : Int) ≤ row.halfOpenMaxProbes ↔
      Along SparesLastProbe (c :: inside) row := by
  obtain ⟨htrue, hzero, hmax⟩ := exec_halfOpens hrow henter
  have hspares : SparesLastProbe row c := fun _ h => absurd h hrow
  have hprobes := probes_iff (n := 1) hp (fun _ => ⟨by rw [hzero]; rfl, hmax⟩) hinside
  simp only [Along, hspares, true_and, ← hprobes, admitted, htrue, if_true]
  push_cast
  rfl

/-- One failure trips the breaker, and its cooldown is ten milliseconds. -/
def touchy (probes : Int) : CircuitBreakerConfig := ⟨1, 10, 10, probes, 0.8, by decide⟩

/-- The breaker trips at once. -/
def tripped (probes : Int) : CircuitBreakerState :=
  (CircuitBreakerState.registered (touchy probes)).recordFailure 0

/-- Two runs where three probes are allowed and the last is not asked for. -/
theorem half_open_probes_two :
    (admitted [⟨10, .allow⟩, ⟨11, .allow⟩] (tripped 3) : Int) ≤ (tripped 3).halfOpenMaxProbes := by
  have hiff := half_open_probes_iff (c := ⟨10, .allow⟩)
    (show 1 ≤ (tripped 3).halfOpenMaxProbes by decide) (by decide) (by decide)
    (show Along FindsHalfOpen [⟨11, .allow⟩] _ from ⟨rfl, trivial⟩)
  exact hiff.2 ⟨nofun, fun _ _ => (by decide), trivial⟩

/-- **Two runs where one probe is allowed.** -/
theorem half_open_probe_uncounted :
    (tripped 1).halfOpenMaxProbes = 1 ∧ (tripped 1).state ≠ .halfOpen ∧
    ((BreakerCall.exec ⟨10, .allow⟩ (tripped 1)).2).state = .halfOpen ∧
    admitted [⟨10, .allow⟩, ⟨10, .allow⟩] (tripped 1) = 2 := by
  decide

/-! ## The cooldown -/

theorem exec_opens (hrow : row.state ≠ .opened) (h : (c.exec row).2.state = .opened) :
    (c.exec row).2.openedAt = some c.now ∧ (c.exec row).2.cooldownMs = row.cooldownMs := by
  unfold BreakerCall.exec at h ⊢
  cases hc : c.action <;> cases hs : row.state <;>
    grind [allow, CircuitBreakerState.recordSuccess,
      CircuitBreakerState.recordFailure, reset, reopen,
      clearProbes]

def NoLateSuccess (row : CircuitBreakerState) (c : BreakerCall) : Prop :=
  c.action = .recordSuccess → row.state ≠ .opened

/-- Before the end of the cooldown, nothing but a success changes an open breaker. -/
theorem exec_during_cooldown {t : Nat} (hrow : row.state = .opened)
    (hopened : row.openedAt = some t) (hc : NoLateSuccess row c)
    (hnow : (c.now : Int) < t + row.cooldownMs) :
    (c.exec row).1 = false ∧ (c.exec row).2.state = .opened ∧
      (c.exec row).2.openedAt = some t ∧ (c.exec row).2.cooldownMs = row.cooldownMs := by
  unfold BreakerCall.exec
  cases hc' : c.action <;>
    grind [allow, CircuitBreakerState.recordFailure, NoLateSuccess]

/-- **An open breaker holds for its cooldown** in every sequence in which the clock does not go
back and no success is reported while it is open. -/
theorem open_holds {between : List BreakerCall} (hrow : row.state ≠ .opened)
    (htrip : (c.exec row).2.state = .opened)
    (hclock : ((between.map BreakerCall.now) ++ [now]).Pairwise (· ≤ ·))
    (hlate : Along NoLateSuccess between (c.exec row).2)
    (hnow : (now : Int) < c.now + row.cooldownMs) :
    ((runCalls between (c.exec row).2).allow now).1 = false := by
  obtain ⟨hopened, hcooldown⟩ := exec_opens hrow htrip
  generalize (c.exec row).2 = row' at *
  induction between generalizing row' with
  | nil => exact (exec_during_cooldown (c := ⟨now, .allow⟩) htrip hopened (nofun)
      (by rw [hcooldown]; exact hnow)).1
  | cons b between ih =>
    obtain ⟨hfirst, hclock⟩ := pairwise_cons.1 hclock
    have hle : b.now ≤ now := hfirst now (by simp)
    obtain ⟨-, hs, ho, hcd⟩ := exec_during_cooldown htrip hopened hlate.1
      (by rw [hcooldown]; omega)
    exact ih hclock _ hs hlate.2 ho (hcd.trans hcooldown)

/-- The breaker that tripped at 0 refuses at 9, after another failure. -/
theorem open_holds_once : ((runCalls [⟨5, .recordFailure⟩] (tripped 1)).allow 9).1 = false :=
  open_holds (c := ⟨0, .recordFailure⟩)
    (show (registered (touchy 1)).state ≠ .opened by decide) (by decide)
    (by decide) (show Along NoLateSuccess [⟨5, .recordFailure⟩] _ from ⟨nofun, trivial⟩)
    (by decide)

/-- **A late success opens the gate**: the breaker trips at 0, and a run that started before
reports success at 1. -/
theorem open_left_early : (tripped 1).state = .opened ∧ (tripped 1).openedAt = some 0 ∧
    (tripped 1).cooldownMs = 10 ∧
    ((runCalls [⟨1, .recordSuccess⟩] (tripped 1)).allow 2).1 = true := by
  decide

/-! ## The threshold -/

/-- The failures since the last success, with what the call reports. -/
def BreakerCall.addTo (c : BreakerCall) (failures : List Nat) : List Nat :=
  match c.action with
  | .recordSuccess => []
  | .recordFailure => c.now :: failures
  | .allow => failures

/-- The times of the failures since the last success, the latest first. -/
def failuresSinceSuccess (history : List BreakerCall) : List Nat :=
  history.foldl (fun failures c => c.addTo failures) []

/-- How many of the failures, with the one at `now`, lie within `window` of it. -/
def inWindow (window : Int) (now : Nat) (failures : List Nat) : Nat :=
  (now :: failures).countP fun t : Nat => (now : Int) - t ≤ window

/-- The failures that led to the one at `now`, each within `window` of the one after it. -/
def streak (window : Int) (now : Nat) : List Nat → List Nat
  | [] => [now]
  | t :: failures => if window < now - t then [now] else now :: streak window t failures

theorem streak_initial (window : Int) (now : Nat) (failures : List Nat) :
    streak window now failures <+: now :: failures := by
  induction failures generalizing now with
  | nil => exact prefix_refl _
  | cons t failures ih =>
    unfold streak
    split
    · exact ⟨t :: failures, rfl⟩
    · exact (prefix_cons_inj now).2 (ih t)

variable {window : Int} {failures : List Nat}

/-- Failures within the window of the last one follow each other within the window. -/
theorem le_streak (hclock : (now :: failures).Pairwise (· ≥ ·)) (hk : k ≤ failures.length + 1)
    (h : ∀ t ∈ (now :: failures).take k, (now : Int) - t ≤ window) :
    k ≤ (streak window now failures).length := by
  induction failures generalizing now k with
  | nil => exact hk
  | cons t failures ih =>
    obtain _ | _ | k := k
    · exact Nat.zero_le _
    · unfold streak
      split <;> simp
    · have hlast : (now : Int) - t ≤ window := h t (by simp)
      have hnow : now ≥ t := (pairwise_cons.1 hclock).1 t mem_cons_self
      rw [streak, if_neg (by omega), length_cons]
      refine Nat.succ_le_succ (ih (pairwise_cons.1 hclock).2 (by simpa using hk) fun u hu => ?_)
      have hwithin := h u (by simpa using Or.inr hu)
      omega

/-- What holds of the first entries of a list only, holds of `k` of them if it does of the first
`k`. -/
theorem le_countP_iff {α : Type} {p : α → Bool} {l : List α}
    (hl : l.Pairwise fun a b => p b = true → p a = true) :
    k ≤ l.countP p ↔ k ≤ l.length ∧ ∀ a ∈ l.take k, p a = true := by
  induction l generalizing k with
  | nil => simp
  | cons a l ih =>
    obtain ⟨hfirst, hl⟩ := pairwise_cons.1 hl
    obtain _ | k := k
    · simp
    by_cases ha : p a = true
    · simp [ha, ih hl]
    · have hnone : l.countP p = 0 := countP_eq_zero.2 fun b hb hpb => ha (hfirst b hb hpb)
      simp [ha, hnone]

/-- The failures of the window are the latest ones. -/
theorem le_inWindow_iff (hclock : (now :: failures).Pairwise (· ≥ ·)) :
    k ≤ inWindow window now failures ↔ k ≤ failures.length + 1 ∧
      ∀ t ∈ (now :: failures).take k, (now : Int) - t ≤ window := by
  have hfirst : (now :: failures).Pairwise fun a b : Nat =>
      decide ((now : Int) - b ≤ window) = true → decide ((now : Int) - a ≤ window) = true := by
    refine hclock.imp fun {a b} hab hb => ?_
    simp only [decide_eq_true_eq] at hb ⊢
    omega
  rw [inWindow, le_countP_iff hfirst]
  simp

/-- What a closed breaker knows of the failures since the last success. -/
structure Tracks (config : CircuitBreakerConfig) (failures : List Nat)
    (row : CircuitBreakerState) : Prop where
  threshold : row.threshold = config.threshold
  window : row.windowMs = config.windowMs
  state : row.state ≠ .halfOpen
  clean : row.state = .closed → failures = [] → row.failureCount = 0
  counted : ∀ t earlier, row.state = .closed → failures = t :: earlier →
    row.lastFailureAt = some t ∧ row.failureCount < row.threshold ∧
      row.failureCount = (streak config.windowMs t earlier).length

namespace Tracks

variable {config : CircuitBreakerConfig} {failures : List Nat}

/-- The breaker counts the streak. -/
theorem countFailure (h : Tracks config failures row) (hrow : row.state = .closed) (now : Nat) :
    row.countFailure now = (streak config.windowMs now failures).length := by
  unfold CircuitBreakerState.countFailure
  cases failures with
  | nil =>
    rw [h.clean hrow rfl]
    cases row.lastFailureAt with
    | none => rfl
    | some last => simp [streak, increment]
  | cons t earlier =>
    obtain ⟨hlast, hbelow, hcount⟩ := h.counted t earlier hrow rfl
    have hfits := config.threshold_le
    have hthreshold := h.threshold
    simp only [hlast, h.window, streak]
    split
    · rfl
    · rw [increment, length_cons, min_eq_left (by omega), hcount]
      push_cast
      rfl

theorem recordSuccess (h : Tracks config failures row) (now : Nat) :
    Tracks config [] (row.recordSuccess now) := by
  have hstate := h.state
  have hthreshold := h.threshold
  have hwindow := h.window
  constructor <;> cases hs : row.state <;>
    grind [CircuitBreakerState.recordSuccess, reset,
      clearProbes]

theorem recordFailure (h : Tracks config failures row) (now : Nat) :
    Tracks config (now :: failures) (row.recordFailure now) := by
  have hstate := h.state
  have hthreshold := h.threshold
  have hwindow := h.window
  have hcount := fun hrow => h.countFailure hrow now
  constructor <;> cases hs : row.state <;> grind [CircuitBreakerState.recordFailure]

theorem runCalls {history : List BreakerCall} (h : ∀ c ∈ history, c.action ≠ .allow) :
    Tracks config (failuresSinceSuccess history)
      (Flexiq.runCalls history (.registered config)) := by
  induction history using List.reverseRecOn with
  | nil => exact ⟨rfl, rfl, nofun, fun _ _ => rfl, nofun⟩
  | append_singleton history c ih =>
    have hbefore := ih fun c hc => h c (by simp [hc])
    have hc := h c (by simp)
    rw [failuresSinceSuccess, Flexiq.runCalls, foldl_append, foldl_append]
    simp only [foldl_cons, foldl_nil]
    nth_rewrite 1 [BreakerCall.addTo]
    rw [BreakerCall.exec]
    cases hc' : c.action with
    | allow => exact absurd hc' hc
    | recordSuccess => exact hbefore.recordSuccess c.now
    | recordFailure => exact hbefore.recordFailure c.now

end Tracks

theorem failuresSinceSuccess_sublist (history : List BreakerCall) :
    (failuresSinceSuccess history).Sublist (history.map BreakerCall.now).reverse := by
  induction history using List.reverseRecOn with
  | nil => exact List.Sublist.refl _
  | append_singleton history c ih =>
    rw [failuresSinceSuccess, foldl_append, map_append, reverse_append]
    simp only [foldl_cons, foldl_nil]
    nth_rewrite 1 [BreakerCall.addTo]
    split
    · exact nil_sublist _
    · exact List.Sublist.cons_cons _ ih
    · exact List.Sublist.cons _ ih

/-- **A closed breaker trips on its threshold** — on a failure that is at least the `threshold`-th
since the last success within the window before it — exactly if, when the failure ends a streak of
so many, the last `threshold` of the streak lie within the window. -/
theorem trips_on_threshold_iff {config : CircuitBreakerConfig} {history : List BreakerCall}
    (hresults : ∀ c ∈ history, c.action ≠ .allow)
    (hclock : (history.map BreakerCall.now ++ [now]).Pairwise (· ≤ ·))
    (hclosed : (runCalls history (.registered config)).state = .closed) :
    (((runCalls history (.registered config)).recordFailure now).state = .opened ↔
      config.threshold ≤ inWindow config.windowMs now (failuresSinceSuccess history)) ↔
    (config.threshold ≤ (streak config.windowMs now (failuresSinceSuccess history)).length →
      ∀ t ∈ (streak config.windowMs now (failuresSinceSuccess history)).take
        config.threshold.toNat, (now : Int) - t ≤ config.windowMs) := by
  have htracks : Tracks config _ _ := Tracks.runCalls hresults
  have hcount := htracks.countFailure hclosed now
  have hthreshold := htracks.threshold
  have hsorted : (now :: failuresSinceSuccess history).Pairwise (· ≥ ·) := by
    have hall := pairwise_reverse.2 hclock
    rw [reverse_append, reverse_singleton, singleton_append] at hall
    exact hall.sublist (List.Sublist.cons_cons now (failuresSinceSuccess_sublist history))
  generalize failuresSinceSuccess history = failures at *
  generalize runCalls history (.registered config) = row at *
  have htrip : (row.recordFailure now).state = .opened ↔
      config.threshold ≤ (streak config.windowMs now failures).length := by
    rw [← hcount, ← hthreshold]
    simp only [CircuitBreakerState.recordFailure, hclosed]
    split <;> simp_all
  rw [htrip]
  have hwindow : config.threshold ≤ inWindow config.windowMs now failures ↔ _ :=
    Int.toNat_le.symm.trans (le_inWindow_iff hsorted)
  -- where the streak is long enough, it and the failures begin alike
  have hsame : config.threshold ≤ (streak config.windowMs now failures).length →
      (now :: failures).take config.threshold.toNat =
        (streak config.windowMs now failures).take config.threshold.toNat := by
    intro hk
    obtain ⟨earlier, hall⟩ := streak_initial config.windowMs now failures
    rw [← hall, take_append_of_le_length (Int.toNat_le.2 hk)]
  constructor
  · intro hiff hk
    rw [← hsame hk]
    exact (hwindow.1 (hiff.1 hk)).2
  · intro hstreak
    refine ⟨fun hk => hwindow.2 ⟨?_, ?_⟩, fun hk => ?_⟩
    · exact (Int.toNat_le.2 hk).trans (streak_initial config.windowMs now failures).length_le
    · rw [hsame hk]
      exact hstreak hk
    · exact Int.toNat_le.1 (le_streak hsorted (hwindow.1 hk).1 (hwindow.1 hk).2)

/-- Three failures within ten milliseconds. -/
def threeStrikes : CircuitBreakerConfig := ⟨3, 10, 10, 1, 0.8, by decide⟩

/-- Failures at 0, 4 and 8 trip it. -/
theorem trips_on_threshold_third :
    ((runCalls [⟨0, .recordFailure⟩, ⟨4, .recordFailure⟩]
      (.registered threeStrikes)).recordFailure 8).state = .opened ↔
    threeStrikes.threshold ≤ inWindow threeStrikes.windowMs 8
      (failuresSinceSuccess [⟨0, .recordFailure⟩, ⟨4, .recordFailure⟩]) :=
  (trips_on_threshold_iff (by decide) (by decide) (by decide)).2 (by decide)

/-- **Failures that follow each other**: the one at 16 trips the breaker, though only one other
failure was in the ten milliseconds before it. -/
theorem trips_on_streak :
    (runCalls [⟨0, .recordFailure⟩, ⟨8, .recordFailure⟩] (.registered threeStrikes)).state =
      .closed ∧
    ((runCalls [⟨0, .recordFailure⟩, ⟨8, .recordFailure⟩]
      (.registered threeStrikes)).recordFailure 16).state = .opened ∧
    threeStrikes.threshold = 3 ∧ threeStrikes.windowMs = 10 ∧
    inWindow 10 16 (failuresSinceSuccess [⟨0, .recordFailure⟩, ⟨8, .recordFailure⟩]) = 2 := by
  decide

end Flexiq
