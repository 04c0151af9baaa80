import Flexiq.Trace

/-!
# The login throttle

A login request is checked against the failures of its identity, then its password is verified,
then a failure is recorded. Requests that overlap all pass the check before the first of them has
recorded anything (`guesses_overrun`); the limit holds if a check counts the requests in the air
as failures (`guesses_bounded`).
-/

namespace Flexiq.Auth

def maxFailures : Nat := 10

/-- In milliseconds. -/
def windowMs : Nat := 5 * 60 * 1000

structure Window where
  started : Nat
  failures : Nat

/-- The throttle entry of one identity, and its login requests. -/
structure LoginThrottle where
  now : Nat := 0
  entry : Option Window := none
  /-- Requests that have passed the check and whose password is yet to be verified. -/
  verifying : Nat := 0
  /-- Requests whose verification failed and which are yet to record it. -/
  rejected : Nat := 0
  /-- Verifications that failed between the start of the last window and its end. -/
  guesses : Nat := 0

inductive ThrottleAct where
  | wait (ms : Nat)
  | check
  | verify
  /-- The storage fails, which is not counted. -/
  | fault
  | recordFailure
  /-- A failure of another identity is recorded. -/
  | other

namespace LoginThrottle

variable {s : LoginThrottle}

/-- The window, if it has not run its course. -/
def live (s : LoginThrottle) : Option Window :=
  match s.entry with
  | some w => if s.now < w.started + windowMs then some w else none
  | none => none

/-- The failures that the next check goes by. -/
def failures (s : LoginThrottle) : Nat :=
  match s.live with
  | some w => w.failures
  | none => 0

/-- One step. Every recorded failure sweeps the windows that have run their course. -/
def step (s : LoginThrottle) : ThrottleAct → LoginThrottle
  | .wait ms => { s with now := s.now + ms }
  | .check => if maxFailures ≤ s.failures then s else { s with verifying := s.verifying + 1 }
  | .verify =>
    if 0 < s.verifying then
      { s with
        verifying := s.verifying - 1
        rejected := s.rejected + 1
        guesses := if s.live.isSome then s.guesses + 1 else s.guesses }
    else s
  | .fault => { s with verifying := s.verifying - 1 }
  | .recordFailure =>
    if 0 < s.rejected then
      let s := { s with rejected := s.rejected - 1 }
      match s.live with
      | some w => { s with entry := some { w with failures := w.failures + 1 } }
      | none => { s with entry := some ⟨s.now, 1⟩, guesses := 0 }
    else s
  | .other => { s with entry := s.live }

/-- A check lets a request through only if it would with the requests in the air counted. -/
def Spaced (s : LoginThrottle) (a : ThrottleAct) : Prop :=
  a = .check → s.failures < maxFailures → s.failures + s.verifying + s.rejected < maxFailures

/-- The requests in the air fit under the limit, and each guess of a window was recorded or is in
the air. -/
structure Bounded (s : LoginThrottle) : Prop where
  air : s.failures + s.verifying + s.rejected ≤ maxFailures
  counted : s.live.isSome → s.guesses ≤ s.failures + s.rejected
  guesses : s.guesses ≤ maxFailures

theorem Bounded.step (h : Bounded s) (a : ThrottleAct) (ha : s.Spaced a) : Bounded (s.step a) := by
  have ⟨hair, hcounted, hguesses⟩ := h
  unfold failures live at hair hcounted
  cases a with
  | wait ms =>
    constructor <;> unfold LoginThrottle.step <;> grind [failures, live]
  | check =>
    have := ha rfl
    simp only [LoginThrottle.step]
    split
    · exact h
    · constructor <;> grind [failures, live]
  | verify =>
    simp only [LoginThrottle.step]
    split
    · constructor <;> grind [failures, live]
    · exact h
  | fault => constructor <;> unfold LoginThrottle.step <;> grind [failures, live]
  | recordFailure =>
    simp only [LoginThrottle.step]
    split
    · constructor <;> grind [failures, live, maxFailures, windowMs]
    · exact h
  | other => constructor <;> unfold LoginThrottle.step <;> grind [failures, live]

/-- **Guesses are bounded**: at most `maxFailures` verifications fail within a window, in every run
in which a check counts the requests in the air. -/
theorem guesses_bounded (acts : List ThrottleAct) (h : EveryStep step Spaced {} acts) :
    (acts.foldl step {}).guesses ≤ maxFailures := by
  have hstart : Bounded {} := ⟨by decide, by simp [live], by decide⟩
  exact (h.keeps hstart Bounded.step).guesses

/-- Two wrong passwords, one after the other. -/
theorem guesses_bounded_two :
    let acts : List ThrottleAct := [.check, .verify, .recordFailure, .check, .verify]
    (acts.foldl step {}).guesses ≤ maxFailures :=
  guesses_bounded _ (by simp [EveryStep, Spaced, step, failures, live, maxFailures, windowMs])

/-- Twelve requests pass the check before the first failure is recorded. -/
theorem guesses_overrun :
    let acts : List ThrottleAct := .replicate 12 .check ++ [.verify, .recordFailure] ++
      .replicate 11 .verify
    (acts.foldl step {}).guesses = maxFailures + 1 := by
  decide +kernel

end LoginThrottle

end Flexiq.Auth
