import Mathlib

/-!
# The pool of task-scoped resources

A semaphore bounds how many callers are between `acquire` and the end of `release`, a lock guards
the idle instances, and the factory runs under neither. An instance counts from the moment its
caller finds nothing idle, and then every counted instance has its caller's permit or is idle
(`pool_safe`). The time stamp of an idle instance is that of its last release, not of its creation;
so an instance is handed out for `max_lifetime` after that, and only one that was never put back is
certain to retire on time (`retires_on_time`, `retires_late`).
-/

namespace Flexiq.ResourcePool

open List

/-- The pool, and where its callers stand. Instances are numbered in the order of creation. -/
structure Pool where
  permits : Nat
  idle : List (Nat × ℚ) := []
  shutdown : Bool := false
  /-- Callers with a permit that have not looked for an idle instance yet. -/
  admitted : Nat := 0
  /-- Callers that found no idle instance. -/
  creating : Nat := 0
  held : List Nat := []
  /-- Callers that have put their instance back and still have the permit. -/
  returning : Nat := 0
  /-- When each instance was created. -/
  created : List ℚ := []
  /-- The instances that were torn down. -/
  torn : List Nat := []

/-- Look for an idle instance; `clock` is the time when an instance is looked at. Gives the
instance, what stays idle and what has expired. -/
def reuse (maxLifetime : ℚ) (clock : Nat → ℚ) :
    List (Nat × ℚ) → Option Nat × List (Nat × ℚ) × List Nat
  | [] => (none, [], [])
  | (i, createdAt) :: idle =>
    if clock i - createdAt < maxLifetime then (some i, idle, [])
    else
      let (found, idle, expired) := reuse maxLifetime clock idle
      (found, idle, i :: expired)

/-- The atomic steps of `acquire`, `release` and `shutdown`. -/
inductive Act
  | takePermit
  | look (clock : Nat → ℚ)
  | create (now : ℚ)
  | createFails
  | putBack (i : Nat) (now : ℚ)
  | givePermit
  | setShutdown
  | drain

namespace Pool

/-- The pool after `prewarm`, with the times when the factory returned. -/
def prewarmed (poolSize : Nat) (times : List ℚ) : Pool where
  permits := poolSize
  idle := times.zipIdx.map Prod.swap
  created := times

def step (maxLifetime : ℚ) (s : Pool) : Act → Pool
  | .takePermit =>
    if 0 < s.permits then { s with permits := s.permits - 1, admitted := s.admitted + 1 } else s
  | .look clock =>
    if 0 < s.admitted then
      let (found, idle, expired) := reuse maxLifetime clock s.idle
      { s with
        admitted := s.admitted - 1
        idle := idle
        torn := s.torn ++ expired
        held := found.toList ++ s.held
        creating := if found.isSome then s.creating else s.creating + 1 }
    else s
  | .create now =>
    if 0 < s.creating then
      { s with
        creating := s.creating - 1
        held := s.created.length :: s.held
        created := s.created ++ [now] }
    else s
  | .createFails =>
    if 0 < s.creating then { s with creating := s.creating - 1, permits := s.permits + 1 } else s
  | .putBack i now =>
    if i ∈ s.held then
      let s := { s with held := s.held.erase i, returning := s.returning + 1 }
      if s.shutdown then { s with torn := s.torn ++ [i] }
      else { s with idle := s.idle ++ [(i, now)] }
    else s
  | .givePermit =>
    if 0 < s.returning then { s with returning := s.returning - 1, permits := s.permits + 1 } else s
  | .setShutdown => { s with shutdown := true }
  | .drain =>
    if s.shutdown then { s with idle := [], torn := s.torn ++ s.idle.map Prod.fst } else s

def run (maxLifetime : ℚ) (s : Pool) (acts : List Act) : Pool := acts.foldl (step maxLifetime) s

/-- Every instance is in one place, every permit too, and what is counted fits. -/
structure Sound (poolSize : Nat) (s : Pool) : Prop where
  once : ∀ i, (s.idle.map Prod.fst).count i + s.held.count i + s.torn.count i =
    if i < s.created.length then 1 else 0
  placed : s.idle.length + s.held.length + s.torn.length = s.created.length
  permits : s.permits + s.admitted + s.creating + s.held.length + s.returning = poolSize
  fits : s.idle.length + s.held.length + s.creating ≤ poolSize

theorem reuse_places (maxLifetime : ℚ) (clock : Nat → ℚ) (idle : List (Nat × ℚ)) :
    let (found, rest, expired) := reuse maxLifetime clock idle
    (∀ i, (rest.map Prod.fst).count i + found.toList.count i + expired.count i =
      (idle.map Prod.fst).count i) ∧
    rest.length + found.toList.length + expired.length = idle.length ∧
    (found = none → rest = []) := by
  fun_induction reuse with
  | case1 => simp
  | case2 i createdAt idle _ => simp [count_cons]
  | case3 i createdAt idle _ found rest expired heq ih =>
    rw [heq] at ih
    refine ⟨fun j => ?_, ?_, ih.2.2⟩
    · have := ih.1 j
      simp only [map_cons, count_cons]
      omega
    · have := ih.2.1
      simp only [length_cons]
      omega

theorem Sound.step {poolSize : Nat} {s : Pool} (h : Sound poolSize s) (maxLifetime : ℚ) (a : Act) :
    Sound poolSize (s.step maxLifetime a) := by
  have ⟨honce, hplaced, hpermits, hfits⟩ := h
  cases a with
  | takePermit | createFails | givePermit =>
    simp only [Pool.step]
    split
    · exact ⟨honce, hplaced, by dsimp only; omega, by dsimp only; omega⟩
    · exact h
  | setShutdown => exact ⟨honce, hplaced, hpermits, hfits⟩
  | look clock =>
    obtain ⟨hcount, hlength, hnone⟩ := reuse_places maxLifetime clock s.idle
    rcases heq : reuse maxLifetime clock s.idle with ⟨found, _, _⟩
    simp only [heq] at hcount hlength hnone
    simp only [Pool.step, heq]
    split
    · refine ⟨fun i => ?_, ?_, ?_, ?_⟩
      · have := honce i
        have := hcount i
        simp only [count_append]
        omega
      all_goals cases found <;> simp_all <;> omega
    · exact h
  | create now =>
    simp only [Pool.step]
    split
    · refine ⟨fun i => ?_, by simp; omega, by simp; omega, by simp; omega⟩
      have := honce i
      simp only [count_cons, length_append, length_singleton, beq_iff_eq]
      grind
    · exact h
  | putBack i now =>
    simp only [Pool.step]
    split
    · next hheld =>
      have hlength := length_erase_add_one hheld
      have hcount (j : Nat) : (s.held.erase i).count j + (if i = j then 1 else 0)
        = s.held.count j := by
        grind
      split
      all_goals
        refine ⟨fun j => ?_, by simp; omega, by dsimp only; omega, by simp; omega⟩
        have := honce j
        have := hcount j
        simp [count_append, count_singleton]
        omega
    · exact h
  | drain =>
    simp only [Pool.step]
    split
    · refine ⟨fun i => ?_, by simp; omega, hpermits, by simp; omega⟩
      have := honce i
      simp
      omega
    · exact h

theorem sound_prewarmed {poolSize : Nat} {times : List ℚ} (h : times.length ≤ poolSize) :
    Sound poolSize (prewarmed poolSize times) := by
  have hidle : (times.zipIdx.map Prod.swap).map Prod.fst = List.range times.length := by
    rw [map_map, range_eq_range', ← zipIdx_map_snd]
    rfl
  refine ⟨fun i => ?_, by simp [prewarmed], by simp [prewarmed], by simpa [prewarmed] using h⟩
  simp only [prewarmed, hidle, count_range, count_nil]
  rfl

/-- **The pool is safe**: what was created or is being created, and was not torn down, fits into the
pool; no instance has two holders, and none is torn down twice or while it is held. -/
theorem pool_safe (poolSize : Nat) (maxLifetime : ℚ) (times : List ℚ) (h : times.length ≤ poolSize)
    (acts : List Act) :
    let s := (prewarmed poolSize times).run maxLifetime acts
    s.created.length - s.torn.length + s.creating ≤ poolSize ∧ s.held.Nodup ∧ s.torn.Nodup ∧
      (∀ i ∈ s.torn, i < s.created.length) ∧ ∀ i ∈ s.torn, i ∉ s.held := by
  have hsound : Sound poolSize ((prewarmed poolSize times).run maxLifetime acts) :=
    foldlRecOn acts _ (sound_prewarmed h) fun _ hs a _ => hs.step maxLifetime a
  intro s
  obtain ⟨honce, hplaced, -, hfits⟩ : Sound poolSize s := hsound
  have hle (i : Nat) : s.held.count i + s.torn.count i ≤ 1 := by
    have := honce i
    split at this <;> omega
  refine ⟨by omega, ?_, ?_, fun i hi => ?_, fun i hi hheld => ?_⟩
  · exact nodup_iff_count_le_one.2 fun i => by have := hle i; omega
  · exact nodup_iff_count_le_one.2 fun i => by have := hle i; omega
  · have := honce i
    have := count_pos_iff.2 hi
    by_contra hlt
    rw [if_neg hlt] at *
    omega
  · have := hle i
    have := count_pos_iff.2 hi
    have := count_pos_iff.2 hheld
    omega

/-- A pool of one that hands out a prewarmed instance, replaces it and shuts down. -/
theorem pool_safe_one :
    let s := (prewarmed 1 [0]).run 10 [.takePermit, .look fun _ => 20, .create 20, .setShutdown,
      .putBack 1 21, .givePermit]
    s.torn = [0, 1] ∧ s.torn.Nodup :=
  ⟨by decide +kernel, (pool_safe 1 10 [0] (by decide) _).2.2.1⟩

/-! ## How old an instance is -/

/-- The instance that a call of `acquire` returns in a step, and when: an idle one that it found, or
the one that it created. -/
def acquired (maxLifetime : ℚ) (s : Pool) : Act → Option (Nat × ℚ)
  | .look clock =>
    if 0 < s.admitted then
      (reuse maxLifetime clock s.idle).1.map fun i => (i, clock i)
    else none
  | .create now => if 0 < s.creating then some (s.created.length, now) else none
  | _ => none

/-- Every instance has a time of creation, and an idle one is stamped with that or with the time of
one of its releases `P`. -/
structure Stamped (P : Nat → ℚ → Prop) (s : Pool) : Prop where
  held : ∀ i ∈ s.held, i < s.created.length
  idle : ∀ e ∈ s.idle, ∃ c ∈ s.created[e.1]?, e.2 = c ∨ P e.1 e.2

variable {P : Nat → ℚ → Prop} {maxLifetime : ℚ}

/-- What a search finds was idle and stamped recently, and what it leaves was idle. -/
theorem reuse_mem (maxLifetime : ℚ) (clock : Nat → ℚ) (idle : List (Nat × ℚ)) :
    let (found, rest, _) := reuse maxLifetime clock idle
    (∀ i, found = some i → ∃ stamp, (i, stamp) ∈ idle ∧ clock i - stamp < maxLifetime) ∧
      rest ⊆ idle := by
  fun_induction reuse with
  | case1 => simp
  | case2 i createdAt idle hyoung =>
    refine ⟨fun j hj => ⟨createdAt, ?_⟩, subset_cons_self ..⟩
    cases hj
    exact ⟨mem_cons_self, hyoung⟩
  | case3 i createdAt idle _ found rest expired heq ih =>
    rw [heq] at ih
    refine ⟨fun j hj => ?_, Subset.trans ih.2 (subset_cons_self ..)⟩
    obtain ⟨stamp, hmem, hyoung⟩ := ih.1 j hj
    exact ⟨stamp, mem_cons_of_mem _ hmem, hyoung⟩

/-- **One step** keeps the stamps, if a release is one of `P`. -/
theorem Stamped.step {s : Pool} (h : Stamped P s) {a : Act}
    (hP : ∀ i now, a = .putBack i now → P i now) : Stamped P (s.step maxLifetime a) := by
  cases a with
  | takePermit | createFails | givePermit =>
    simp only [Pool.step]
    split <;> exact ⟨h.held, h.idle⟩
  | setShutdown => exact ⟨h.held, h.idle⟩
  | look clock =>
    obtain ⟨hfound, hrest⟩ := reuse_mem maxLifetime clock s.idle
    rcases heq : reuse maxLifetime clock s.idle with ⟨found, rest, _⟩
    simp only [heq] at hfound hrest
    simp only [Pool.step, heq]
    split
    · refine ⟨fun i hi => ?_, fun e he => h.idle e (hrest he)⟩
      obtain hi | hi := mem_append.1 hi
      · obtain ⟨stamp, hmem, -⟩ := hfound i (by simpa using hi)
        obtain ⟨c, hc, -⟩ := h.idle _ hmem
        exact (List.getElem?_eq_some_iff.1 hc).1
      · exact h.held i hi
    · exact h
  | create now =>
    simp only [Pool.step]
    split
    · refine ⟨fun i hi => ?_, fun e he => ?_⟩
      · obtain rfl | hi := mem_cons.1 hi
        · simp
        · exact (h.held i hi).trans_le (by simp)
      · obtain ⟨c, hc, hstamp⟩ := h.idle e he
        refine ⟨c, ?_, hstamp⟩
        rw [Option.mem_def, getElem?_append_left (List.getElem?_eq_some_iff.1 hc).1]
        exact hc
    · exact h
  | putBack i now =>
    simp only [Pool.step]
    split
    · next hi =>
      have hheld : ∀ j ∈ s.held.erase i, j < s.created.length := fun j hj =>
        h.held j (mem_of_mem_erase hj)
      split
      · exact ⟨hheld, h.idle⟩
      · refine ⟨hheld, fun e he => ?_⟩
        obtain he | he := mem_append.1 he
        · exact h.idle e he
        · obtain rfl := mem_singleton.1 he
          exact ⟨_, getElem?_eq_getElem (h.held i hi), .inr (hP i now rfl)⟩
    · exact h
  | drain =>
    simp only [Pool.step]
    split
    · exact ⟨h.held, by simp⟩
    · exact h

theorem stamped_prewarmed (poolSize : Nat) (times : List ℚ) :
    Stamped P (prewarmed poolSize times) := by
  refine ⟨by simp [prewarmed], fun e he => ?_⟩
  obtain ⟨⟨t, i⟩, hmem, rfl⟩ := mem_map.1 he
  exact ⟨t, mk_mem_zipIdx_iff_getElem?.1 hmem, .inl rfl⟩

/-- **When instances retire.** In every run, an instance that `acquire` returns and that was never
put back is younger than `max_lifetime`; and one that was put back at most `d` after its creation is
younger than that and `d`. -/
theorem retires_on_time (hpos : 0 < maxLifetime) (poolSize : Nat) (times : List ℚ) (acts : List Act)
    (a : Act) {i : Nat} {now : ℚ}
    (h : ((prewarmed poolSize times).run maxLifetime acts).acquired maxLifetime a = some (i, now)) :
    ∃ c ∈ (((prewarmed poolSize times).run maxLifetime acts).step maxLifetime a).created[i]?,
      ((∀ r, .putBack i r ∉ acts) → now - c < maxLifetime) ∧
      ∀ d, 0 ≤ d → (∀ r, .putBack i r ∈ acts → r - c ≤ d) → now - c < maxLifetime + d := by
  have hstamped : Stamped (fun i r => .putBack i r ∈ acts)
      ((prewarmed poolSize times).run maxLifetime acts) :=
    foldlRecOn acts _ (stamped_prewarmed poolSize times) fun _ hs a ha =>
      hs.step fun i r heq => heq ▸ ha
  generalize (prewarmed poolSize times).run maxLifetime acts = s at h hstamped
  cases a with
  | look clock =>
    simp only [acquired] at h
    split at h
    · next hadmitted =>
      obtain ⟨_, hfound, hpair⟩ := Option.map_eq_some_iff.1 h
      cases hpair
      obtain ⟨stamp, hmem, hyoung⟩ := (reuse_mem maxLifetime clock s.idle).1 i hfound
      obtain ⟨c, hc, hstamp⟩ : ∃ c ∈ s.created[i]?, stamp = c ∨ .putBack i stamp ∈ acts :=
        hstamped.idle _ hmem
      refine ⟨c, by simpa [Pool.step, hadmitted] using hc, fun hnever => ?_, fun d hd hlast => ?_⟩
      · obtain rfl | hback := hstamp
        · exact hyoung
        · exact absurd hback (hnever stamp)
      · obtain rfl | hback := hstamp
        · exact hyoung.trans_le (by linarith)
        · have hback := hlast stamp hback
          linarith
    · cases h
  | create _ =>
    simp only [acquired] at h
    split at h
    · next hcreating =>
      cases h
      refine ⟨now, by simp [Pool.step, hcreating], fun _ => by simpa, fun d hd _ => ?_⟩
      rw [sub_self]
      linarith
    · cases h
  | _ => cases h

/-- A prewarmed instance is returned at 5. -/
theorem retires_on_time_prewarmed :
    ((prewarmed 1 [0]).run 10 [.takePermit]).acquired 10 (.look fun _ => 5) = some (0, 5) ∧
      (5 : ℚ) - 0 < 10 := by
  have hreturned : ((prewarmed 1 [0]).run 10 [.takePermit]).acquired 10 (.look fun _ => 5) =
      some (0, 5) := by decide +kernel
  obtain ⟨c, hc, hyoung, -⟩ := retires_on_time (by norm_num) 1 [0] [.takePermit] _ hreturned
  obtain rfl : 0 = c := by simpa [prewarmed, run, Pool.step, reuse] using hc
  exact ⟨hreturned, hyoung (by simp)⟩

/-- **An old instance is handed out**: it was created at 0, put back at 9, and is returned at 18. -/
theorem retires_late :
    let s := (prewarmed 1 []).run 10 [.takePermit, .look fun _ => 0, .create 0, .putBack 0 9,
      .givePermit, .takePermit]
    s.acquired 10 (.look fun _ => 18) = some (0, 18) ∧ s.created = [0] := by
  decide +kernel

end Pool

end Flexiq.ResourcePool
