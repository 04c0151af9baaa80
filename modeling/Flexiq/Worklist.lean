import Mathlib

/-!
# Breadth-first exploration of a finite graph

A **worklist** that is read from the front and extended at the back: the element at position
`i` is looked up, its successors that the list does not hold yet are appended, and the reader
moves on, until it has passed the last element. Nothing is ever removed, so the list is at the
same time the queue and the set of everything seen.

The invariant is `Explored next root i queue`: the list starts with the root, repeats nothing,
holds only what the root reaches, and already holds every successor of the elements before
position `i`. When the reader is past the end the list is therefore *exactly* what the root
reaches (`Explored.mem_iff`). A universe that contains the root and is closed under successors
bounds the length of the list, and with it the number of passes (`explored_explore`).
-/

namespace Flexiq

open List

namespace Worklist

variable {α : Type}

section Queue

variable [DecidableEq α]

/-- Append the elements that the queue does not hold yet. -/
def extend (queue : List α) : List α → List α
  | [] => queue
  | a :: rest => extend (if a ∈ queue then queue else queue ++ [a]) rest

/-- Explore from position `i` on; nothing if `fuel` passes do not get to the end. -/
def explore (next : α → List α) : Nat → Nat → List α → Option (List α)
  | 0, i, queue => if queue.length ≤ i then some queue else none
  | fuel + 1, i, queue =>
    match queue[i]? with
    | none => some queue
    | some a => explore next fuel (i + 1) (extend queue (next a))

/-! ## Extending the queue -/

/-- Extending appends: what was in the queue keeps its position. -/
theorem prefix_extend (queue more : List α) : queue <+: extend queue more := by
  induction more generalizing queue with
  | nil => exact prefix_refl queue
  | cons a rest ih =>
    refine List.IsPrefix.trans ?_ (ih _)
    split
    · exact prefix_refl queue
    · exact prefix_append queue [a]

theorem mem_extend {queue more : List α} {b : α} :
    b ∈ extend queue more ↔ b ∈ queue ∨ b ∈ more := by
  induction more generalizing queue with
  | nil => simp [extend]
  | cons a rest ih =>
    rw [extend, ih]
    split
    · next ha =>
      constructor
      · rintro (hb | hb)
        · exact .inl hb
        · exact .inr (mem_cons_of_mem a hb)
      · rintro (hb | hb)
        · exact .inl hb
        · rcases mem_cons.1 hb with rfl | hb
          · exact .inl ha
          · exact .inr hb
    · rw [mem_append, mem_singleton, mem_cons, or_assoc]

theorem nodup_extend {queue : List α} (h : queue.Nodup) (more : List α) :
    (extend queue more).Nodup := by
  induction more generalizing queue with
  | nil => exact h
  | cons a rest ih =>
    apply ih
    split
    · exact h
    · next ha =>
      rw [nodup_append]
      refine ⟨h, nodup_singleton a, fun b hb c hc => ?_⟩
      cases mem_singleton.1 hc
      exact fun heq => ha (heq ▸ hb)

end Queue

/-! ## The invariant -/

def Edge (next : α → List α) (a b : α) : Prop := b ∈ next a

/-- What a worklist read up to position `i` holds. -/
structure Explored (next : α → List α) (root : α) (i : Nat) (queue : List α) : Prop where
  head : queue.head? = some root
  /-- Nothing is queued twice. -/
  nodup : queue.Nodup
  reached : ∀ a ∈ queue, Relation.ReflTransGen (Edge next) root a
  /-- The successors of everything read are queued. -/
  closed : ∀ j < i, ∀ a, queue[j]? = some a → ∀ b ∈ next a, b ∈ queue

theorem explored_root (next : α → List α) (root : α) : Explored next root 0 [root] where
  head := rfl
  nodup := nodup_singleton root
  reached a ha := by
    cases mem_singleton.1 ha
    exact Relation.ReflTransGen.refl
  closed j hj := absurd hj (Nat.not_lt_zero j)

variable {next : α → List α} {root : α} {i : Nat} {queue : List α}

section

variable (h : Explored next root i queue)
include h

/-- One pass keeps the invariant. -/
theorem Explored.step [DecidableEq α] {a : α} (ha : queue[i]? = some a) :
    Explored next root (i + 1) (extend queue (next a)) := by
  have hpre := prefix_extend queue (next a)
  refine ⟨?_, nodup_extend h.nodup _, ?_, ?_⟩
  · obtain ⟨more, hmore⟩ := hpre
    rw [← hmore, List.head?_append, h.head]
    rfl
  · intro b hb
    rcases mem_extend.1 hb with hb | hb
    · exact h.reached b hb
    · exact (h.reached a (mem_of_getElem? ha)).tail hb
  · intro j hj c hc b hb
    -- everything read so far sits in the old part of the queue
    have hlen : j < queue.length := by
      have hi := (List.getElem?_eq_some_iff.1 ha).1
      omega
    have hold : queue[j]? = some c := by
      obtain ⟨more, hmore⟩ := hpre
      rw [← hc, ← hmore, List.getElem?_append_left hlen]
    rcases Nat.lt_succ_iff_lt_or_eq.1 hj with hlt | rfl
    · exact mem_extend.2 (.inl (h.closed j hlt c hold b hb))
    · obtain rfl : a = c := Option.some.inj (ha.symm.trans hold)
      exact mem_extend.2 (.inr hb)

/-- A worklist read to its end holds exactly what the root reaches. -/
theorem Explored.mem_iff (hend : queue.length ≤ i) {a : α} :
    a ∈ queue ↔ Relation.ReflTransGen (Edge next) root a := by
  refine ⟨h.reached a, fun hr => ?_⟩
  induction hr with
  | refl => exact mem_of_mem_head? h.head
  | tail _ hb ih =>
    obtain ⟨j, hj⟩ := List.getElem?_of_mem ih
    have hlt := (List.getElem?_eq_some_iff.1 hj).1
    exact h.closed j (by omega) _ hj _ hb

/-- What follows the root in a worklist read to its end: everything else the root reaches. -/
theorem Explored.mem_tail_iff (hend : queue.length ≤ i) {a : α} :
    a ∈ queue.tail ↔ a ≠ root ∧ Relation.TransGen (Edge next) root a := by
  obtain ⟨rest, rfl⟩ : ∃ rest, queue = root :: rest := by
    obtain ⟨rest, hrest⟩ := List.head?_eq_some_iff.1 h.head
    exact ⟨rest, hrest⟩
  have hroot : root ∉ rest := (nodup_cons.1 h.nodup).1
  have hmem := h.mem_iff hend (a := a)
  rw [mem_cons, Relation.reflTransGen_iff_eq_or_transGen] at hmem
  rw [tail_cons]
  constructor
  · intro ha
    have hne : a ≠ root := fun heq => hroot (heq ▸ ha)
    exact ⟨hne, (hmem.1 (.inr ha)).resolve_left hne⟩
  · rintro ⟨hne, hr⟩
    exact (hmem.2 (.inr hr)).resolve_left hne

/-- The worklist stays inside a universe that is closed under successors. -/
theorem Explored.length_le {nodes : List α} (hroot : root ∈ nodes)
    (hclosed : ∀ a, ∀ b ∈ next a, b ∈ nodes) : queue.length ≤ nodes.length := by
  have hsub : queue ⊆ nodes := by
    intro a ha
    rcases (h.reached a ha).cases_tail with rfl | ⟨b, -, hb⟩
    · exact hroot
    · exact hclosed b a hb
  exact (h.nodup.subperm hsub).length_le

end

/-- **The exploration ends.** With a pass for every element of the universe, the reader gets to
the end of the worklist, and the invariant holds there. -/
theorem explored_explore [DecidableEq α] {nodes : List α} (hroot : root ∈ nodes)
    (hclosed : ∀ a, ∀ b ∈ next a, b ∈ nodes) (fuel : Nat) (h : Explored next root i queue)
    (hi : i ≤ queue.length) (hfuel : nodes.length ≤ fuel + i) :
    ∃ found, explore next fuel i queue = some found ∧ Explored next root found.length found := by
  induction fuel generalizing i queue with
  | zero =>
    have hle := h.length_le hroot hclosed
    obtain rfl : i = queue.length := by omega
    exact ⟨queue, if_pos le_rfl, h⟩
  | succ fuel ih =>
    rcases ha : queue[i]? with _ | a
    · obtain rfl : i = queue.length := by
        have hge := List.getElem?_eq_none_iff.1 ha
        omega
      simp only [explore, ha]
      exact ⟨queue, rfl, h⟩
    · simp only [explore, ha]
      have hlt := (List.getElem?_eq_some_iff.1 ha).1
      have hgrow := (prefix_extend queue (next a)).length_le
      exact ih (h.step ha) (by omega) (by omega)

end Worklist

end Flexiq
