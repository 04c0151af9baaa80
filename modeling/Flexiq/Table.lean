import Mathlib

/-!
# Keyed tables

A relational **table** as a list of rows together with the proofs that its constraints
hold: no two rows share a *primary key*, and no two rows share a value of a *partial
unique index* (an index that only covers the rows it returns `some` on). A statement that
would break a constraint has no result — `insert` and `tryUpdate` answer `none`, which is
what the caller turns into a constraint-violation error.

Because the constraints are fields, a reader of a table never re-proves them:

* `mem_rows_iff_find` — a row is in the table exactly when its key finds it;
* `index_unique` — two rows in the index with one value are the same row;
* `find_insert`, `find_update`, `find_delete` — a statement, read through `find`.
-/

namespace Flexiq

open List Option

/-- The constraints of a table over rows `ρ`: the **primary key** of a row, and the value of
its **partial unique index**, `none` for a row that the index does not cover. -/
structure Schema (ρ κ υ : Type) where
  key : ρ → κ
  /-- The partial unique index. -/
  index : ρ → Option υ

/-- A table: rows that satisfy the constraints of their schema. -/
structure Table {ρ κ υ : Type} (S : Schema ρ κ υ) where
  /-- The rows, in insertion order. -/
  rows : List ρ
  /-- Primary keys are distinct. -/
  nodup_key : (rows.map S.key).Nodup
  /-- Indexed values are distinct. -/
  nodup_index : (rows.filterMap S.index).Nodup

namespace Table

variable {ρ κ υ : Type} {S : Schema ρ κ υ}
variable {t t' : Table S} {p : ρ → Bool} {f : ρ → ρ} {r r' : ρ} {k : κ}

/-- The table without rows. -/
def empty : Table S := ⟨[], List.nodup_nil, List.nodup_nil⟩

theorem ext_rows (h : t.rows = t'.rows) : t = t' := by
  cases t
  cases t'
  simp only [mk.injEq]
  exact h

instance [DecidableEq ρ] : DecidableEq (Table S) := fun t t' =>
  decidable_of_iff (t.rows = t'.rows) ⟨ext_rows, fun h => h ▸ rfl⟩

/-- `SELECT … WHERE p`. -/
def select (t : Table S) (p : ρ → Bool) : List ρ := t.rows.filter p

/-- `SELECT COUNT(*) … WHERE p`. -/
def count (t : Table S) (p : ρ → Bool) : Nat := (t.select p).length

/-- `DELETE … WHERE p`. -/
def delete (t : Table S) (p : ρ → Bool) : Table S where
  rows := t.rows.filter fun r => !p r
  nodup_key := t.nodup_key.sublist (List.filter_sublist.map _)
  nodup_index := t.nodup_index.sublist (List.filter_sublist.filterMap _)

/-- An update that keeps the key of each row it touches, and keeps the row's indexed value or
takes the row out of the index. No such update can break a constraint. -/
def Preserves (S : Schema ρ κ υ) (p : ρ → Bool) (f : ρ → ρ) : Prop :=
  ∀ r, p r = true → S.key (f r) = S.key r ∧ (S.index (f r) = S.index r ∨ S.index (f r) = none)

/-- The row an `UPDATE` leaves in place of `r`. -/
def updated (p : ρ → Bool) (f : ρ → ρ) (r : ρ) : ρ := if p r then f r else r

theorem key_updated (h : ∀ r, p r = true → S.key (f r) = S.key r) (r : ρ) :
    S.key (updated p f r) = S.key r := by
  unfold updated
  split
  · next hp => exact h r hp
  · rfl

/-- Rows rewritten one by one, each keeping its indexed value or leaving the index: the
indexed values that remain are a sublist of those before. -/
theorem filterMap_index_sublist {g : ρ → ρ}
    (h : ∀ r, S.index (g r) = S.index r ∨ S.index (g r) = none) :
    ∀ rows : List ρ, ((rows.map g).filterMap S.index).Sublist (rows.filterMap S.index)
  | [] => List.Sublist.refl _
  | r :: rows => by
    have ih := filterMap_index_sublist h rows
    simp only [map_cons, filterMap_cons]
    rcases h r with hr | hr
    · rw [hr]
      cases S.index r with
      | none => exact ih
      | some u => exact ih.cons_cons u
    · rw [hr]
      cases S.index r with
      | none => exact ih
      | some u => exact ih.cons u

/-- `UPDATE … SET f WHERE p`, for an update that cannot break a constraint. -/
def update (t : Table S) (p : ρ → Bool) (f : ρ → ρ) (h : Preserves S p f) : Table S where
  rows := t.rows.map (updated p f)
  nodup_key := by
    have hk : S.key ∘ updated p f = S.key := funext (key_updated fun r hp => (h r hp).1)
    rw [List.map_map, hk]
    exact t.nodup_key
  nodup_index := by
    refine t.nodup_index.sublist (filterMap_index_sublist (fun r => ?_) t.rows)
    unfold updated
    split
    · next hp => exact (h r hp).2
    · exact .inl rfl

/-- `REPLACE INTO`: the row, in place of the one that has its key, in a table without a unique
index on it. -/
def replace [DecidableEq κ] (t : Table S) (r : ρ) (hr : S.index r = none) : Table S where
  rows := (t.delete fun r' => S.key r' = S.key r).rows ++ [r]
  nodup_key := by
    rw [List.map_append, List.nodup_append]
    refine ⟨(t.delete _).nodup_key, List.nodup_singleton _, fun a ha b hb => ?_⟩
    obtain ⟨r', hr', rfl⟩ := List.mem_map.1 ha
    obtain rfl := List.mem_singleton.1 hb
    have hkey := (List.mem_filter.1 hr').2
    simpa using hkey
  nodup_index := by
    rw [List.filterMap_append, List.filterMap_cons_none hr, List.filterMap_nil, List.append_nil]
    exact (t.delete _).nodup_index

theorem eq_of_key_eq (hr : r ∈ t.rows) (hr' : r' ∈ t.rows) (hk : S.key r = S.key r') : r = r' :=
  inj_on_of_nodup_map t.nodup_key hr hr' hk

theorem mem_select : r ∈ t.select p ↔ r ∈ t.rows ∧ p r = true :=
  mem_filter

theorem mem_delete : r ∈ (t.delete p).rows ↔ r ∈ t.rows ∧ p r = false := by
  simp only [delete, mem_filter, Bool.not_eq_true']

theorem count_eq_zero : t.count p = 0 ↔ ∀ r ∈ t.rows, p r = false := by
  simp only [count, select, length_eq_zero_iff, filter_eq_nil_iff, Bool.not_eq_true]

theorem update_eq_self (h : Preserves S p f) (hp : ∀ r ∈ t.rows, p r = false) :
    t.update p f h = t := by
  refine ext_rows ((map_congr_left fun r hr => ?_).trans (map_id _))
  simp [updated, hp r hr]

variable {sel : ρ → Bool}

/-- Removing one row that `p` does not count changes no count. -/
theorem count_delete_row (hr : r ∈ t.rows) (hsel : ∀ r', sel r' = true → S.key r' = S.key r)
    (hp : p r = false) : (t.delete sel).count p = t.count p := by
  simp only [count, select, delete, List.filter_filter]
  refine congrArg List.length (List.filter_congr fun r' hr' => ?_)
  cases hs : sel r' with
  | false => simp
  | true =>
    cases eq_of_key_eq hr' hr (hsel r' hs)
    simp [hp]

/-- Rewriting one row that `p` did not count: it may count now. -/
theorem count_update_row (h : Preserves S sel f) (hr : r ∈ t.rows)
    (hone : ∀ r', sel r' = true → S.key r' = S.key r) (hsel : sel r = true) (hp : p r = false) :
    (t.update sel f h).count p = t.count p + (if p (f r) then 1 else 0) := by
  obtain ⟨pre, post, hsplit⟩ := append_of_mem hr
  have hnd : ((pre ++ r :: post).map S.key).Nodup := hsplit ▸ t.nodup_key
  rw [map_append, map_cons] at hnd
  obtain ⟨-, hpost, hdisj⟩ := nodup_append.1 hnd
  have hkeep : ∀ l : List ρ, (∀ r' ∈ l, S.key r' ≠ S.key r) → l.map (updated sel f) = l := by
    intro l hl
    refine (map_congr_left fun r' hr' => ?_).trans (map_id l)
    have hs : ¬ sel r' = true := fun hs => hl r' hr' (hone r' hs)
    simp [updated, hs]
  have hpre := hkeep pre fun r' hr' => hdisj _ (mem_map_of_mem hr') _ mem_cons_self
  have hpost := hkeep post fun r' hr' heq => (nodup_cons.1 hpost).1 (heq ▸ mem_map_of_mem hr')
  simp only [count, select, update, hsplit, map_append, map_cons, hpre, hpost,
    filter_append, filter_cons, updated, hsel, hp, if_true, length_append]
  split
  · simp
    omega
  · simp

/-! ## Reading a table through its keys -/

section Find

variable [DecidableEq κ]

/-- The row with primary key `k`. -/
def find (t : Table S) (k : κ) : Option ρ := t.rows.find? fun r => S.key r = k

theorem find_key (h : t.find k = some r) : S.key r = k := by
  have hr := List.find?_some h
  exact of_decide_eq_true hr

theorem mem_of_find (h : t.find k = some r) : r ∈ t.rows :=
  mem_of_find?_eq_some h

theorem find_of_mem (h : r ∈ t.rows) : t.find (S.key r) = some r := by
  rcases hf : t.find (S.key r) with _ | _
  · have hne := List.find?_eq_none.1 hf r h
    simp at hne
  · rw [eq_of_key_eq (mem_of_find hf) h (find_key hf)]

/-- `find`, characterised: the row of the table with that key. -/
theorem find_eq_some_iff : t.find k = some r ↔ r ∈ t.rows ∧ S.key r = k :=
  ⟨fun h => ⟨mem_of_find h, find_key h⟩, fun ⟨hm, hk⟩ => hk ▸ find_of_mem hm⟩

theorem find_eq_none_iff : t.find k = none ↔ ∀ r ∈ t.rows, S.key r ≠ k := by
  simp only [find, List.find?_eq_none, decide_eq_true_eq, ne_eq]

/-- A key finds the same row in two tables that agree on which rows carry it. -/
theorem find_congr {S' : Schema ρ κ υ} {t' : Table S'}
    (h : ∀ r, (r ∈ t.rows ∧ S.key r = k) ↔ (r ∈ t'.rows ∧ S'.key r = k)) :
    t.find k = t'.find k := by
  rcases hf : t'.find k with _ | r
  · rw [find_eq_none_iff] at hf ⊢
    intro r hr hk
    obtain ⟨hr', hk'⟩ := (h r).1 ⟨hr, hk⟩
    exact hf r hr' hk'
  · rw [find_eq_some_iff] at hf ⊢
    exact (h r).2 hf

/-- An update that keeps keys acts on the row each key finds. -/
theorem find_update (t : Table S) (p : ρ → Bool) (f : ρ → ρ) (h : Preserves S p f) (k : κ) :
    (t.update p f h).find k = (t.find k).map (updated p f) := by
  have hk := key_updated fun r hp => (h r hp).1
  simp only [find, update, List.find?_map, Function.comp_def, hk]

/-- An update that touches the one row `r` only replaces that row. -/
theorem find_map_updated (hr : r ∈ t.rows) (hp : p r = true)
    (honly : ∀ r', p r' = true → S.key r' = S.key r) (k : κ) :
    (t.find k).map (updated p f) = if k = S.key r then some (f r) else t.find k := by
  split
  · next hk =>
    subst hk
    simp [find_of_mem hr, updated, hp]
  · next hk =>
    rcases hf : t.find k with _ | r'
    · rfl
    · have hp' : ¬p r' = true := fun h => hk ((find_key hf).symm.trans (honly r' h))
      simp [updated, hp']

/-- A deletion keeps the row a key finds unless the row is deleted. -/
theorem find_delete (t : Table S) (p : ρ → Bool) (k : κ) :
    (t.delete p).find k = (t.find k).filter fun r => !p r := by
  rcases hf : t.find k with _ | r
  · rw [find_eq_none_iff] at hf
    rw [filter_none, find_eq_none_iff]
    exact fun r hr => hf r (mem_of_mem_filter hr)
  · by_cases hp : p r = true
    · rw [filter_some_neg (by simpa using hp), find_eq_none_iff]
      intro r' hr' hk
      obtain ⟨hm, hd⟩ := mem_filter.1 hr'
      have : r' = r := eq_of_key_eq hm (mem_of_find hf) (hk.trans (find_key hf).symm)
      simp [this, hp] at hd
    · rw [filter_some_pos (by simpa using hp), find_eq_some_iff]
      exact ⟨mem_filter.2 ⟨mem_of_find hf, by simpa using hp⟩, find_key hf⟩

/-- A replacement writes its row and keeps the others. -/
theorem find_replace (t : Table S) (r : ρ) (hr : S.index r = none) (k : κ) :
    (t.replace r hr).find k = if k = S.key r then some r else t.find k := by
  split
  · next hk =>
    rw [find_eq_some_iff]
    exact ⟨mem_append_right _ (mem_singleton.2 rfl), hk.symm⟩
  · next hk =>
    refine find_congr fun r' => ?_
    simp only [replace, delete, mem_append, mem_filter, mem_singleton]
    constructor
    · rintro ⟨⟨hr', -⟩ | rfl, hkey⟩
      · exact ⟨hr', hkey⟩
      · exact absurd hkey.symm hk
    · rintro ⟨hr', hkey⟩
      have hne : ¬ S.key r' = S.key r := fun h => hk (hkey.symm.trans h)
      exact ⟨.inl ⟨hr', by simp [hne]⟩, hkey⟩

/-- Distinct keys that each find a row satisfying `p` are at most as many as `count` says. -/
theorem length_le_count {ks : List κ} (hks : ks.Nodup)
    (h : ∀ k ∈ ks, ∃ r, t.find k = some r ∧ p r = true) : ks.length ≤ t.count p := by
  have hsub : ks ⊆ (t.select p).map S.key := by
    intro k hk
    obtain ⟨r, hr, hp⟩ := h k hk
    exact mem_map.2 ⟨r, mem_select.2 ⟨mem_of_find hr, hp⟩, find_key hr⟩
  have hle := (hks.subperm hsub).length_le
  rwa [length_map] at hle

omit [DecidableEq κ] in
/-- The keys of the rows that satisfy `p`. -/
theorem nodup_select_key (t : Table S) (p : ρ → Bool) : ((t.select p).map S.key).Nodup :=
  t.nodup_key.sublist (filter_sublist.map S.key)

theorem mem_select_key : k ∈ (t.select p).map S.key ↔ ∃ r, t.find k = some r ∧ p r = true := by
  simp only [List.mem_map, mem_select, find_eq_some_iff]
  constructor
  · rintro ⟨r, ⟨hr, hp⟩, rfl⟩
    exact ⟨r, ⟨hr, rfl⟩, hp⟩
  · rintro ⟨r, ⟨hr, rfl⟩, hp⟩
    exact ⟨r, ⟨hr, hp⟩, rfl⟩

/-- If every key with a row satisfying `p` has one satisfying `q` in the other table, the other
table counts at least as many. -/
theorem count_le_count {q : ρ → Bool}
    (h : ∀ {k r}, t.find k = some r → p r = true → ∃ r', t'.find k = some r' ∧ q r' = true) :
    t.count p ≤ t'.count q := by
  have hle : ((t.select p).map S.key).length ≤ t'.count q := by
    refine length_le_count (nodup_select_key t p) fun k hk => ?_
    obtain ⟨r, hr, hp⟩ := mem_select_key.1 hk
    exact h hr hp
  rwa [length_map] at hle

end Find

/-! ## Statements that a constraint can refuse -/

section Constraint

variable [DecidableEq κ] [DecidableEq υ]

def ofRows (S : Schema ρ κ υ) (rows : List ρ) : Option (Table S) :=
  if h : (rows.map S.key).Nodup ∧ (rows.filterMap S.index).Nodup then
    some ⟨rows, h.1, h.2⟩
  else none

/-- `INSERT`, refused when it would break a constraint. -/
def insert (t : Table S) (r : ρ) : Option (Table S) := ofRows S (t.rows ++ [r])

/-- `UPDATE … SET f WHERE p`, refused when it would break a constraint. -/
def tryUpdate (t : Table S) (p : ρ → Bool) (f : ρ → ρ) : Option (Table S) :=
  ofRows S (t.rows.map (updated p f))

theorem ofRows_eq_some {rows : List ρ} (h : ofRows S rows = some t) : t.rows = rows := by
  unfold ofRows at h
  split at h
  · exact congrArg Table.rows (some.inj h).symm
  · exact absurd h (by simp)

theorem ofRows_rows (t : Table S) : ofRows S t.rows = some t :=
  dif_pos ⟨t.nodup_key, t.nodup_index⟩

/-- An insertion is accepted when its key is fresh and it stays out of the index. -/
theorem insert_of_fresh (hk : t.find (S.key r) = none) (hi : S.index r = none) :
    ∃ t', t.insert r = some t' := by
  have hkey : ((t.rows ++ [r]).map S.key).Nodup := by
    rw [map_append, nodup_append]
    refine ⟨t.nodup_key, nodup_singleton _, fun a ha b hb => ?_⟩
    obtain ⟨r', hr', rfl⟩ := mem_map.1 ha
    cases mem_singleton.1 hb
    exact find_eq_none_iff.1 hk r' hr'
  have hindex : ((t.rows ++ [r]).filterMap S.index).Nodup := by
    rw [filterMap_append, filterMap_cons_none hi, filterMap_nil, append_nil]
    exact t.nodup_index
  exact ⟨⟨_, hkey, hindex⟩, dif_pos ⟨hkey, hindex⟩⟩

/-- An update is accepted when, on the rows of the table, it is one that cannot break a
constraint. -/
theorem tryUpdate_eq_update {q : ρ → Bool} (hq : Preserves S q f) (h : ∀ r ∈ t.rows, p r = q r) :
    t.tryUpdate p f = some (t.update q f hq) := by
  have hrows : t.rows.map (updated p f) = (t.update q f hq).rows :=
    map_congr_left fun r hr => by simp [updated, h r hr]
  rw [tryUpdate, hrows, ofRows_rows]

theorem mem_insert (h : t.insert r = some t') : r' ∈ t'.rows ↔ r' ∈ t.rows ∨ r' = r := by
  rw [ofRows_eq_some h, mem_append, mem_singleton]

/-- An accepted insertion had a fresh key. -/
theorem find_of_insert (h : t.insert r = some t') : t.find (S.key r) = none := by
  have hnd := t'.nodup_key
  rw [ofRows_eq_some h, map_append, nodup_append'] at hnd
  rw [find_eq_none_iff]
  intro r' hr' hk
  exact hnd.2.2 (mem_map.2 ⟨r', hr', rfl⟩) (by simp [hk])

omit [DecidableEq υ] in
/-- A deletion keeps the row of a key or removes it. -/
theorem find_delete_or (t : Table S) (p : ρ → Bool) (k : κ) :
    (t.delete p).find k = none ∨ (t.delete p).find k = t.find k := by
  rw [find_delete]
  rcases t.find k with _ | _
  · exact .inl rfl
  · rw [filter_some]
    split
    · exact .inr rfl
    · exact .inl rfl

/-- An accepted insertion adds its row and nothing else. -/
theorem find_insert (h : t.insert r = some t') (k : κ) :
    t'.find k = if k = S.key r then some r else t.find k := by
  have hrows := ofRows_eq_some h
  split
  · next hk =>
    rw [find_eq_some_iff, hrows]
    exact ⟨by simp, hk.symm⟩
  · next hk =>
    refine find_congr fun r' => ?_
    rw [hrows, mem_append, mem_singleton]
    constructor
    · rintro ⟨hm | rfl, hr'⟩
      · exact ⟨hm, hr'⟩
      · exact absurd hr'.symm hk
    · rintro ⟨hm, hr'⟩
      exact ⟨.inl hm, hr'⟩

/-- An accepted update that keeps keys acts on the row each key finds. -/
theorem find_tryUpdate (hkey : ∀ r, p r = true → S.key (f r) = S.key r)
    (h : t.tryUpdate p f = some t') (k : κ) : t'.find k = (t.find k).map (updated p f) := by
  simp only [find, ofRows_eq_some h, List.find?_map, Function.comp_def, key_updated hkey]

end Constraint

end Table

end Flexiq
