import Mathlib.Data.List.Nodup

/-!
# Keyed tables

A table of rows with a primary key: no two rows have the same key, which is a
field of the table (`Keyed.Table`). Rows are looked up, written (`put`
replaces the row of the same key, if there is one) and removed by key. The
order of the rows means nothing; what a table holds is what `get` says of
every key (`get_put`), or, row by row, `mem_put` and `mem_erase`.
-/

namespace Keyed

/-- A table of rows `ρ` with the primary key `key`. -/
structure Table {κ ρ : Type} (key : ρ → κ) where
  rows : List ρ
  nodup : (rows.map key).Nodup

namespace Table

variable {κ ρ : Type} {key : ρ → κ}

/-- The table without rows. -/
def empty : Table key := ⟨[], List.nodup_nil⟩

@[simp] theorem not_mem_empty {r : ρ} : r ∉ (empty : Table key).rows := List.not_mem_nil

/-- Some rows of a table have different keys, as all have. -/
theorem nodup_filter (t : Table key) (p : ρ → Bool) : ((t.rows.filter p).map key).Nodup :=
  t.nodup.sublist (List.filter_sublist.map key)

/-- Two rows of a table with the same key are the same row. -/
theorem eq_of_key_eq (t : Table key) {r r' : ρ} (hr : r ∈ t.rows) (hr' : r' ∈ t.rows)
    (h : key r = key r') : r = r' :=
  List.inj_on_of_nodup_map t.nodup hr hr' h

variable [DecidableEq κ]

/-- The row of the key `k`. -/
def get (t : Table key) (k : κ) : Option ρ := t.rows.find? fun r => key r = k

/-- The table with the row `r`, in the place of the row of the same key. -/
def put (t : Table key) (r : ρ) : Table key where
  rows := t.rows.filter (fun r' => key r' ≠ key r) ++ [r]
  nodup := by
    rw [List.map_append, List.nodup_append]
    refine ⟨t.nodup_filter _, List.nodup_singleton _, ?_⟩
    intro k hk k' hk' hkk'
    obtain ⟨r', hr', rfl⟩ := List.mem_map.1 hk
    have hne : key r' ≠ key r := by simpa using (List.mem_filter.1 hr').2
    exact hne (by simpa [← hkk'] using hk')

/-- The table without the row of the key `k`. -/
def erase (t : Table key) (k : κ) : Table key where
  rows := t.rows.filter fun r => key r ≠ k
  nodup := t.nodup_filter _

variable {t : Table key} {k : κ} {r r' : ρ}

/-- A row is found by its key. -/
theorem get_eq_some : t.get k = some r ↔ r ∈ t.rows ∧ key r = k := by
  constructor
  · intro h
    exact ⟨List.mem_of_find?_eq_some h, by simpa using List.find?_some h⟩
  · rintro ⟨hr, hk⟩
    cases hg : t.get k with
    | none =>
      have := List.find?_eq_none.1 hg r hr
      simp [hk] at this
    | some r' =>
      have hr' : r' ∈ t.rows := List.mem_of_find?_eq_some hg
      have hk' : key r' = k := by simpa using List.find?_some hg
      rw [t.eq_of_key_eq hr' hr (hk'.trans hk.symm)]

/-- A row is found under its key. -/
theorem get_key_of_mem (h : r ∈ t.rows) : t.get (key r) = some r := get_eq_some.2 ⟨h, rfl⟩

/-- Nothing is found if no row has the key. -/
theorem get_eq_none : t.get k = none ↔ ∀ r ∈ t.rows, key r ≠ k := by
  simp [get, List.find?_eq_none]

/-- A row that is put replaces the one of its key. -/
@[simp] theorem mem_put : r' ∈ (t.put r).rows ↔ (r' ∈ t.rows ∧ key r' ≠ key r) ∨ r' = r := by
  simp [put]

/-- Rows of other keys stay. -/
theorem mem_put_of_ne (h : key r' ≠ key r) : r' ∈ (t.put r).rows ↔ r' ∈ t.rows := by
  have hne : r' ≠ r := fun heq => h (congrArg key heq)
  simp [h, hne]

/-- Only the row of the key is erased. -/
@[simp] theorem mem_erase : r ∈ (t.erase k).rows ↔ r ∈ t.rows ∧ key r ≠ k := by
  simp [erase]

/-- What is found after a row was put. -/
theorem get_put : (t.put r).get k = if key r = k then some r else t.get k := by
  split_ifs with hk
  · exact get_eq_some.2 ⟨by simp, hk⟩
  · cases hg : t.get k with
    | none =>
      refine get_eq_none.2 fun r' hr' => ?_
      rcases mem_put.1 hr' with ⟨hr', _⟩ | rfl
      · exact get_eq_none.1 hg r' hr'
      · exact hk
    | some r' =>
      obtain ⟨hr', rfl⟩ := get_eq_some.1 hg
      exact get_eq_some.2 ⟨mem_put.2 (.inl ⟨hr', Ne.symm hk⟩), rfl⟩

/-- A row that is put is not found under another key. -/
theorem get_put_of_ne (h : key r ≠ k) : (t.put r).get k = t.get k := by rw [get_put, if_neg h]

/-- What is found after a key was erased. -/
theorem get_erase {k' : κ} : (t.erase k').get k = if k' = k then none else t.get k := by
  split_ifs with hk
  · exact get_eq_none.2 fun r hr heq => (mem_erase.1 hr).2 (heq.trans hk.symm)
  · cases hg : t.get k with
    | none => exact get_eq_none.2 fun r hr => get_eq_none.1 hg r (mem_erase.1 hr).1
    | some r =>
      obtain ⟨hr, rfl⟩ := get_eq_some.1 hg
      exact get_eq_some.2 ⟨mem_erase.2 ⟨hr, Ne.symm hk⟩, rfl⟩

/-- Rows whose keys are new are added when they are put. -/
theorem mem_foldl_put {l : List ρ} (hl : (l.map key).Nodup)
    (hnone : ∀ r ∈ l, t.get (key r) = none) :
    r ∈ (l.foldl put t).rows ↔ r ∈ t.rows ∨ r ∈ l := by
  induction l generalizing t with
  | nil => simp
  | cons r' l ih =>
    rw [List.map_cons, List.nodup_cons] at hl
    -- The rows to come have keys that are new, also after the first one is put.
    have hne : ∀ r ∈ l, key r' ≠ key r := fun r hr heq => hl.1 (heq ▸ List.mem_map_of_mem hr)
    have hnone' : ∀ r ∈ l, (t.put r').get (key r) = none := fun r hr => by
      rw [get_put_of_ne (hne r hr)]
      exact hnone r (List.mem_cons_of_mem _ hr)
    rw [List.foldl_cons, ih hl.2 hnone', mem_put, List.mem_cons]
    have hnew := get_eq_none.1 (hnone r' List.mem_cons_self)
    constructor
    · rintro ((⟨hr, -⟩ | rfl) | hr)
      · exact .inl hr
      · exact .inr (.inl rfl)
      · exact .inr (.inr hr)
    · rintro (hr | rfl | hr)
      · exact .inl (.inl ⟨hr, hnew r hr⟩)
      · exact .inl (.inr rfl)
      · exact .inr hr

end Table

end Keyed
