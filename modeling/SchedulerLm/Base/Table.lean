import Mathlib.Data.List.Nodup
import Mathlib.Tactic.Common

/-!
# Keyed tables

A table of rows with a primary key: a list of rows (in the order of insertion)
no two of which have the same key, which is carried by the table itself. The
operations are those of a relational store: an insertion fails on a key already
present, an update fails when it matches no row, and a deletion does not.

A table is read by `find`; the lemmas say what each operation makes of it.
-/

namespace Relational

variable {κ ρ : Type*} [DecidableEq κ] {key : ρ → κ}

/-- A table of rows `ρ` with the primary key `key`. -/
@[ext]
structure Table (key : ρ → κ) where
  /-- The rows, in the order of their insertion. -/
  rows : List ρ
  nodup_keys : (rows.map key).Nodup

namespace Table

/-- The table without rows. -/
def empty : Table key := ⟨[], List.nodup_nil⟩

/-- The row with the key `k`. -/
def find (t : Table key) (k : κ) : Option ρ := t.rows.find? fun r => key r = k

/-- The table with the row `r`, unless its key is already present. -/
def insert (t : Table key) (r : ρ) : Option (Table key) :=
  if h : key r ∈ t.rows.map key then none
  else some ⟨t.rows ++ [r], by
    rw [List.map_append, List.map_singleton]
    exact t.nodup_keys.append (List.nodup_singleton _) (by simpa using h)⟩

/-- The rows `rows`, with `f` applied to that with the key `k`. -/
def modifyRows (key : ρ → κ) (rows : List ρ) (k : κ) (f : ρ → ρ) : List ρ :=
  rows.map fun r => if key r = k then f r else r

theorem map_key_modifyRows {f : ρ → ρ} (hf : ∀ r, key (f r) = key r) (rows : List ρ) (k : κ) :
    (modifyRows key rows k f).map key = rows.map key := by
  rw [modifyRows, List.map_map]
  refine List.map_congr_left fun r _ => ?_
  by_cases hr : key r = k <;> simp [hr, hf]

/-- The table with `f`, which keeps keys, applied to the row with the key `k`,
    unless there is none. -/
def modify (t : Table key) (k : κ) (f : ρ → ρ) (hf : ∀ r, key (f r) = key r) : Option (Table key) :=
  if k ∈ t.rows.map key then
    some ⟨modifyRows key t.rows k f, (map_key_modifyRows hf t.rows k) ▸ t.nodup_keys⟩
  else none

/-- The rows satisfying `p`. -/
def filter (t : Table key) (p : ρ → Bool) : Table key :=
  ⟨t.rows.filter p, t.nodup_keys.sublist (List.filter_sublist.map key)⟩

/-- The table without the row with the key `k`, if there is one. -/
def delete (t : Table key) (k : κ) : Table key := t.filter fun r => key r ≠ k

variable {t t' : Table key} {k : κ} {r : ρ}

/-! ## Finding rows -/

theorem key_of_find (h : t.find k = some r) : key r = k := by
  simpa using List.find?_some h

theorem mem_of_find (h : t.find k = some r) : r ∈ t.rows := List.mem_of_find?_eq_some h

theorem find_of_mem (h : r ∈ t.rows) : t.find (key r) = some r := by
  obtain ⟨rows, hn⟩ := t
  change rows.find? _ = some r
  induction rows with
  | nil => exact absurd h List.not_mem_nil
  | cons a rows ih =>
    rw [List.map_cons, List.nodup_cons] at hn
    rcases List.mem_cons.1 h with rfl | h
    · simp
    · have hne : key a ≠ key r := fun he => hn.1 (he ▸ List.mem_map_of_mem h)
      rw [List.find?_cons_of_neg (by simpa using hne)]
      exact ih hn.2 h

theorem find_eq_some : t.find k = some r ↔ r ∈ t.rows ∧ key r = k :=
  ⟨fun h => ⟨mem_of_find h, key_of_find h⟩, fun ⟨h, hk⟩ => hk ▸ find_of_mem h⟩

theorem find_eq_none : t.find k = none ↔ k ∉ t.rows.map key := by
  rw [find, List.find?_eq_none]
  simp

@[simp] theorem find_empty : (empty : Table key).find k = none := rfl

/-! ## Insertion -/

theorem insert_eq_some : t.insert r = some t' ↔ t.find (key r) = none ∧
    t'.rows = t.rows ++ [r] := by
  rw [find_eq_none, insert]
  split
  · rename_i h
    exact ⟨fun h' => absurd h' (by simp), fun h' => absurd h h'.1⟩
  · rename_i h
    rw [Option.some.injEq]
    exact ⟨fun h' => ⟨h, h' ▸ rfl⟩, fun h' => Table.ext h'.2.symm⟩

theorem insert_eq_none : t.insert r = none ↔ t.find (key r) ≠ none := by
  rw [Ne, find_eq_none, insert]
  split <;> simp_all

theorem find_insert (h : t.insert r = some t') (k : κ) :
    t'.find k = if k = key r then some r else t.find k := by
  obtain ⟨hr, hrows⟩ := insert_eq_some.1 h
  rw [find, hrows, List.find?_append]
  by_cases hk : k = key r
  · subst hk
    rw [find] at hr
    simp [hr]
  · simp [hk, find, Ne.symm hk]

/-! ## Update -/

theorem modify_eq_some {f : ρ → ρ} (hf : ∀ r, key (f r) = key r) :
    t.modify k f hf = some t' ↔ t.find k ≠ none ∧ t'.rows = modifyRows key t.rows k f := by
  rw [Ne, find_eq_none, not_not, modify]
  split
  · rename_i h
    rw [Option.some.injEq]
    exact ⟨fun h' => ⟨h, h' ▸ rfl⟩, fun h' => Table.ext h'.2.symm⟩
  · rename_i h
    exact ⟨fun h' => absurd h' (by simp), fun h' => absurd h'.1 h⟩

theorem modify_eq_none {f : ρ → ρ} (hf : ∀ r, key (f r) = key r) :
    t.modify k f hf = none ↔ t.find k = none := by
  rw [find_eq_none, modify]
  split <;> simp_all

theorem find_modify {f : ρ → ρ} (hf : ∀ r, key (f r) = key r) (h : t.modify k f hf = some t')
    (j : κ) : t'.find j = if j = k then (t.find k).map f else t.find j := by
  have hrows := ((modify_eq_some hf).1 h).2
  rw [find, hrows, modifyRows, List.find?_map]
  have hpred : ((fun r => decide (key r = j)) ∘ fun r => if key r = k then f r else r) =
      fun r => decide (key r = j) := by
    funext r
    by_cases hr : key r = k <;> simp [hr, hf]
  rw [hpred]
  change (t.find j).map _ = _
  by_cases hj : j = k
  · subst hj
    rw [if_pos rfl]
    cases hfind : t.find j with
    | none => rfl
    | some r => simp [key_of_find hfind]
  · rw [if_neg hj]
    cases hfind : t.find j with
    | none => rfl
    | some r => simp [key_of_find hfind, hj]

/-! ## Selection and deletion -/

theorem find_filter_eq_some {p : ρ → Bool} :
    (t.filter p).find k = some r ↔ t.find k = some r ∧ p r = true := by
  rw [find_eq_some, find_eq_some, filter, List.mem_filter]
  exact and_right_comm

theorem find_delete (t : Table key) (k j : κ) :
    (t.delete k).find j = if j = k then none else t.find j := by
  ext r
  rw [delete, find_filter_eq_some, decide_eq_true_eq]
  split
  · rename_i hj
    exact ⟨fun h => absurd ((key_of_find h.1).trans hj) h.2, fun h => absurd h (by simp)⟩
  · rename_i hj
    exact ⟨fun h => h.1, fun h => ⟨h, fun hk => hj ((key_of_find h).symm.trans hk)⟩⟩

/-! ## Selections of a changed table -/

section Selection

variable {p : ρ → Bool} {f : ρ → ρ}

omit [DecidableEq κ] in
theorem rows_filter (t : Table key) (p : ρ → Bool) : (t.filter p).rows = t.rows.filter p := rfl

theorem find_filter_eq_none (h : ∀ r, t.find k = some r → p r = false) :
    (t.filter p).find k = none := by
  refine Option.eq_none_iff_forall_ne_some.2 fun r hr => ?_
  obtain ⟨hr, hp⟩ := find_filter_eq_some.1 hr
  exact absurd (h r hr) (by simp [hp])

theorem find_filter_of_forall (h : ∀ r, t.find k = some r → p r = true) :
    (t.filter p).find k = t.find k := by
  ext r
  rw [find_filter_eq_some]
  exact ⟨fun hr => hr.1, fun hr => ⟨hr, h r hr⟩⟩

/-- An insertion of a selected row is one into the selection. -/
theorem insert_filter (h : t.insert r = some t') (hp : p r = true) :
    (t.filter p).insert r = some (t'.filter p) := by
  obtain ⟨hnone, hrows⟩ := insert_eq_some.1 h
  refine insert_eq_some.2 ⟨find_filter_eq_none fun r' hr' => ?_, ?_⟩
  · exact absurd (hnone.symm.trans hr') (by simp)
  · simp [filter, hrows, hp]

/-- An insertion of another row leaves the selection. -/
theorem filter_of_insert (h : t.insert r = some t') (hp : p r = false) :
    t'.filter p = t.filter p := by
  obtain ⟨-, hrows⟩ := insert_eq_some.1 h
  exact Table.ext (by simp [filter, hrows, hp])

/-- The selection of an update that keeps what is selected. -/
theorem filter_modifyRows (hfp : ∀ r, p (f r) = p r) (rows : List ρ) (k : κ) :
    (modifyRows key rows k f).filter p = modifyRows key (rows.filter p) k f := by
  rw [modifyRows, modifyRows, List.filter_map]
  congr 1
  refine List.filter_congr fun r _ => ?_
  by_cases hr : key r = k <;> simp [hr, hfp]

/-- An update of a selected row is one of the selection. -/
theorem modify_filter (hf : ∀ r, key (f r) = key r) (hfp : ∀ r, p (f r) = p r)
    (h : t.modify k f hf = some t') (hk : ∀ r, t.find k = some r → p r = true) :
    (t.filter p).modify k f hf = some (t'.filter p) := by
  obtain ⟨hne, hrows⟩ := (modify_eq_some hf).1 h
  refine (modify_eq_some hf).2 ⟨?_, ?_⟩
  · rwa [find_filter_of_forall hk]
  · rw [rows_filter, rows_filter, hrows, filter_modifyRows hfp]

/-- An update of another row leaves the selection. -/
theorem filter_of_modify (hf : ∀ r, key (f r) = key r) (hfp : ∀ r, p (f r) = p r)
    (h : t.modify k f hf = some t') (hk : ∀ r, t.find k = some r → p r = false) :
    t'.filter p = t.filter p := by
  obtain ⟨-, hrows⟩ := (modify_eq_some hf).1 h
  refine Table.ext ?_
  rw [rows_filter, rows_filter, hrows, filter_modifyRows hfp, modifyRows]
  refine (List.map_congr_left fun r hr => ?_).trans (List.map_id _)
  refine if_neg fun hrk => ?_
  obtain ⟨hmem, hp⟩ := List.mem_filter.1 hr
  exact absurd (hk r (find_eq_some.2 ⟨hmem, hrk⟩)) (by simp [hp])

/-- A deletion is one from the selection. -/
theorem filter_delete (t : Table key) (k : κ) : (t.delete k).filter p = (t.filter p).delete k :=
  Table.ext (List.filter_comm p (fun r => key r ≠ k) t.rows)

/-- A deletion of another row leaves the selection. -/
theorem filter_of_delete (hk : ∀ r, t.find k = some r → p r = false) :
    (t.delete k).filter p = t.filter p := by
  rw [filter_delete]
  refine Table.ext (List.filter_eq_self.2 fun r hr => decide_eq_true fun hrk => ?_)
  obtain ⟨hmem, hp⟩ := List.mem_filter.1 hr
  exact absurd (hk r (find_eq_some.2 ⟨hmem, hrk⟩)) (by simp [hp])

end Selection

end Table

end Relational
