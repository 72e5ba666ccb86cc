import Mathlib.Data.List.Basic
import Mathlib.Data.List.Nodup
import Mathlib.Data.List.Count

/-!
# Merging rows by key

A table is a list of rows, and a batch is merged by discarding the rows that share
a key with it and appending it. A key is up to date when the table holds exactly
the row last read for it. Merging settles the keys of the batch exactly where the
batch has each of them once, and leaves the others as they were.
-/

namespace PriceEngine

variable {α κ : Type*} [DecidableEq κ] (key : α → κ)

def rowsWith (k : κ) (rows : List α) : List α := rows.filter fun row => key row == k

def discard (ks : List κ) (table : List α) : List α := table.filter fun row => !ks.contains (key row)

def merge (table rows : List α) : List α := discard key (rows.map key) table ++ rows

/-- The table holds one row for the key, the last that was read, or none where none was read. -/
def UpToDate (table read : List α) (k : κ) : Prop := rowsWith key k table = (rowsWith key k read).getLast?.toList

variable {key} {k : κ} {ks : List κ} {table read rows : List α}

theorem mem_rowsWith {row : α} : row ∈ rowsWith key k rows ↔ row ∈ rows ∧ key row = k := by
  rw [rowsWith, List.mem_filter, beq_iff_eq]

theorem rowsWith_append (k : κ) (l m : List α) : rowsWith key k (l ++ m) = rowsWith key k l ++ rowsWith key k m :=
  List.filter_append ..

theorem rowsWith_eq_nil (h : k ∉ rows.map key) : rowsWith key k rows = [] := by
  rw [List.eq_nil_iff_forall_not_mem]
  intro row hrow
  obtain ⟨hmem, hk⟩ := mem_rowsWith.mp hrow
  exact h (List.mem_map.mpr ⟨row, hmem, hk⟩)

theorem rowsWith_ne_nil (h : k ∈ rows.map key) : rowsWith key k rows ≠ [] := by
  obtain ⟨row, hrow, hk⟩ := List.mem_map.mp h
  exact List.ne_nil_of_mem (mem_rowsWith.mpr ⟨hrow, hk⟩)

theorem rowsWith_length (k : κ) (rows : List α) : (rowsWith key k rows).length = (rows.map key).count k := by
  rw [rowsWith, ← List.countP_eq_length_filter, List.count, List.countP_map]
  rfl

/-! ## Discarding -/

theorem rowsWith_discard_mem (h : k ∈ ks) : rowsWith key k (discard key ks table) = [] := by
  rw [List.eq_nil_iff_forall_not_mem]
  intro row hrow
  obtain ⟨hmem, rfl⟩ := mem_rowsWith.mp hrow
  have hkept := (List.mem_filter.mp hmem).2
  simp [h] at hkept

theorem rowsWith_discard_notMem (h : k ∉ ks) : rowsWith key k (discard key ks table) = rowsWith key k table := by
  rw [rowsWith, discard, List.filter_filter, rowsWith]
  refine List.filter_congr fun row _ => ?_
  by_cases hk : key row = k
  · simp [hk, h]
  · simp [hk]

theorem upToDate_discard (h : k ∉ ks) : UpToDate key (discard key ks table) read k ↔ UpToDate key table read k := by
  rw [UpToDate, rowsWith_discard_notMem h]
  rfl

theorem not_upToDate_discard (h : k ∈ rows.map key) :
    ¬ UpToDate key (discard key (rows.map key) table) rows k := by
  rw [UpToDate, rowsWith_discard_mem h]
  intro hnone
  have hlast := List.getLast?_isSome.mpr (rowsWith_ne_nil h)
  rw [Option.isSome_iff_exists] at hlast
  obtain ⟨row, hrow⟩ := hlast
  rw [hrow] at hnone
  cases hnone

/-! ## Merging -/

theorem merge_nil : merge key table [] = table := by
  simp [merge, discard]

theorem rowsWith_merge_notMem (h : k ∉ rows.map key) :
    rowsWith key k (merge key table rows) = rowsWith key k table := by
  rw [merge, rowsWith_append, rowsWith_eq_nil h, List.append_nil, rowsWith_discard_notMem h]

theorem upToDate_merge_mem (read : List α) (h : k ∈ rows.map key) :
    UpToDate key (merge key table rows) (read ++ rows) k ↔ (rows.map key).count k = 1 := by
  rw [UpToDate, merge, rowsWith_append, rowsWith_append, rowsWith_discard_mem h, List.nil_append,
    List.getLast?_append_of_ne_nil _ (rowsWith_ne_nil h), ← rowsWith_length]
  constructor
  · intro heq
    have hlast := List.getLast?_isSome.mpr (rowsWith_ne_nil h)
    rw [heq, Option.length_toList, if_pos hlast]
  · intro hlen
    obtain ⟨row, hrow⟩ := List.length_eq_one_iff.mp hlen
    rw [hrow]
    rfl

end PriceEngine
