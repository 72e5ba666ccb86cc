import Mathlib.Algebra.Order.BigOperators.Group.List
import Mathlib.Data.List.Nodup
import Mathlib.Data.List.Perm.Basic
import Mathlib.Data.List.Perm.Subperm

/-!
# Rows found by what they say

A registry holds rows that are named by an id and found by a shape. A row is
inserted only where no row of its shape is there, so neither ids nor shapes are
ever there twice, and it does not matter which of its answers a query gives
first. Rows of which no key has two are bounded by the keys.
-/

namespace PriceEngine

universe u

variable {ι α β : Type*} {σ : Type u}

/-! ## A query read for its first row -/

/-- The row a query without an order returns first. -/
structure Fetch (α : Type*) where
  one : List α → Option α
  one_mem : ∀ {rows row}, one rows = some row → row ∈ rows
  one_ne_none : ∀ {rows}, rows ≠ [] → one rows ≠ none

/-- The first row in the order of the table. -/
def Fetch.first (α : Type*) : Fetch α where
  one := List.head?
  one_mem := List.mem_of_mem_head?
  one_ne_none := fun h hnone => h (List.head?_eq_none_iff.mp hnone)

theorem Fetch.one_eq_none {fetch : Fetch α} {rows : List α} : fetch.one rows = none ↔ rows = [] := by
  constructor
  · intro h
    by_contra hne
    exact fetch.one_ne_none hne h
  · rintro rfl
    cases h : fetch.one [] with
    | none => rfl
    | some row => cases fetch.one_mem h

theorem Fetch.one_filter {fetch : Fetch α} {p : α → Bool} {rows : List α} {row : α}
    (h : fetch.one (rows.filter p) = some row) : row ∈ rows ∧ p row = true :=
  List.mem_filter.mp (fetch.one_mem h)

theorem Fetch.one_filter_eq_none {fetch : Fetch α} {p : α → Bool} {rows : List α}
    (h : fetch.one (rows.filter p) = none) : ∀ row ∈ rows, p row = false := by
  intro row hrow
  simpa using List.filter_eq_nil_iff.mp (one_eq_none.mp h) row hrow

/-! ## Registries -/

section

variable (id : α → ι) (shape : α → σ)

/-- No id and no shape is there twice. -/
structure Registered (rows : List α) : Prop where
  ids : (rows.map id).Nodup
  shapes : (rows.map shape).Nodup

end

variable {id : α → ι} {shape : α → σ} {rows : List α} {r row : α}

theorem eq_of_map_nodup {f : α → β} (h : (rows.map f).Nodup) (hr : r ∈ rows) (hrow : row ∈ rows) (heq : f r = f row) :
    r = row :=
  List.inj_on_of_nodup_map h hr hrow heq

theorem Registered.nil : Registered id shape ([] : List α) := ⟨List.nodup_nil, List.nodup_nil⟩

theorem Registered.eq_of_id (h : Registered id shape rows) (hr : r ∈ rows) (hrow : row ∈ rows) (heq : id r = id row) :
    r = row :=
  eq_of_map_nodup h.ids hr hrow heq

theorem Registered.eq_of_shape (h : Registered id shape rows) (hr : r ∈ rows) (hrow : row ∈ rows)
    (heq : shape r = shape row) : r = row :=
  eq_of_map_nodup h.shapes hr hrow heq

theorem map_concat_nodup {f : α → β} (h : (rows.map f).Nodup) (hnew : ∀ r ∈ rows, f r ≠ f row) :
    ((rows ++ [row]).map f).Nodup := by
  rw [List.map_append, List.map_singleton, List.nodup_append]
  refine ⟨h, List.nodup_singleton _, fun a ha b hb => ?_⟩
  obtain ⟨r, hr, rfl⟩ := List.mem_map.mp ha
  rw [List.mem_singleton.mp hb]
  exact hnew r hr

theorem Registered.insert (h : Registered id shape rows) (hid : ∀ r ∈ rows, id r ≠ id row)
    (hshape : ∀ r ∈ rows, shape r ≠ shape row) : Registered id shape (rows ++ [row]) :=
  ⟨map_concat_nodup h.ids hid, map_concat_nodup h.shapes hshape⟩

/-- Rows rewritten in place: each keeps its id, and shapes that differed still do. -/
theorem Registered.map {f : α → α} (h : Registered id shape rows) (hid : ∀ r ∈ rows, id (f r) = id r)
    (hshape : ∀ r ∈ rows, ∀ s ∈ rows, shape (f r) = shape (f s) → shape r = shape s) :
    Registered id shape (rows.map f) := by
  constructor
  · rw [List.map_map, List.map_congr_left (fun r hr => show (id ∘ f) r = id r from hid r hr)]
    exact h.ids
  · rw [List.map_map]
    exact List.Nodup.map_on (fun r hr s hs heq => h.eq_of_shape hr hs (hshape r hr s hs heq)) (List.Nodup.of_map _ h.ids)

/-! ## At most one row for a key -/

section

variable {f : α → β} {keys : List β}

theorem subperm_of_keys (h : (rows.map f).Nodup) (hkeys : ∀ r ∈ rows, f r ∈ keys) : (rows.map f).Subperm keys := by
  refine h.subperm fun b hb => ?_
  obtain ⟨r, hr, rfl⟩ := List.mem_map.mp hb
  exact hkeys r hr

theorem length_le_of_keys (h : (rows.map f).Nodup) (hkeys : ∀ r ∈ rows, f r ∈ keys) : rows.length ≤ keys.length := by
  simpa using (subperm_of_keys h hkeys).length_le

/-- A sum over the rows is at most that of the keys' bounds. -/
theorem sum_le_of_keys {γ : Type*} [AddCommMonoid γ] [Preorder γ] [AddLeftMono γ] {v : α → γ} {bound : β → γ}
    (h : (rows.map f).Nodup) (hkeys : ∀ r ∈ rows, f r ∈ keys) (hle : ∀ r ∈ rows, v r ≤ bound (f r))
    (hnonneg : ∀ k ∈ keys, 0 ≤ bound k) : (rows.map v).sum ≤ (keys.map bound).sum := by
  obtain ⟨l, hperm, hsub⟩ := subperm_of_keys h hkeys
  calc (rows.map v).sum ≤ (rows.map fun r => bound (f r)).sum := List.sum_le_sum hle
    _ = ((rows.map f).map bound).sum := by rw [List.map_map]; rfl
    _ = (l.map bound).sum := (hperm.map bound).sum_eq.symm
    _ ≤ (keys.map bound).sum := (hsub.map bound).sum_le_sum fun a ha => by
        obtain ⟨k, hk, rfl⟩ := List.mem_map.mp ha
        exact hnonneg k hk

end

end PriceEngine
