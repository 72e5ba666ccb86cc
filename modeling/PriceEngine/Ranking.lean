import Mathlib.Data.List.Dedup
import Mathlib.Data.List.Nodup
import Mathlib.Order.Lattice

/-!
# The greatest row of each key

`greatestOfEach` is `row_number() over (partition by key order by order desc) = 1`,
and `maxOn?` is `order by order desc limit 1`. Among rows that are equally great
the order of the scan decides; a row that is greater than the others of its key is
kept by every scan (`mem_greatestOfEach_of_lt`).
-/

namespace PriceEngine

variable {α κ ο : Type*} [DecidableEq κ] [LinearOrder ο]

def greatestOfEach (key : α → κ) (order : α → ο) (rows : List α) : List α :=
  (rows.map key).dedup.filterMap fun k => (rows.filter fun r => key r = k).maxOn? order

section
variable {key : α → κ} {order : α → ο} {rows : List α} {r r' : α}

omit [DecidableEq κ] in
theorem maxOn?_isSome {l : List α} (hr : r ∈ l) : ∃ greatest, l.maxOn? order = some greatest :=
  Option.isSome_iff_exists.mp (List.isSome_maxOn?_of_mem hr)

omit [DecidableEq κ] in
theorem le_of_maxOn? {l : List α} (h : l.maxOn? order = some r) (hr' : r' ∈ l) : order r' ≤ order r := by
  have hle := List.le_apply_get_maxOn?_of_mem (f := order) hr'
  simpa only [h, Option.get_some] using hle

omit [DecidableEq κ] in
theorem maxOn?_eq_of_lt {l : List α} (hr : r ∈ l) (h : ∀ r' ∈ l, r' ≠ r → order r' < order r) :
    l.maxOn? order = some r := by
  obtain ⟨greatest, hgreatest⟩ : ∃ greatest, l.maxOn? order = some greatest := maxOn?_isSome hr
  by_cases heq : greatest = r
  · rw [hgreatest, heq]
  · have hlt := h greatest (List.maxOn?_mem hgreatest) heq
    exact absurd (le_of_maxOn? hgreatest hr) (not_le.mpr hlt)

theorem mem_greatestOfEach :
    r ∈ greatestOfEach key order rows ↔ (rows.filter fun r' => key r' = key r).maxOn? order = some r := by
  rw [greatestOfEach, List.mem_filterMap]
  constructor
  · rintro ⟨k, -, hk⟩
    have hkey : key r = k := of_decide_eq_true (List.mem_filter.mp (List.maxOn?_mem hk)).2
    rw [hkey]
    exact hk
  · intro h
    have hr := List.mem_of_mem_filter (List.maxOn?_mem h)
    exact ⟨key r, List.mem_dedup.mpr (List.mem_map_of_mem hr), h⟩

theorem mem_of_mem_greatestOfEach (h : r ∈ greatestOfEach key order rows) : r ∈ rows :=
  List.mem_of_mem_filter (List.maxOn?_mem (mem_greatestOfEach.mp h))

theorem le_of_mem_greatestOfEach (h : r ∈ greatestOfEach key order rows) (hr' : r' ∈ rows) (hkey : key r' = key r) :
    order r' ≤ order r :=
  le_of_maxOn? (mem_greatestOfEach.mp h) (List.mem_filter.mpr ⟨hr', decide_eq_true hkey⟩)

theorem exists_mem_greatestOfEach (hr : r ∈ rows) : ∃ r' ∈ greatestOfEach key order rows, key r' = key r := by
  have hmem : r ∈ rows.filter fun r' => key r' = key r := List.mem_filter.mpr ⟨hr, decide_eq_true rfl⟩
  obtain ⟨greatest, hgreatest⟩ : ∃ greatest, List.maxOn? order _ = some greatest := maxOn?_isSome hmem
  have hkey : key greatest = key r := of_decide_eq_true (List.mem_filter.mp (List.maxOn?_mem hgreatest)).2
  refine ⟨greatest, mem_greatestOfEach.mpr ?_, hkey⟩
  rw [hkey]
  exact hgreatest

theorem mem_greatestOfEach_of_lt (hr : r ∈ rows)
    (h : ∀ r' ∈ rows, key r' = key r → r' ≠ r → order r' < order r) : r ∈ greatestOfEach key order rows := by
  refine mem_greatestOfEach.mpr (maxOn?_eq_of_lt (List.mem_filter.mpr ⟨hr, decide_eq_true rfl⟩) fun r' hr' hne => ?_)
  obtain ⟨hmem, hkey⟩ := List.mem_filter.mp hr'
  exact h r' hmem (of_decide_eq_true hkey) hne

/-- No key has two rows. -/
theorem nodup_keys_greatestOfEach : ((greatestOfEach key order rows).map key).Nodup := by
  have hkeys : (greatestOfEach key order rows).map key = (rows.map key).dedup := by
    rw [greatestOfEach, List.map_filterMap]
    conv_rhs => rw [← List.filterMap_some (l := (rows.map key).dedup)]
    refine List.filterMap_congr fun k hk => ?_
    obtain ⟨r, hr, rfl⟩ := List.mem_map.mp (List.mem_dedup.mp hk)
    have hmem : r ∈ rows.filter fun r' => key r' = key r := List.mem_filter.mpr ⟨hr, decide_eq_true rfl⟩
    obtain ⟨greatest, hgreatest⟩ : ∃ greatest, List.maxOn? order _ = some greatest := maxOn?_isSome hmem
    rw [hgreatest, Option.map_some]
    exact congrArg some (of_decide_eq_true (List.mem_filter.mp (List.maxOn?_mem hgreatest)).2)
  rw [hkeys]
  exact List.nodup_dedup _

end

end PriceEngine
