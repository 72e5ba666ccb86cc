import Mathlib.Data.List.Basic
import Mathlib.Data.List.Induction
import Mathlib.Data.List.Nodup
import Mathlib.Data.Option.Basic

/-!
# Insertion-ordered dictionaries

A `Dict` is a list of entries with distinct keys. `put` on a present key keeps
its place, on a new key appends; `removeWhere` drops every key that satisfies a
test. `get?_put`, `get?_remove` and `get?_removeWhere` say what each operation
does to every key, and `mem_entries` turns iteration into lookup.
-/

namespace PriceEngine

structure Dict (K V : Type*) where
  entries : List (K × V)
  nodup : (entries.map Prod.fst).Nodup

namespace Dict

variable {K V : Type*}

def empty : Dict K V := ⟨[], List.nodup_nil⟩

def keys (d : Dict K V) : List K := d.entries.map Prod.fst

def values (d : Dict K V) : List V := d.entries.map Prod.snd

def size (d : Dict K V) : ℕ := d.entries.length

theorem ext {d e : Dict K V} (h : d.entries = e.entries) : d = e := by
  cases d; cases e; simp_all

def removeWhere (p : K → Bool) (d : Dict K V) : Dict K V :=
  ⟨d.entries.filter fun e => !p e.1, d.nodup.sublist (List.filter_sublist.map _)⟩

def filterValues (p : V → Bool) (d : Dict K V) : Dict K V :=
  ⟨d.entries.filter fun e => p e.2, d.nodup.sublist (List.filter_sublist.map _)⟩

def mapValues {W : Type*} (f : V → W) (d : Dict K V) : Dict K W :=
  ⟨d.entries.map fun e => (e.1, f e.2), by rw [List.map_map]; exact d.nodup⟩

variable [DecidableEq K]

instance [DecidableEq V] : DecidableEq (Dict K V) := fun d e =>
  decidable_of_iff (d.entries = e.entries) ⟨ext, fun h => by rw [h]⟩

def get? (d : Dict K V) (k : K) : Option V := d.entries.lookup k

def remove (k : K) (d : Dict K V) : Dict K V := d.removeWhere (· == k)

def set (k : K) (v : V) (e : K × V) : K × V := if e.1 = k then (k, v) else e

omit [DecidableEq K] in
theorem map_fst_nodup_append {l : List (K × V)} {k : K} (hl : (l.map Prod.fst).Nodup)
    (hk : k ∉ l.map Prod.fst) (v : V) : ((l ++ [(k, v)]).map Prod.fst).Nodup := by
  simp only [List.map_append, List.map_cons, List.map_nil]
  exact List.nodup_append.mpr ⟨hl, List.nodup_singleton _, fun a ha b hb e => by
    rw [List.mem_singleton] at hb; subst hb; subst e; exact hk ha⟩

theorem map_fst_set (k : K) (v : V) (l : List (K × V)) :
    (l.map (set k v)).map Prod.fst = l.map Prod.fst := by
  rw [List.map_map]
  apply List.map_congr_left
  intro e _
  by_cases h : e.1 = k <;> simp [set, h]

def put (k : K) (v : V) (d : Dict K V) : Dict K V :=
  if h : k ∈ d.keys then ⟨d.entries.map (set k v), by rw [map_fst_set]; exact d.nodup⟩
  else ⟨d.entries ++ [(k, v)], map_fst_nodup_append d.nodup h v⟩

/-! ## Lookup and iteration -/

theorem mem_entries {d : Dict K V} {k : K} {v : V} : (k, v) ∈ d.entries ↔ d.get? k = some v := by
  obtain ⟨l, hl⟩ := d
  unfold get?
  induction l with
  | nil => simp
  | cons e l ih =>
    simp only [List.map_cons, List.nodup_cons] at hl
    rw [List.mem_cons, List.lookup_cons]
    by_cases h : k = e.1
    · subst h
      have : (e.1, v) ∉ l := fun hm => hl.1 (List.mem_map.mpr ⟨_, hm, rfl⟩)
      simp [this, Prod.ext_iff, eq_comm]
    · have : ¬ (k, v) = e := fun he => h (by rw [← he])
      have hb : (k == e.1) = false := by simpa using h
      rw [hb]
      simpa [this] using ih hl.2

theorem get?_cons {e : K × V} {l : List (K × V)} (h : ((e :: l).map Prod.fst).Nodup) (k : K) :
    (⟨e :: l, h⟩ : Dict K V).get? k =
      if k = e.1 then some e.2 else (⟨l, (List.nodup_cons.mp h).2⟩ : Dict K V).get? k := by
  unfold get?
  rw [List.lookup_cons]
  by_cases hk : k = e.1
  · rw [if_pos hk, beq_iff_eq.mpr hk]
  · rw [if_neg hk, beq_eq_false_iff_ne.mpr hk]

theorem mem_keys {d : Dict K V} {k : K} : k ∈ d.keys ↔ ∃ v, d.get? k = some v := by
  unfold keys
  refine ⟨?_, ?_⟩
  · intro h
    obtain ⟨⟨k', v⟩, he, rfl⟩ := List.mem_map.mp h
    exact ⟨v, mem_entries.mp he⟩
  · intro ⟨v, hv⟩
    exact List.mem_map.mpr ⟨(k, v), mem_entries.mpr hv, rfl⟩

theorem get?_eq_none {d : Dict K V} {k : K} : d.get? k = none ↔ k ∉ d.keys := by
  rw [mem_keys, Option.eq_none_iff_forall_ne_some]
  simp

theorem mem_keys_iff_isSome {d : Dict K V} {k : K} : k ∈ d.keys ↔ (d.get? k).isSome := by
  rw [mem_keys, Option.isSome_iff_exists]

theorem mem_values {d : Dict K V} {v : V} : v ∈ d.values ↔ ∃ k, d.get? k = some v := by
  unfold values
  refine ⟨?_, ?_⟩
  · intro h
    obtain ⟨⟨k, v'⟩, he, rfl⟩ := List.mem_map.mp h
    exact ⟨k, mem_entries.mp he⟩
  · intro ⟨k, hk⟩
    exact List.mem_map.mpr ⟨(k, v), mem_entries.mpr hk, rfl⟩

omit [DecidableEq K] in
theorem keys_nodup (d : Dict K V) : d.keys.Nodup := d.nodup

omit [DecidableEq K] in
theorem keys_length (d : Dict K V) : d.keys.length = d.size := by simp [keys, size]

@[simp] theorem get?_empty (k : K) : (empty : Dict K V).get? k = none := rfl

omit [DecidableEq K] in
@[simp] theorem keys_empty : (empty : Dict K V).keys = [] := rfl

omit [DecidableEq K] in
@[simp] theorem size_empty : (empty : Dict K V).size = 0 := rfl

omit [DecidableEq K] in
@[simp] theorem entries_empty : (empty : Dict K V).entries = [] := rfl

/-! ## Updates -/

theorem mem_put {d : Dict K V} {k k' : K} {v v' : V} :
    (k', v') ∈ (d.put k v).entries ↔ if k' = k then v' = v else (k', v') ∈ d.entries := by
  unfold put
  split
  · rename_i h
    simp only [List.mem_map]
    by_cases hk : k' = k
    · subst hk
      simp only [ite_true]
      refine ⟨?_, ?_⟩
      · intro ⟨e, _, he⟩
        by_cases h1 : e.1 = k'
        · simp [set, h1] at he; exact he.symm
        · simp [set, h1] at he; exact absurd (by rw [he]) h1
      · intro h; subst h
        obtain ⟨e, he, hk⟩ := List.mem_map.mp h
        exact ⟨e, he, by simp [set, hk]⟩
    · simp only [if_neg hk]
      refine ⟨?_, ?_⟩
      · intro ⟨e, he, hs⟩
        by_cases h1 : e.1 = k
        · simp [set, h1] at hs; exact absurd hs.1.symm hk
        · simp [set, h1] at hs; exact hs ▸ he
      · intro he
        exact ⟨_, he, by simp [set, hk]⟩
  · rename_i h
    rw [List.mem_append, List.mem_singleton, Prod.mk.injEq]
    by_cases hk : k' = k
    · subst hk
      have : (k', v') ∉ d.entries := fun hm => h (List.mem_map.mpr ⟨_, hm, rfl⟩)
      simp [this]
    · simp [hk]

theorem get?_put (d : Dict K V) (k k' : K) (v : V) :
    (d.put k v).get? k' = if k' = k then some v else d.get? k' := by
  apply Option.ext
  intro w
  rw [← mem_entries, mem_put]
  by_cases h : k' = k
  · simp [h, eq_comm]
  · simp [h, mem_entries]

@[simp] theorem get?_put_self (d : Dict K V) (k : K) (v : V) : (d.put k v).get? k = some v := by
  rw [get?_put, if_pos rfl]

theorem get?_put_ne (d : Dict K V) {k k' : K} (h : k' ≠ k) (v : V) :
    (d.put k v).get? k' = d.get? k' := by
  rw [get?_put, if_neg h]

theorem get?_removeWhere (d : Dict K V) (p : K → Bool) (k : K) :
    (d.removeWhere p).get? k = if p k then none else d.get? k := by
  apply Option.ext
  intro w
  rw [← mem_entries]
  by_cases h : p k = true <;> simp [removeWhere, h, mem_entries]

theorem get?_remove (d : Dict K V) (k k' : K) :
    (d.remove k).get? k' = if k' = k then none else d.get? k' := by
  rw [remove, get?_removeWhere]
  simp

@[simp] theorem get?_remove_self (d : Dict K V) (k : K) : (d.remove k).get? k = none := by
  rw [get?_remove, if_pos rfl]

/-- After a sequence of upserts each key has its last one. -/
theorem get?_foldl_put {α : Type*} (key : α → K) (value : α → V) (l : List α) (k : K) :
    (l.foldl (fun d x => d.put (key x) (value x)) empty).get? k =
      (l.reverse.find? fun x => key x == k).map value := by
  induction l using List.reverseRecOn with
  | nil => rfl
  | append_singleton l x ih =>
    rw [List.foldl_concat, get?_put, List.reverse_concat, List.find?_cons]
    by_cases h : k = key x
    · rw [if_pos h, beq_iff_eq.mpr h.symm]
      rfl
    · rw [if_neg h, beq_eq_false_iff_ne.mpr (Ne.symm h)]
      exact ih

/-- Upserts of one key that all carry one value leave that value. -/
theorem get?_foldl_put_of_forall {α : Type*} (key : α → K) (value : α → V) {l : List α} {x : α} (hx : x ∈ l)
    (hsame : ∀ y ∈ l, key y = key x → value y = value x) :
    (l.foldl (fun d x => d.put (key x) (value x)) empty).get? (key x) = some (value x) := by
  rw [get?_foldl_put]
  cases hfind : l.reverse.find? fun y => key y == key x with
  | none =>
    have hno := List.find?_eq_none.mp hfind x (List.mem_reverse.mpr hx)
    simp at hno
  | some y =>
    have hy := List.mem_reverse.mp (List.mem_of_find?_eq_some hfind)
    have hkey : key y = key x := by simpa using List.find?_some hfind
    rw [Option.map_some, hsame y hy hkey]

theorem mem_keys_put {d : Dict K V} {k k' : K} {v : V} : k' ∈ (d.put k v).keys ↔ k' = k ∨ k' ∈ d.keys := by
  rw [mem_keys_iff_isSome, get?_put, mem_keys_iff_isSome]
  by_cases h : k' = k <;> simp [h]

omit [DecidableEq K] in
theorem removeWhere_eq_self {d : Dict K V} {p : K → Bool} (h : ∀ k ∈ d.keys, p k = false) :
    d.removeWhere p = d := by
  apply ext
  simp only [removeWhere, List.filter_eq_self]
  intro e he
  simp [h e.1 (List.mem_map.mpr ⟨e, he, rfl⟩)]

omit [DecidableEq K] in
theorem removeWhere_removeWhere (d : Dict K V) (p q : K → Bool) :
    (d.removeWhere p).removeWhere q = d.removeWhere fun k => p k || q k := by
  apply ext
  simp only [removeWhere, List.filter_filter, Bool.not_or]
  exact List.filter_congr fun e _ => Bool.and_comm _ _

theorem put_eq_self {d : Dict K V} {k : K} {v : V} (h : d.get? k = some v) : d.put k v = d := by
  have hk : k ∈ d.keys := mem_keys.mpr ⟨v, h⟩
  apply ext
  simp only [put, dif_pos hk]
  conv => rhs; rw [← List.map_id d.entries]
  apply List.map_congr_left
  intro e he
  by_cases hs : e.1 = k
  · have : (k, e.2) ∈ d.entries := by rw [← hs]; exact he
    rw [mem_entries, h] at this
    have hv : v = e.2 := Option.some.inj this
    simp [set, hs, hv, Prod.ext_iff]
  · simp [set, hs]

omit [DecidableEq K] in
theorem values_filterValues (p : V → Bool) (d : Dict K V) :
    (d.filterValues p).values = d.values.filter p := by
  simp only [filterValues, values, List.filter_map]
  rfl

omit [DecidableEq K] in
theorem filterValues_eq_self {p : V → Bool} {d : Dict K V} (h : ∀ v ∈ d.values, p v = true) :
    d.filterValues p = d :=
  ext (List.filter_eq_self.mpr fun _ he => h _ (List.mem_map_of_mem he))

omit [DecidableEq K] in
theorem filterValues_congr {p q : V → Bool} {d : Dict K V} (h : ∀ v ∈ d.values, p v = q v) :
    d.filterValues p = d.filterValues q :=
  ext (List.filter_congr fun _ he => h _ (List.mem_map_of_mem he))

theorem entries_put_of_none {d : Dict K V} {k : K} (h : d.get? k = none) (v : V) :
    (d.put k v).entries = d.entries ++ [(k, v)] := by
  rw [put, dif_neg (get?_eq_none.mp h)]

theorem values_put_of_none {d : Dict K V} {k : K} (h : d.get? k = none) (v : V) :
    (d.put k v).values = d.values ++ [v] := by
  rw [values, entries_put_of_none h, List.map_append]
  rfl

theorem filterValues_put_of_none {p : V → Bool} {d : Dict K V} {k : K} {v : V} (h : d.get? k = none)
    (hv : p v = false) : (d.put k v).filterValues p = d.filterValues p := by
  apply ext
  simp only [filterValues, entries_put_of_none h, List.filter_append]
  simp [hv]

theorem get?_filterValues {p : V → Bool} {d : Dict K V} {k : K} {v : V} :
    (d.filterValues p).get? k = some v ↔ d.get? k = some v ∧ p v = true := by
  rw [← mem_entries, ← mem_entries]
  exact List.mem_filter

theorem filter_entries_put {q : V → Bool} {d : Dict K V} {k : K} {v w : V} (h : d.get? k = some w)
    (hw : q w = q v) :
    ((d.put k v).entries.filter fun e => q e.2) = (d.entries.filter fun e => q e.2).map (set k v) := by
  have hin : k ∈ d.keys := mem_keys.mpr ⟨w, h⟩
  rw [put, dif_pos hin, List.filter_map]
  refine congrArg _ (List.filter_congr fun e he => ?_)
  by_cases hk : e.1 = k
  · have hmem : (k, e.2) ∈ d.entries := hk ▸ he
    rw [mem_entries, h] at hmem
    simp [set, hk, ← hw, Option.some.inj hmem]
  · simp [set, hk]

/-- What the second test keeps is not lost to the first. -/
theorem filterValues_put_filterValues {p q : V → Bool} {d : Dict K V} {k : K} {v : V}
    (hpq : ∀ w ∈ d.values, q w = true → p w = true) (hk : ∀ w, d.get? k = some w → q w = q v) :
    ((d.filterValues p).put k v).filterValues q = (d.put k v).filterValues q := by
  have hfilter : ((d.filterValues p).entries.filter fun e => q e.2) = d.entries.filter fun e => q e.2 := by
    rw [filterValues, List.filter_filter]
    exact List.filter_congr fun e he =>
      Bool.and_eq_left_iff_imp.mpr fun hq => hpq _ (List.mem_map_of_mem he) hq
  apply ext
  change (((d.filterValues p).put k v).entries.filter fun e => q e.2) = (d.put k v).entries.filter fun e => q e.2
  cases hget : d.get? k with
  | none =>
    have hnone : (d.filterValues p).get? k = none :=
      Option.eq_none_iff_forall_ne_some.mpr fun w hw => by
        rw [get?_filterValues, hget] at hw; cases hw.1
    rw [entries_put_of_none hnone, entries_put_of_none hget, List.filter_append, List.filter_append,
      hfilter]
  | some w =>
    have hw : q w = q v := hk w hget
    rw [filter_entries_put hget hw, ← hfilter]
    by_cases hp : p w = true
    · exact filter_entries_put (get?_filterValues.mpr ⟨hget, hp⟩) hw
    · have hv : q v = false := by
        rw [← hw]
        exact Bool.eq_false_iff.mpr fun hq => hp (hpq w (mem_values.mpr ⟨k, hget⟩) hq)
      have hnone : (d.filterValues p).get? k = none :=
        Option.eq_none_iff_forall_ne_some.mpr fun x hx => by
          rw [get?_filterValues, hget] at hx
          exact hp (Option.some.inj hx.1 ▸ hx.2)
      rw [entries_put_of_none hnone, List.filter_append, List.filter_cons_of_neg (by simpa using hv),
        List.filter_nil, List.append_nil]
      refine ((List.map_congr_left fun e he => ?_).trans (List.map_id _)).symm
      obtain ⟨he, hq⟩ := List.mem_filter.mp he
      have hne : e.1 ≠ k := by
        rintro rfl
        obtain ⟨he, hpe⟩ := List.mem_filter.mp he
        rw [show e = (e.1, e.2) from rfl, mem_entries, hget] at he
        exact hp (Option.some.inj he ▸ hpe)
      simp [set, hne]

theorem get?_mapValues {W : Type*} (f : V → W) (d : Dict K V) (k : K) :
    (d.mapValues f).get? k = (d.get? k).map f := by
  apply Option.ext
  intro w
  rw [← mem_entries, Option.map_eq_some_iff]
  simp only [mapValues, List.mem_map, Prod.mk.injEq, Prod.exists]
  refine ⟨?_, ?_⟩
  · intro hex
    obtain ⟨k', v, hm, rfl, rfl⟩ := hex
    exact ⟨v, mem_entries.mp hm, rfl⟩
  · intro hex
    obtain ⟨v, hv, rfl⟩ := hex
    exact ⟨k, v, mem_entries.mpr hv, rfl, rfl⟩

omit [DecidableEq K] in
theorem keys_mapValues {W : Type*} (f : V → W) (d : Dict K V) : (d.mapValues f).keys = d.keys := by
  simp [mapValues, keys]

/-! ## Size -/

theorem size_put (d : Dict K V) (k : K) (v : V) :
    (d.put k v).size = d.size + if (d.get? k).isSome then 0 else 1 := by
  by_cases h : k ∈ d.keys
  · simp [put, size, h, mem_keys_iff_isSome.mp h]
  · simp [put, size, h, get?_eq_none.mpr h]

theorem size_put_le (d : Dict K V) (k : K) (v : V) : (d.put k v).size ≤ d.size + 1 := by
  rw [size_put]
  split <;> omega

theorem size_put_of_mem {d : Dict K V} {k : K} (h : k ∈ d.keys) (v : V) : (d.put k v).size = d.size := by
  rw [size_put, if_pos (mem_keys_iff_isSome.mp h), Nat.add_zero]

theorem size_remove (d : Dict K V) {k : K} (h : k ∈ d.keys) : (d.remove k).size + 1 = d.size := by
  have hk : (d.remove k).keys = d.keys.erase k := by
    rw [d.keys_nodup.erase_eq_filter]
    unfold remove removeWhere keys
    rw [List.filter_map]
    rfl
  rw [← keys_length, hk, ← keys_length, List.length_erase_of_mem h]
  have : 0 < d.keys.length := List.length_pos_of_mem h
  omega

/-! ## Values under an invariant -/

def All (P : K → V → Prop) (d : Dict K V) : Prop := ∀ k v, d.get? k = some v → P k v

theorem all_empty (P : K → V → Prop) : All P empty := fun _ _ h => by cases h

theorem All.put {P : K → V → Prop} {d : Dict K V} (h : All P d) {k : K} {v : V} (hv : P k v) :
    All P (d.put k v) := by
  intro k' v' hk
  rw [get?_put] at hk
  by_cases e : k' = k
  · subst e; rw [if_pos rfl] at hk; cases hk; exact hv
  · rw [if_neg e] at hk; exact h k' v' hk

end Dict

end PriceEngine
