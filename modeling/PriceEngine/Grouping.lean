import Mathlib.Algebra.BigOperators.Group.List.Basic
import Mathlib.Data.List.Dedup
import Mathlib.Data.List.Perm.Basic

/-!
# One representative for each group

A list is grouped by a key, and each group is represented by its first element
(`firstWith`). What is read off the representatives does not depend on the order
of the list exactly where each group agrees on it (`Agree`); and a sum over the
representatives falls short of the sum over the distinct elements by those that
do not lead their group (`sum_representatives`).
-/

namespace PriceEngine

variable {α κ β M : Type*} [DecidableEq κ] {key : α → κ}

/-- The keys in the order of first appearance. -/
def groupKeys (key : α → κ) (l : List α) : List κ := (l.map key).eraseDups

def firstWith (key : α → κ) (k : κ) (l : List α) : Option α := l.find? fun x => key x == k

/-! ## Keys -/

theorem eraseDups_nodup : ∀ l : List κ, l.eraseDups.Nodup
  | [] => List.nodup_nil
  | a :: as => by
    rw [List.eraseDups_cons]
    exact List.nodup_cons.mpr ⟨by simp, eraseDups_nodup _⟩
  termination_by l => l.length
  decreasing_by exact Nat.lt_succ_of_le (List.length_filter_le _ _)

theorem groupKeys_nodup (key : α → κ) (l : List α) : (groupKeys key l).Nodup := eraseDups_nodup _

theorem mem_groupKeys {l : List α} {k : κ} : k ∈ groupKeys key l ↔ ∃ x ∈ l, key x = k := by
  rw [groupKeys, List.mem_eraseDups, List.mem_map]

theorem groupKeys_perm {l m : List α} (h : l.Perm m) : (groupKeys key l).Perm (groupKeys key m) := by
  refine (List.perm_ext_iff_of_nodup (groupKeys_nodup ..) (groupKeys_nodup ..)).mpr fun k => ?_
  simp only [mem_groupKeys, h.mem_iff]

omit [DecidableEq κ] in
theorem map_filterMap_eq_filter {f : κ → Option α} (h : ∀ k x, f k = some x → key x = k) {K : List κ} :
    (K.filterMap f).map key = K.filter fun k => (f k).isSome := by
  induction K with
  | nil => rfl
  | cons k K ih =>
    cases hk : f k with
    | none => rw [List.filterMap_cons_none hk, ih, List.filter_cons_of_neg (by simp [hk])]
    | some x => rw [List.filterMap_cons_some hk, List.map_cons, ih, List.filter_cons_of_pos (by simp [hk]), h k x hk]

/-- Where no two elements share a key, a key picks out its element. -/
theorem filter_key_eq_singleton {l : List α} (hl : (l.map key).Nodup) {x : α} (hx : x ∈ l) :
    l.filter (fun y => key y == key x) = [x] := by
  induction l with
  | nil => cases hx
  | cons y l ih =>
    obtain ⟨hy, hl⟩ := List.nodup_cons.mp hl
    rcases List.mem_cons.mp hx with rfl | hx
    · rw [List.filter_cons_of_pos (by simp), List.filter_eq_nil_iff.mpr]
      intro z hz hkey
      exact hy (beq_iff_eq.mp hkey ▸ List.mem_map_of_mem hz)
    · have hne : key y ≠ key x := fun h => hy (h ▸ List.mem_map_of_mem hx)
      rw [List.filter_cons_of_neg (by simpa using hne), ih hl hx]

/-! ## Representatives -/

theorem firstWith_mem {l : List α} {k : κ} {x : α} (h : firstWith key k l = some x) : x ∈ l ∧ key x = k :=
  ⟨List.mem_of_find?_eq_some h, by simpa using List.find?_some h⟩

theorem firstWith_isSome {l : List α} {k : κ} : (firstWith key k l).isSome ↔ ∃ x ∈ l, key x = k := by
  simp [firstWith, List.find?_isSome]

theorem firstWith_cons_self (key : α → κ) (x : α) (l : List α) : firstWith key (key x) (x :: l) = some x := by
  simp [firstWith]

def Agree (key : α → κ) (f : α → β) (k : κ) (l : List α) : Prop :=
  ∀ x ∈ l, ∀ y ∈ l, key x = k → key y = k → f x = f y

theorem firstWith_map_perm {f : α → β} {k : κ} {l m : List α} (h : l.Perm m) (hagree : Agree key f k l) :
    (firstWith key k l).map f = (firstWith key k m).map f := by
  cases hl : firstWith key k l with
  | none =>
    have hm : firstWith key k m = none := by
      rw [← Option.not_isSome_iff_eq_none, firstWith_isSome]
      have hnone := Option.not_isSome_iff_eq_none.mpr hl
      rw [firstWith_isSome] at hnone
      simpa only [h.mem_iff] using hnone
    rw [hm]
  | some x =>
    obtain ⟨hx, hkx⟩ := firstWith_mem hl
    obtain ⟨y, hy⟩ := Option.isSome_iff_exists.mp (firstWith_isSome.mpr ⟨x, h.mem_iff.mp hx, hkx⟩)
    obtain ⟨hym, hky⟩ := firstWith_mem hy
    rw [hy, Option.map_some, Option.map_some, hagree x hx y (h.mem_iff.mpr hym) hkx hky]

theorem exists_perm_cons {l : List α} {x : α} (hx : x ∈ l) : ∃ m, l.Perm (x :: m) := by
  obtain ⟨s, t, rfl⟩ := List.append_of_mem hx
  exact ⟨s ++ t, List.perm_middle⟩

/-! ## Sums -/

variable [DecidableEq α] [AddCommMonoid M]

omit [DecidableEq α] in
theorem sum_filter_add_sum_filter_not (f : α → M) (p : α → Bool) (l : List α) :
    ((l.filter p).map f).sum + ((l.filter (!p ·)).map f).sum = (l.map f).sum := by
  rw [← List.sum_append, ← List.map_append]
  exact ((List.filter_append_perm p l).map f).sum_eq

/-- The element represents its group. -/
def leads (key : α → κ) (l : List α) (x : α) : Bool := firstWith key (key x) l == some x

/-- The distinct elements that another one of their group comes before. -/
def overlooked (key : α → κ) (l : List α) : List α := l.dedup.filter fun x => !leads key l x

theorem representatives_perm (key : α → κ) (l : List α) :
    ((groupKeys key l).filterMap (firstWith key · l)).Perm (l.dedup.filter (leads key l)) := by
  refine (List.perm_ext_iff_of_nodup ?_ (l.nodup_dedup.filter _)).mpr fun x => ?_
  · refine (groupKeys_nodup key l).filterMap fun k k' x hk hk' => ?_
    rw [← (firstWith_mem hk).2, ← (firstWith_mem hk').2]
  · rw [List.mem_filterMap, List.mem_filter, List.mem_dedup, leads, beq_iff_eq]
    constructor
    · intro ⟨k, _, hk⟩
      obtain ⟨hx, rfl⟩ := firstWith_mem hk
      exact ⟨hx, hk⟩
    · intro ⟨hx, hk⟩
      exact ⟨key x, mem_groupKeys.mpr ⟨x, hx, rfl⟩, hk⟩

theorem sum_representatives (key : α → κ) (w : α → M) (l : List α) :
    (((groupKeys key l).filterMap (firstWith key · l)).map w).sum + ((overlooked key l).map w).sum =
      (l.dedup.map w).sum := by
  rw [((representatives_perm key l).map w).sum_eq, overlooked, ← List.sum_append, ← List.map_append]
  exact ((List.filter_append_perm _ _).map w).sum_eq

/-! ## Sums over the keys -/

variable (key) in
omit [DecidableEq α] in
/-- Summing group by group, over the keys listed, is summing the elements with these keys. -/
theorem sum_keys {K : List κ} (hK : K.Nodup) (w : α → M) (l : List α) :
    (K.map fun k => ((l.filter fun x => key x == k).map w).sum).sum =
      ((l.filter fun x => K.contains (key x)).map w).sum := by
  induction K with
  | nil => simp
  | cons k K ih =>
    obtain ⟨hk, hK⟩ := List.nodup_cons.mp hK
    rw [List.map_cons, List.sum_cons, ih hK,
      ← sum_filter_add_sum_filter_not w (fun x => key x == k) (l.filter fun x => (k :: K).contains (key x)),
      List.filter_filter, List.filter_filter]
    congr 3 <;> refine List.filter_congr fun x _ => ?_
    · by_cases hx : key x = k <;> simp [hx]
    · by_cases hx : key x = k
      · simp [hx, hk]
      · simp [hx]

end PriceEngine
