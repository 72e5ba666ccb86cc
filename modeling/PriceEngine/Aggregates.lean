import Mathlib.Algebra.BigOperators.Ring.Multiset
import Mathlib.Algebra.Order.BigOperators.Group.Multiset
import Mathlib.Algebra.Order.Field.Basic
import Mathlib.Data.Multiset.Lattice

/-!
# Mergeable aggregates

An aggregate starts accumulators, adds events to them and merges them. A plan
is one way to do so: any tree of additions and merges. When a function of
multisets agrees with the three operations, every plan accumulates that
function of its events, whatever their order and the shape of the tree
(`Summarises.eval_eq`). The rest is what a weighted mean keeps of its values.
-/

namespace PriceEngine

variable {ε σ α : Type*}

structure Aggregate (ε σ : Type*) where
  create : σ
  add : ε → σ → σ
  merge : σ → σ → σ

inductive Plan (ε : Type*) where
  | create
  | add (event : ε) (plan : Plan ε)
  | merge (left right : Plan ε)

def Plan.events : Plan ε → Multiset ε
  | create => 0
  | add event plan => event ::ₘ plan.events
  | merge left right => left.events + right.events

def Aggregate.eval (a : Aggregate ε σ) : Plan ε → σ
  | .create => a.create
  | .add event plan => a.add event (a.eval plan)
  | .merge left right => a.merge (a.eval left) (a.eval right)

structure Aggregate.Summarises (a : Aggregate ε σ) (f : Multiset ε → σ) : Prop where
  create : a.create = f 0
  add : ∀ event s, a.add event (f s) = f (event ::ₘ s)
  merge : ∀ s t, a.merge (f s) (f t) = f (s + t)

theorem Aggregate.Summarises.eval_eq {a : Aggregate ε σ} {f : Multiset ε → σ} (h : a.Summarises f)
    (plan : Plan ε) : a.eval plan = f plan.events := by
  induction plan with
  | create => exact h.create
  | add event plan ih =>
    rw [eval, ih, h.add]
    rfl
  | merge left right ihl ihr =>
    rw [eval, ihl, ihr, h.merge]
    rfl

/-! ## Least and greatest values -/

theorem exists_mem_inf_eq [LinearOrder α] [OrderTop α] {s : Multiset α} (hs : s ≠ 0) :
    ∃ x ∈ s, s.inf = x := by
  induction s using Multiset.induction_on with
  | empty => exact absurd rfl hs
  | cons x s ih =>
    rw [Multiset.inf_cons]
    by_cases h : s = 0
    · exact ⟨x, Multiset.mem_cons_self .., by rw [h, Multiset.inf_zero, inf_top_eq]⟩
    · obtain ⟨y, hy, e⟩ := ih h
      rcases min_choice x s.inf with hx | hx
      · exact ⟨x, Multiset.mem_cons_self .., hx⟩
      · exact ⟨y, Multiset.mem_cons_of_mem hy, hx.trans e⟩

theorem exists_mem_sup_eq [LinearOrder α] [OrderBot α] {s : Multiset α} (hs : s ≠ 0) :
    ∃ x ∈ s, s.sup = x := exists_mem_inf_eq (α := αᵒᵈ) hs

/-! ## Weighted means -/

section
variable {K : Type*} [Field K] [LinearOrder K] [IsStrictOrderedRing K] {value weight : ε → K} {s : Multiset ε}

def weightedMean (value weight : ε → K) (s : Multiset ε) : K :=
  (s.map fun e => value e * weight e).sum / (s.map weight).sum

variable (hweight : ∀ e ∈ s, 0 < weight e) (hs : s ≠ 0) {m : K}
include hweight hs

theorem totalWeight_pos : 0 < (s.map weight).sum := by
  have h := Multiset.sum_lt_sum_of_nonempty (f := fun _ => (0 : K)) hs hweight
  rwa [Multiset.map_const', Multiset.sum_replicate, nsmul_zero] at h

theorem le_weightedMean (h : ∀ e ∈ s, m ≤ value e) : m ≤ weightedMean value weight s := by
  rw [weightedMean, le_div_iff₀ (totalWeight_pos hweight hs), ← Multiset.sum_map_mul_left]
  exact Multiset.sum_map_le_sum_map _ _ fun e he => mul_le_mul_of_nonneg_right (h e he) (hweight e he).le

theorem weightedMean_le (h : ∀ e ∈ s, value e ≤ m) : weightedMean value weight s ≤ m := by
  rw [weightedMean, div_le_iff₀ (totalWeight_pos hweight hs), ← Multiset.sum_map_mul_left]
  exact Multiset.sum_map_le_sum_map _ _ fun e he => mul_le_mul_of_nonneg_right (h e he) (hweight e he).le

/-- A mean is one of its bounds only where every value is. -/
theorem weightedMean_eq_iff (h : ∀ e ∈ s, m ≤ value e) :
    weightedMean value weight s = m ↔ ∀ e ∈ s, value e = m := by
  have hpos := totalWeight_pos hweight hs
  rw [weightedMean, div_eq_iff hpos.ne', ← Multiset.sum_map_mul_left]
  constructor
  · intro heq
    by_contra hne
    simp only [not_forall] at hne
    obtain ⟨e, he, hne⟩ := hne
    have hlt : m * weight e < value e * weight e :=
      mul_lt_mul_of_pos_right (lt_of_le_of_ne (h e he) (Ne.symm hne)) (hweight e he)
    have hle : ∀ e ∈ s, m * weight e ≤ value e * weight e := fun e he =>
      mul_le_mul_of_nonneg_right (h e he) (hweight e he).le
    exact (Multiset.sum_lt_sum hle ⟨e, he, hlt⟩).ne' heq
  · intro hall
    refine congrArg _ (Multiset.map_congr rfl fun e he => ?_)
    rw [hall e he]

end

end PriceEngine
