import Mathlib.Data.List.Chain
import Mathlib.Data.List.Count
import Mathlib.Data.List.Nodup
import Mathlib.Data.List.Perm.Basic

/-!
# Batches sent again

A round sends a list of items; each of them is acknowledged or fails with an
error. The next round sends the failed ones, in their order, until a round is
the last: `Resends items rounds left`, where `left` failed in the last. The
items are those acknowledged in some round and those left (`Resends.perm`), and
of distinct items none is sent in a round after the one that acknowledged it
(`Resends.never_again`).
-/

namespace PriceEngine

/-- The items of a round, each with its error, or `none` where it is acknowledged. -/
abbrev Round (ι ε : Type*) := List (ι × Option ε)

variable {ι ε : Type*}

namespace Round

def items (r : Round ι ε) : List ι := r.map Prod.fst

def acknowledged (r : Round ι ε) : List ι := r.filterMap fun e => if e.2.isSome then none else some e.1

def failed (r : Round ι ε) : List (ι × ε) := r.filterMap fun e => e.2.map fun err => (e.1, err)

end Round

inductive Resends : List ι → List (Round ι ε) → List (ι × ε) → Prop
  | nil : Resends [] [] []
  | last (r : Round ι ε) : Resends r.items [r] r.failed
  | next {r r' : Round ι ε} {rs : List (Round ι ε)} {left : List (ι × ε)} :
    Resends (r.failed.map Prod.fst) (r' :: rs) left → Resends r.items (r :: r' :: rs) left

/-! ## One round -/

namespace Round
variable {r : Round ι ε} {x : ι}

theorem acknowledged_cons (e : ι × Option ε) (r : Round ι ε) :
    acknowledged (e :: r) = if e.2.isSome then acknowledged r else e.1 :: acknowledged r := by
  unfold acknowledged
  rw [List.filterMap_cons]
  by_cases h : e.2.isSome <;> simp [h]

theorem failed_cons (e : ι × Option ε) (r : Round ι ε) :
    failed (e :: r) = (e.2.map fun err => (e.1, err)).toList ++ failed r := by
  unfold failed
  rw [List.filterMap_cons]
  cases e.2 <;> rfl

theorem items_perm : ∀ r : Round ι ε, r.items.Perm (r.acknowledged ++ r.failed.map Prod.fst)
  | [] => .nil
  | (x, none) :: r => by
    rw [acknowledged_cons, failed_cons]
    exact (items_perm r).cons x
  | (x, some err) :: r => by
    rw [acknowledged_cons, failed_cons]
    exact ((items_perm r).cons x).trans List.perm_middle.symm

theorem failed_sublist : ∀ r : Round ι ε, (r.failed.map Prod.fst).Sublist r.items
  | [] => .slnil
  | (x, none) :: r => by rw [failed_cons]; exact (failed_sublist r).cons x
  | (x, some err) :: r => by rw [failed_cons]; exact (failed_sublist r).cons_cons x

theorem notMem_failed (hnd : r.items.Nodup) (hx : x ∈ r.acknowledged) : x ∉ r.failed.map Prod.fst := by
  have h := (items_perm r).nodup_iff.mp hnd
  exact List.disjoint_of_nodup_append h hx

end Round

/-! ## All rounds -/

namespace Resends
variable {items : List ι} {rounds : List (Round ι ε)} {left : List (ι × ε)}

/-- Every item is acknowledged in a round or left, as often as it was sent in the first round. -/
theorem perm (h : Resends items rounds left) :
    items.Perm (rounds.flatMap Round.acknowledged ++ left.map Prod.fst) := by
  induction h with
  | nil => exact .nil
  | last r =>
    rw [List.flatMap_singleton]
    exact r.items_perm
  | @next r r' rs left _ ih =>
    rw [List.flatMap_cons, List.append_assoc]
    exact r.items_perm.trans (ih.append_left _)

theorem sublist (h : Resends items rounds left) : ∀ r ∈ rounds, r.items.Sublist items := by
  induction h with
  | nil => exact fun _ hr => nomatch hr
  | last r => exact List.forall_mem_singleton.mpr (.refl _)
  | @next r _ _ _ _ ih =>
    exact List.forall_mem_cons.mpr ⟨.refl _, fun r' hr => (ih r' hr).trans r.failed_sublist⟩

theorem never_again (h : Resends items rounds left) (hnd : items.Nodup) :
    rounds.Pairwise fun r r' => ∀ x ∈ r.acknowledged, x ∉ r'.items := by
  induction h with
  | nil => exact .nil
  | last r => exact List.pairwise_singleton _ _
  | @next r _ _ _ hrest ih =>
    refine List.pairwise_cons.mpr ⟨fun r' hr x hx hmem => ?_, ih (hnd.sublist r.failed_sublist)⟩
    exact Round.notMem_failed hnd hx ((hrest.sublist r' hr).subset hmem)

theorem head_items (h : Resends items rounds left) : ∀ r ∈ rounds.head?, r.items = items := by
  cases h with
  | nil => exact fun _ hr => nomatch hr
  | last r => exact fun _ hr => by cases hr; rfl
  | next _ => exact fun _ hr => by cases hr; rfl

theorem chain (h : Resends items rounds left) :
    rounds.IsChain fun r r' => r'.items = r.failed.map Prod.fst := by
  induction h with
  | nil => exact .nil
  | last r => exact .singleton r
  | next hrest ih => exact List.isChain_cons_cons.mpr ⟨hrest.head_items _ rfl, ih⟩

theorem left_eq (h : Resends items rounds left) : left = (rounds.getLastD []).failed := by
  induction h with
  | nil => rfl
  | last r => rfl
  | next _ ih => exact ih

/-- Of distinct items each is acknowledged in exactly one round or left once, and never both. -/
theorem count_eq_one [DecidableEq ι] (h : Resends items rounds left) (hnd : items.Nodup) {x : ι}
    (hx : x ∈ items) :
    (rounds.flatMap Round.acknowledged).count x + (left.map Prod.fst).count x = 1 := by
  rw [← List.count_append, ← h.perm.count_eq]
  exact List.count_eq_one_of_mem hnd hx

end Resends

end PriceEngine
