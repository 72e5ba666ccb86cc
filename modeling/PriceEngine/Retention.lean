import Mathlib.Data.Finset.Card
import PriceEngine.Stages

/-!
# The lines Stage A retains

A period end is retained while fewer than `keep` distinct ends are later
(`mem_retainedBillingPeriodEnds`). So the retained lines stay as they are under
a line that is among them, or whose period is over and whose event id is not
theirs (`retainLine_eq_self`).
-/

namespace PriceEngine

/-! ## Ends -/

theorem mem_take_of_pairwise_gt {α : Type*} [LinearOrder α] {l : List α} (h : l.Pairwise (· > ·)) {n : ℕ}
    {d : α} : d ∈ l.take n ↔ d ∈ l ∧ (l.filter fun e => d < e).length < n := by
  induction l generalizing n with
  | nil => simp
  | cons a l ih =>
    obtain ⟨ha, hl⟩ := List.pairwise_cons.mp h
    cases n with
    | zero => simp
    | succ n =>
      rw [List.take_succ_cons, List.mem_cons, List.mem_cons, ih hl]
      by_cases hd : d = a
      · subst hd
        have hnone : l.filter (fun e => d < e) = [] :=
          List.filter_eq_nil_iff.mpr fun e he => by simpa using (ha e he).le
        simp [hnone]
      · rw [or_iff_right hd, or_iff_right hd]
        refine and_congr_right fun hm => ?_
        have had : d < a := ha d hm
        rw [List.filter_cons_of_pos (by simpa using had), List.length_cons, Nat.succ_lt_succ_iff]

def laterEnds (periodEnds : List Date) (d : Date) : Finset Date := periodEnds.toFinset.filter (d < ·)

theorem mem_retainedBillingPeriodEnds {periodEnds : List Date} {keep : ℕ} {d : Date} :
    d ∈ retainedBillingPeriodEnds periodEnds keep ↔
      d ∈ periodEnds ∧ (laterEnds periodEnds d).card < keep := by
  have hperm : (periodEnds.dedup.insertionSort (· ≥ ·)).Perm periodEnds.dedup := List.perm_insertionSort _ _
  have hsorted : (periodEnds.dedup.insertionSort (· ≥ ·)).Pairwise (· > ·) := by
    have hge := List.pairwise_insertionSort (· ≥ ·) periodEnds.dedup
    have hne := hperm.nodup_iff.mpr (List.nodup_dedup periodEnds)
    exact hge.imp₂ (fun _ _ hle hne => lt_of_le_of_ne hle (Ne.symm hne)) hne
  have hcard : (laterEnds periodEnds d).card =
      ((periodEnds.dedup.insertionSort (· ≥ ·)).filter fun e => d < e).length := by
    rw [(hperm.filter _).length_eq, laterEnds, ← List.toFinset_card_of_nodup ((List.nodup_dedup _).filter _)]
    congr 1
    ext e
    simp
  rw [retainedBillingPeriodEnds, mem_take_of_pairwise_gt hsorted, hperm.mem_iff, List.mem_dedup, hcard]

/-! ## Lines -/

def periodEnds (costLines : Dict String EnrichedPaymentLine) : List Date :=
  costLines.values.map (·.billingPeriodEnd)

def Retained (costLines : Dict String EnrichedPaymentLine) : Prop :=
  ∀ d ∈ periodEnds costLines, d ∈ retainedBillingPeriodEnds (periodEnds costLines)

theorem retained_empty : Retained .empty := fun _ h => nomatch h

theorem retained_retainLine (costLines : Dict String EnrichedPaymentLine) (value : EnrichedPaymentLine) :
    Retained (retainLine costLines value) := by
  have hends : periodEnds (retainLine costLines value) =
      (periodEnds (costLines.put value.eventId value)).filter
        fun d => (retainedBillingPeriodEnds (periodEnds (costLines.put value.eventId value))).contains d := by
    rw [retainLine, periodEnds, Dict.values_filterValues, periodEnds, List.filter_map]
    rfl
  unfold Retained
  rw [hends]
  generalize periodEnds (costLines.put value.eventId value) = ends
  intro d hd
  rw [List.mem_filter, List.contains_iff_mem, mem_retainedBillingPeriodEnds] at hd
  refine mem_retainedBillingPeriodEnds.mpr ⟨?_, lt_of_le_of_lt (Finset.card_le_card ?_) hd.2.2⟩
  · rw [List.mem_filter, List.contains_iff_mem, mem_retainedBillingPeriodEnds]
    exact hd
  · refine Finset.filter_subset_filter _ fun e he => ?_
    rw [List.mem_toFinset] at he ⊢
    exact List.mem_of_mem_filter he

/-- The line is the retained one of its event id, or it has none and its period is over. -/
def Redundant (costLines : Dict String EnrichedPaymentLine) (line : EnrichedPaymentLine) : Prop :=
  costLines.get? line.eventId = some line ∨
  (costLines.get? line.eventId = none ∧
    line.billingPeriodEnd ∉ retainedBillingPeriodEnds (periodEnds costLines ++ [line.billingPeriodEnd]))

/-- An end that is over does not push out another. -/
theorem retainedEnds_append {ends : List Date} {x : Date} (hx : x ∉ retainedBillingPeriodEnds (ends ++ [x])) :
    ∀ d ∈ retainedBillingPeriodEnds ends, d ∈ retainedBillingPeriodEnds (ends ++ [x]) := by
  intro d hd
  rw [mem_retainedBillingPeriodEnds] at hd hx ⊢
  have hover : 2 ≤ (laterEnds (ends ++ [x]) x).card := not_lt.mp fun h => hx ⟨by simp, h⟩
  have hsame : laterEnds (ends ++ [x]) x = laterEnds ends x := by
    ext e
    simp only [laterEnds, Finset.mem_filter, List.mem_toFinset, List.mem_append, List.mem_singleton]
    exact ⟨fun ⟨hm, hlt⟩ => ⟨hm.resolve_right hlt.ne', hlt⟩, fun ⟨hm, hlt⟩ => ⟨Or.inl hm, hlt⟩⟩
  have hle : x ≤ d := by
    by_contra hlt
    have hsub : laterEnds ends x ⊆ laterEnds ends d := by
      intro e he
      simp only [laterEnds, Finset.mem_filter] at he ⊢
      exact ⟨he.1, (not_le.mp hlt).trans he.2⟩
    rw [hsame] at hover
    exact absurd hd.2 (not_lt.mpr (hover.trans (Finset.card_le_card hsub)))
  have hlater : laterEnds (ends ++ [x]) d = laterEnds ends d := by
    ext e
    simp only [laterEnds, Finset.mem_filter, List.mem_toFinset, List.mem_append, List.mem_singleton]
    exact ⟨fun ⟨hm, hlt⟩ => ⟨hm.resolve_right (hle.trans_lt hlt).ne', hlt⟩,
      fun ⟨hm, hlt⟩ => ⟨Or.inl hm, hlt⟩⟩
  exact ⟨List.mem_append_left _ hd.1, hlater ▸ hd.2⟩

theorem retainLine_eq_self {costLines : Dict String EnrichedPaymentLine} {line : EnrichedPaymentLine}
    (h : Retained costLines) (hline : Redundant costLines line) : retainLine costLines line = costLines := by
  have hends : ∀ value ∈ costLines.values, value.billingPeriodEnd ∈ periodEnds costLines := fun value hv =>
    List.mem_map_of_mem hv
  unfold retainLine
  rcases hline with hstored | ⟨hnone, hover⟩
  · rw [Dict.put_eq_self hstored]
    exact Dict.filterValues_eq_self fun value hv => List.contains_iff_mem.mpr (h _ (hends value hv))
  · have hput : (costLines.put line.eventId line).values.map (·.billingPeriodEnd) =
        periodEnds costLines ++ [line.billingPeriodEnd] := by
      rw [Dict.values_put_of_none hnone, List.map_append]
      rfl
    simp only [hput]
    rw [Dict.filterValues_put_of_none hnone (by simpa using hover)]
    refine Dict.filterValues_eq_self fun value hv => List.contains_iff_mem.mpr ?_
    exact retainedEnds_append hover _ (h _ (hends value hv))

end PriceEngine
