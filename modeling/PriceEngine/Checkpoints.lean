import PriceEngine.Consumer

/-!
# Before and after a checkpoint

A checkpoint cuts the records of a shard in two: `recordsUpTo` are behind it, and
`recordsAfter` are still to read. The checkpoint at a record of the shard cuts
right after it.
-/

namespace PriceEngine

def recordsUpTo (records : List StreamRecord) : Option String → List StreamRecord
  | none => []
  | some checkpoint =>
    if checkpoint = "" then []
    else
      (records.takeWhile fun r => r.sequenceNumber != checkpoint) ++
        (records.dropWhile fun r => r.sequenceNumber != checkpoint).take 1

theorem recordsUpTo_append (records : List StreamRecord) (checkpoint : Option String) :
    recordsUpTo records checkpoint ++ recordsAfter records checkpoint = records := by
  unfold recordsUpTo recordsAfter
  cases checkpoint with
  | none => rfl
  | some c =>
    by_cases hc : c = ""
    · simp only [hc, if_true, List.nil_append]
    · simp only [hc, if_false, List.append_assoc]
      rw [← List.drop_one, List.take_append_drop, List.takeWhile_append_dropWhile]

theorem recordsUpTo_concat {p q : List StreamRecord} {r : StreamRecord}
    (hnodup : ((p ++ r :: q).map (·.sequenceNumber)).Nodup) (hne : r.sequenceNumber ≠ "") :
    recordsUpTo (p ++ r :: q) (some r.sequenceNumber) = p ++ [r] := by
  have hp : ∀ x ∈ p, (x.sequenceNumber != r.sequenceNumber) = true := by
    intro x hx
    rw [List.map_append, List.map_cons] at hnodup
    have hdisj := (List.nodup_append.mp hnodup).2.2
    exact bne_iff_ne.mpr (hdisj _ (List.mem_map_of_mem hx) _ List.mem_cons_self)
  rw [recordsUpTo, if_neg hne, List.takeWhile_append_of_pos hp, List.dropWhile_append_of_pos hp,
    List.takeWhile_cons_of_neg (by simp), List.dropWhile_cons_of_neg (by simp)]
  simp

theorem recordsAfter_concat {p q : List StreamRecord} {r : StreamRecord}
    (hnodup : ((p ++ r :: q).map (·.sequenceNumber)).Nodup) (hne : r.sequenceNumber ≠ "") :
    recordsAfter (p ++ r :: q) (some r.sequenceNumber) = q := by
  have hcut := recordsUpTo_append (p ++ r :: q) (some r.sequenceNumber)
  rw [recordsUpTo_concat hnodup hne, List.append_assoc] at hcut
  exact (List.cons.inj (List.append_cancel_left hcut)).2

theorem recordsAfter_take {records : List StreamRecord} (hnodup : (records.map (·.sequenceNumber)).Nodup)
    (hne : ∀ r ∈ records, r.sequenceNumber ≠ "") {checkpoint : Option String} {n : ℕ} {r : StreamRecord}
    (hlast : ((recordsAfter records checkpoint).take n).getLast? = some r) :
    recordsAfter records (some r.sequenceNumber) = (recordsAfter records checkpoint).drop n := by
  obtain ⟨m, hm⟩ := List.getLast?_eq_some_iff.mp hlast
  have hsplit : records = (recordsUpTo records checkpoint ++ m) ++ r :: (recordsAfter records checkpoint).drop n := by
    conv_lhs => rw [← recordsUpTo_append records checkpoint, ← List.take_append_drop n (recordsAfter _ _), hm]
    simp
  have hr : r ∈ records := by
    rw [hsplit]
    exact List.mem_append_right _ List.mem_cons_self
  rw [hsplit] at hnodup
  conv_lhs => rw [hsplit]
  exact recordsAfter_concat hnodup (hne r hr)

/-- Of a contiguous batch, either the last record lies after a point or all of it lies before. -/
theorem subset_of_last_mem {α : Type*} {l p m : List α} {x : α} (hl : l.Nodup) (hp : p <+: l)
    (hm : m ++ [x] <:+: l) (hx : x ∈ p) : m ++ [x] ⊆ p := by
  obtain ⟨a, b, rfl⟩ := hm
  rcases List.prefix_or_prefix_of_prefix hp (List.prefix_append (a ++ (m ++ [x])) b) with h | h
  · rw [← List.append_assoc, List.prefix_concat_iff] at h
    rcases h with rfl | h
    · rw [List.append_assoc]
      exact List.subset_append_right a _
    · rw [List.append_assoc, List.append_assoc, ← List.append_assoc a m] at hl
      exact absurd rfl ((List.nodup_append.mp hl).2.2 x (h.subset hx) x List.mem_cons_self)
  · exact fun y hy => h.subset (List.mem_append_right a hy)

end PriceEngine
