import Mathlib.Algebra.GroupWithZero.Nat
import Mathlib.Algebra.Order.BigOperators.Group.List
import PriceEngine.Dict

/-!
# Tumbling event-time windows

Elements are put into windows of one length by key and timestamp. A window is
fired when the watermark passes its end, again with each element that comes
later, and is dropped after the allowed lateness; what comes later still is set
aside. A table keeps the last firing of each window. `held` is every element a
window has ever been given: a watermark does not change it (`held_onWatermark`)
and an element adds itself to one window or to none (`held_processElement`).
-/

namespace PriceEngine

structure TumblingWindows where
  size : ℤ
  lateness : ℤ
  size_pos : 0 < size
  lateness_nonneg : 0 ≤ lateness

namespace TumblingWindows
variable (c : TumblingWindows)

def start (timestamp : ℤ) : ℤ := timestamp - timestamp % c.size

def maxTimestamp (start : ℤ) : ℤ := start + c.size - 1

def cleanupTime (start : ℤ) : ℤ := c.maxTimestamp start + c.lateness

theorem maxTimestamp_le_cleanupTime (start : ℤ) : c.maxTimestamp start ≤ c.cleanupTime start :=
  Int.le_add_of_nonneg_right c.lateness_nonneg

end TumblingWindows

structure WindowState (K E : Type*) where
  watermark : ℤ
  contents : Dict (K × ℤ) (List E) := .empty
  late : List E := []

section
variable {K E : Type*} [DecidableEq K] (c : TumblingWindows)

/-- An element of a window that has been fired before fires it again. -/
def WindowState.processElement (s : WindowState K E) (key : K) (timestamp : ℤ) (element : E) :
    WindowState K E × List ((K × ℤ) × List E) :=
  let window := (key, c.start timestamp)
  if c.cleanupTime window.2 ≤ s.watermark then ({ s with late := s.late ++ [element] }, [])
  else
    let elements := (s.contents.get? window).getD [] ++ [element]
    ({ s with contents := s.contents.put window elements },
      if c.maxTimestamp window.2 ≤ s.watermark then [(window, elements)] else [])

def WindowState.due (s : WindowState K E) (watermark : ℤ) : Dict (K × ℤ) (List E) :=
  s.contents.removeWhere fun window =>
    !(s.watermark < c.maxTimestamp window.2 && c.maxTimestamp window.2 ≤ watermark)

def WindowState.onWatermark (s : WindowState K E) (watermark : ℤ) : WindowState K E × List ((K × ℤ) × List E) :=
  if watermark ≤ s.watermark then (s, [])
  else
    ({ s with
        watermark := watermark
        contents := s.contents.removeWhere fun window => c.cleanupTime window.2 ≤ watermark },
      (s.due c watermark).entries)

/-- The table after the firings, each in the place of the one before it. -/
def recordFirings (table : Dict (K × ℤ) (List E)) (firings : List ((K × ℤ) × List E)) : Dict (K × ℤ) (List E) :=
  firings.foldl (fun table firing => table.put firing.1 firing.2) table

theorem get?_recordFirings (firings table : Dict (K × ℤ) (List E)) (window : K × ℤ) :
    (recordFirings table firings.entries).get? window = (firings.get? window).or (table.get? window) := by
  obtain ⟨firings, h⟩ := firings
  induction firings generalizing table with
  | nil => rfl
  | cons firing firings ih =>
    obtain ⟨hfirst, h⟩ := List.nodup_cons.mp h
    have hrest : (recordFirings table (firing :: firings)).get? window =
        ((⟨firings, h⟩ : Dict (K × ℤ) (List E)).get? window).or ((table.put firing.1 firing.2).get? window) :=
      ih _ h
    rw [hrest, Dict.get?_put, Dict.get?_cons]
    by_cases hw : window = firing.1
    · have hnone : (⟨firings, h⟩ : Dict (K × ℤ) (List E)).get? window = none := by
        rw [Dict.get?_eq_none, hw]
        exact hfirst
      rw [if_pos hw, if_pos hw, hnone, Option.none_or, Option.some_or]
    · rw [if_neg hw, if_neg hw]

/-! ## Windows and their table -/

/-- All elements the window has been given. -/
def held (s : WindowState K E) (table : Dict (K × ℤ) (List E)) (window : K × ℤ) : List E :=
  (s.contents.get? window).getD ((table.get? window).getD [])

/-- The table has the windows whose end has passed, and only the beginning of others; a window only it has is past. -/
structure Recorded (s : WindowState K E) (table : Dict (K × ℤ) (List E)) : Prop where
  front : ∀ window elements fired, s.contents.get? window = some elements → table.get? window = some fired →
    fired <+: elements
  complete : ∀ window elements, s.contents.get? window = some elements → c.maxTimestamp window.2 ≤ s.watermark →
    table.get? window = some elements
  past : ∀ window fired, table.get? window = some fired → s.contents.get? window = none →
    c.cleanupTime window.2 ≤ s.watermark

variable {c} {s : WindowState K E} {table : Dict (K × ℤ) (List E)}

theorem recorded_empty (watermark : ℤ) :
    Recorded c ({ watermark := watermark } : WindowState K E) (.empty : Dict (K × ℤ) (List E)) where
  front _ _ _ h := by cases h
  complete _ _ h := by cases h
  past _ _ h := by cases h

theorem Recorded.eq_none_of_open (h : Recorded c s table) {window : K × ℤ}
    (hopen : ¬ c.cleanupTime window.2 ≤ s.watermark) (hc : s.contents.get? window = none) :
    table.get? window = none := by
  by_contra hsome
  obtain ⟨fired, hfired⟩ := Option.ne_none_iff_exists'.mp hsome
  exact hopen (h.past window fired hfired hc)

theorem Recorded.prefix_held (h : Recorded c s table) {window : K × ℤ} {fired : List E}
    (hfired : table.get? window = some fired) : fired <+: held s table window := by
  unfold held
  cases hc : s.contents.get? window with
  | none =>
    have hheld : (table.get? window).getD [] = fired := by rw [hfired, Option.getD_some]
    exact hheld ▸ List.prefix_rfl
  | some elements => exact h.front window elements fired hc hfired

theorem get?_due (watermark : ℤ) (window : K × ℤ) : (s.due c watermark).get? window =
    if s.watermark < c.maxTimestamp window.2 ∧ c.maxTimestamp window.2 ≤ watermark then s.contents.get? window
    else none := by
  rw [WindowState.due, Dict.get?_removeWhere]
  by_cases hdue : s.watermark < c.maxTimestamp window.2 ∧ c.maxTimestamp window.2 ≤ watermark
  · simp [hdue]
  · rw [if_neg hdue]
    rw [not_and_or] at hdue
    simp only [Bool.not_and, ite_eq_left_iff, Bool.not_eq_true, Bool.or_eq_false_iff, Bool.not_eq_false',
      decide_eq_true_eq]
    intro hboth
    rcases hdue with h | h
    · exact absurd hboth.1 h
    · exact absurd hboth.2 h

theorem get?_afterWatermark {watermark : ℤ} (window : K × ℤ) :
    (recordFirings table (s.due c watermark).entries).get? window =
      if s.watermark < c.maxTimestamp window.2 ∧ c.maxTimestamp window.2 ≤ watermark then
        (s.contents.get? window).or (table.get? window)
      else table.get? window := by
  rw [get?_recordFirings, get?_due]
  split <;> rfl

theorem Recorded.get?_complete (h : Recorded c s table) {watermark : ℤ} {window : K × ℤ} {elements : List E}
    (hc : s.contents.get? window = some elements) (hend : c.maxTimestamp window.2 ≤ watermark) :
    (recordFirings table (s.due c watermark).entries).get? window = some elements := by
  rw [get?_afterWatermark]
  split
  · rw [hc, Option.some_or]
  · rename_i hdue
    exact h.complete window elements hc (not_lt.mp fun hlt => hdue ⟨hlt, hend⟩)

theorem Recorded.onWatermark (h : Recorded c s table) (watermark : ℤ) :
    Recorded c (s.onWatermark c watermark).1 (recordFirings table (s.onWatermark c watermark).2) := by
  unfold WindowState.onWatermark
  split
  · exact h
  · rename_i hlater
    have hlater := not_le.mp hlater
    constructor
    · intro window elements fired hcontents hfired
      rw [Dict.get?_removeWhere] at hcontents
      split at hcontents
      · cases hcontents
      · rw [get?_afterWatermark] at hfired
        split at hfired
        · rw [hcontents, Option.some_or] at hfired
          exact Option.some.inj hfired ▸ List.prefix_rfl
        · exact h.front window elements fired hcontents hfired
    · intro window elements hcontents hend
      rw [Dict.get?_removeWhere] at hcontents
      split at hcontents
      · cases hcontents
      · exact h.get?_complete hcontents hend
    · intro window fired hfired hcontents
      rw [Dict.get?_removeWhere] at hcontents
      split at hcontents
      · rename_i hpast
        exact of_decide_eq_true hpast
      · rw [get?_afterWatermark, hcontents, Option.none_or, ite_self] at hfired
        exact (h.past window fired hfired hcontents).trans hlater.le

omit [DecidableEq K] in
theorem watermark_onWatermark (watermark : ℤ) :
    (s.onWatermark c watermark).1.watermark = max s.watermark watermark := by
  unfold WindowState.onWatermark
  split
  · rename_i hle
    exact (max_eq_left hle).symm
  · rename_i hlater
    exact (max_eq_right (not_le.mp hlater).le).symm

theorem Recorded.held_onWatermark (h : Recorded c s table) (watermark : ℤ) (window : K × ℤ) :
    held (s.onWatermark c watermark).1 (recordFirings table (s.onWatermark c watermark).2) window =
      held s table window := by
  unfold WindowState.onWatermark
  split
  · rfl
  · unfold held
    dsimp only
    rw [Dict.get?_removeWhere]
    cases hcontents : s.contents.get? window with
    | none => rw [ite_self, get?_afterWatermark, hcontents, Option.none_or, ite_self]
    | some elements =>
      by_cases hpast : c.cleanupTime window.2 ≤ watermark
      · rw [if_pos (decide_eq_true hpast),
          h.get?_complete hcontents ((c.maxTimestamp_le_cleanupTime _).trans hpast)]
        rfl
      · rw [if_neg (by simpa using hpast)]
        rfl

/-! ## Elements -/

section
variable {key : K} {timestamp : ℤ} {element : E}

theorem processElement_late (hlate : c.cleanupTime (c.start timestamp) ≤ s.watermark) :
    s.processElement c key timestamp element = ({ s with late := s.late ++ [element] }, []) := if_pos hlate

theorem get?_afterElement (hopen : ¬ c.cleanupTime (c.start timestamp) ≤ s.watermark) (window : K × ℤ) :
    (recordFirings table (s.processElement c key timestamp element).2).get? window =
      if window = (key, c.start timestamp) ∧ c.maxTimestamp window.2 ≤ s.watermark then
        some ((s.contents.get? window).getD [] ++ [element])
      else table.get? window := by
  unfold WindowState.processElement
  rw [if_neg hopen]
  dsimp only
  split
  · rename_i hend
    rw [recordFirings, List.foldl_cons, List.foldl_nil, Dict.get?_put]
    by_cases hw : window = (key, c.start timestamp)
    · subst hw
      rw [if_pos rfl, if_pos ⟨rfl, hend⟩]
    · rw [if_neg hw, if_neg fun h => hw h.1]
  · rename_i hend
    rw [recordFirings, List.foldl_nil, if_neg]
    rintro ⟨rfl, h⟩
    exact hend h

theorem get?_contents_afterElement (hopen : ¬ c.cleanupTime (c.start timestamp) ≤ s.watermark) (window : K × ℤ) :
    (s.processElement c key timestamp element).1.contents.get? window =
      if window = (key, c.start timestamp) then some ((s.contents.get? window).getD [] ++ [element])
      else s.contents.get? window := by
  unfold WindowState.processElement
  rw [if_neg hopen, Dict.get?_put]
  split
  · rename_i hw
    rw [hw]
  · rfl

theorem watermark_afterElement : (s.processElement c key timestamp element).1.watermark = s.watermark := by
  unfold WindowState.processElement
  dsimp only
  split <;> rfl

theorem Recorded.processElement (h : Recorded c s table) : Recorded c (s.processElement c key timestamp element).1
    (recordFirings table (s.processElement c key timestamp element).2) := by
  by_cases hopen : c.cleanupTime (c.start timestamp) ≤ s.watermark
  · rw [processElement_late hopen]
    exact ⟨h.front, h.complete, h.past⟩
  · constructor
    · intro window elements fired hcontents hfired
      rw [get?_contents_afterElement hopen] at hcontents
      rw [get?_afterElement hopen] at hfired
      by_cases hw : window = (key, c.start timestamp)
      · rw [if_pos hw] at hcontents
        rw [← Option.some.inj hcontents]
        split at hfired
        · exact Option.some.inj hfired ▸ List.prefix_rfl
        · refine List.IsPrefix.trans ?_ (List.prefix_append _ _)
          cases hc : s.contents.get? window with
          | some elements => exact h.front window elements fired hc hfired
          | none =>
            rw [h.eq_none_of_open (hw ▸ hopen) hc] at hfired
            cases hfired
      · rw [if_neg hw] at hcontents
        rw [if_neg fun hboth => hw hboth.1] at hfired
        exact h.front window elements fired hcontents hfired
    · intro window elements hcontents hend
      rw [watermark_afterElement] at hend
      rw [get?_contents_afterElement hopen] at hcontents
      rw [get?_afterElement hopen]
      by_cases hw : window = (key, c.start timestamp)
      · rw [if_pos hw] at hcontents
        rw [if_pos ⟨hw, hend⟩, hcontents]
      · rw [if_neg hw] at hcontents
        rw [if_neg fun hboth => hw hboth.1]
        exact h.complete window elements hcontents hend
    · intro window fired hfired hcontents
      rw [watermark_afterElement]
      rw [get?_contents_afterElement hopen] at hcontents
      split at hcontents
      · cases hcontents
      · rename_i hw
        rw [get?_afterElement hopen, if_neg fun hboth => hw hboth.1] at hfired
        exact h.past window fired hfired hcontents

theorem Recorded.held_processElement (h : Recorded c s table)
    (hopen : ¬ c.cleanupTime (c.start timestamp) ≤ s.watermark) (window : K × ℤ) :
    held (s.processElement c key timestamp element).1
      (recordFirings table (s.processElement c key timestamp element).2) window =
      if window = (key, c.start timestamp) then held s table window ++ [element] else held s table window := by
  unfold held
  rw [get?_contents_afterElement hopen, get?_afterElement hopen]
  by_cases hw : window = (key, c.start timestamp)
  · rw [if_pos hw, if_pos hw, Option.getD_some]
    cases hc : s.contents.get? window with
    | some elements => rfl
    | none =>
      rw [h.eq_none_of_open (hw ▸ hopen) hc]
      rfl
  · rw [if_neg hw, if_neg hw, if_neg fun hboth => hw hboth.1]

theorem held_late (hlate : c.cleanupTime (c.start timestamp) ≤ s.watermark) (window : K × ℤ) :
    held (s.processElement c key timestamp element).1
      (recordFirings table (s.processElement c key timestamp element).2) window = held s table window := by
  rw [processElement_late hlate]
  rfl

end

/-! ## Counting by identity -/

section
variable {I : Type*} (ident : E → I)

/-- No identity is held twice, in one window or in two. -/
structure HeldOnce (s : WindowState K E) (table : Dict (K × ℤ) (List E)) : Prop where
  nodup : ∀ window, ((held s table window).map ident).Nodup
  once : ∀ window window' e e', e ∈ held s table window → e' ∈ held s table window' → ident e = ident e' →
    window = window'

theorem heldOnce_empty (watermark : ℤ) :
    HeldOnce ident ({ watermark := watermark } : WindowState K E) (.empty : Dict (K × ℤ) (List E)) where
  nodup _ := List.nodup_nil
  once _ _ _ _ h := absurd h List.not_mem_nil

section
variable {ident} {s' : WindowState K E} {table' : Dict (K × ℤ) (List E)}

theorem HeldOnce.of_held_eq (h : HeldOnce ident s table)
    (heq : ∀ window, held s' table' window = held s table window) : HeldOnce ident s' table' := by
  constructor
  · intro window
    rw [heq]
    exact h.nodup window
  · intro window window' e e' he he'
    rw [heq] at he he'
    exact h.once window window' e e' he he'

/-- An element whose identity is held nowhere may be added to any window. -/
theorem HeldOnce.append (h : HeldOnce ident s table) {window₀ : K × ℤ} {element : E}
    (hnew : ∀ window, ∀ e ∈ held s table window, ident e ≠ ident element)
    (heq : ∀ window, held s' table' window =
      if window = window₀ then held s table window ++ [element] else held s table window) :
    HeldOnce ident s' table' := by
  -- an element of a window now was there before, or is the new one
  have hmem : ∀ window, ∀ e ∈ held s' table' window,
      e ∈ held s table window ∨ window = window₀ ∧ e = element := by
    intro window e he
    rw [heq] at he
    split at he
    · rename_i hw
      rcases List.mem_append.mp he with he | he
      · exact .inl he
      · exact .inr ⟨hw, List.mem_singleton.mp he⟩
    · exact .inl he
  constructor
  · intro window
    rw [heq]
    split
    · rw [List.map_append, List.map_cons, List.map_nil]
      refine List.nodup_append.mpr ⟨h.nodup window, List.nodup_singleton _, fun i hi j hj e => ?_⟩
      obtain ⟨e', he', rfl⟩ := List.mem_map.mp hi
      exact hnew window e' he' (e.trans (List.mem_singleton.mp hj))
    · exact h.nodup window
  · intro window window' e e' he he' hident
    rcases hmem window e he with he | ⟨hw, rfl⟩ <;> rcases hmem window' e' he' with he' | ⟨hw', rfl⟩
    · exact h.once window window' e e' he he' hident
    · exact absurd hident (hnew window e he)
    · exact absurd hident.symm (hnew window' e' he')
    · rw [hw, hw']

end

variable [DecidableEq I]

/-- How often the last firings count the identity, over all windows. -/
def contribution (table : Dict (K × ℤ) (List E)) (i : I) : ℕ :=
  (table.entries.map fun firing => firing.2.countP fun e => ident e == i).sum

theorem countP_le_one {l : List E} (h : (l.map ident).Nodup) (i : I) : l.countP (fun e => ident e == i) ≤ 1 := by
  have hcount : l.countP (fun e => ident e == i) = (l.map ident).count i := by
    rw [List.count, List.countP_map]
    rfl
  rw [hcount]
  exact List.nodup_iff_count_le_one.mp h i

omit [DecidableEq K] in
theorem sum_countP_le_one {firings : List ((K × ℤ) × List E)} (hkeys : (firings.map Prod.fst).Nodup)
    (hnodup : ∀ f ∈ firings, (f.2.map ident).Nodup)
    (honce : ∀ f ∈ firings, ∀ f' ∈ firings, ∀ e ∈ f.2, ∀ e' ∈ f'.2, ident e = ident e' → f.1 = f'.1) (i : I) :
    (firings.map fun f => f.2.countP fun e => ident e == i).sum ≤ 1 := by
  induction firings with
  | nil => exact Nat.zero_le 1
  | cons f firings ih =>
    obtain ⟨hfirst, hkeys⟩ := List.nodup_cons.mp hkeys
    have hrest := ih hkeys (fun g hg => hnodup g (List.mem_cons_of_mem _ hg))
      fun g hg g' hg' => honce g (List.mem_cons_of_mem _ hg) g' (List.mem_cons_of_mem _ hg')
    rw [List.map_cons, List.sum_cons]
    by_cases hzero : f.2.countP (fun e => ident e == i) = 0
    · rw [hzero, Nat.zero_add]
      exact hrest
    · obtain ⟨e, he, hei⟩ := List.countP_pos_iff.mp (Nat.pos_of_ne_zero hzero)
      have hnone : (firings.map fun g => g.2.countP fun e => ident e == i).sum = 0 := by
        refine List.sum_eq_zero (List.forall_mem_map.mpr fun g hg => List.countP_eq_zero.mpr fun e' he' hei' => ?_)
        have hsame : ident e = ident e' := (beq_iff_eq.mp hei).trans (beq_iff_eq.mp hei').symm
        have hkey := honce f List.mem_cons_self g (List.mem_cons_of_mem _ hg) e he e' he' hsame
        exact hfirst (hkey ▸ List.mem_map_of_mem hg)
      rw [hnone, Nat.add_zero]
      exact countP_le_one ident (hnodup f List.mem_cons_self) i

theorem contribution_le_one (hrecorded : Recorded c s table) (h : HeldOnce ident s table) (i : I) :
    contribution ident table i ≤ 1 := by
  have hsub : ∀ f ∈ table.entries, f.2 <+: held s table f.1 := fun f hf =>
    hrecorded.prefix_held (Dict.mem_entries.mp hf)
  refine sum_countP_le_one ident table.nodup (fun f hf => ?_) (fun f hf f' hf' e he e' he' => ?_) i
  · exact (h.nodup f.1).sublist ((hsub f hf).sublist.map _)
  · exact h.once _ _ e e' ((hsub f hf).subset he) ((hsub f' hf').subset he')

end

end

end PriceEngine
