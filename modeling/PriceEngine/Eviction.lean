import Mathlib.Data.Finset.Card
import PriceEngine.CostSound
import PriceEngine.LineOrder
import PriceEngine.Retention

/-!
# What Stage A evicts

`receivedLines` keeps the latest version of every line; `retainedLines` evicts
after each. What was evicted is over for good: later ends only grow in number,
so the retained lines are the received ones whose end is among the two latest
(`retainedLines_eq`), and the cost of the latest period is the same.
-/

namespace PriceEngine

/-! ## Ends that are over -/

section
variable {ends : List Date} {keep : ℕ} {d : Date}

theorem retainedEnds_subset : retainedBillingPeriodEnds ends keep ⊆ ends :=
  fun _ h => (mem_retainedBillingPeriodEnds.mp h).1

theorem retainedEnds_length_le : (retainedBillingPeriodEnds ends keep).length ≤ keep := List.length_take_le _ _

theorem retainedEnds_nodup : (retainedBillingPeriodEnds ends keep).Nodup := by
  have hperm : (ends.dedup.insertionSort (· ≥ ·)).Perm ends.dedup := List.perm_insertionSort _ _
  exact (hperm.nodup_iff.mpr (List.nodup_dedup ends)).sublist (List.take_sublist _ _)

theorem retainedEnds_congr {ends' : List Date} (h : ∀ x, x ∈ ends ↔ x ∈ ends') :
    d ∈ retainedBillingPeriodEnds ends keep ↔ d ∈ retainedBillingPeriodEnds ends' keep := by
  have hlater : laterEnds ends d = laterEnds ends' d := by
    ext x
    simp only [laterEnds, Finset.mem_filter, List.mem_toFinset, h]
  rw [mem_retainedBillingPeriodEnds, mem_retainedBillingPeriodEnds, h, hlater]

theorem laterEnds_mono {ends' : List Date} (h : ends ⊆ ends') : laterEnds ends d ⊆ laterEnds ends' d :=
  Finset.filter_subset_filter _ fun _ he => List.mem_toFinset.mpr (h (List.mem_toFinset.mp he))

/-- An end that is retained among more ends was retained among fewer. -/
theorem retainedEnds_of_subset {ends' : List Date} (h : ends ⊆ ends') (hd : d ∈ ends)
    (hkept : d ∈ retainedBillingPeriodEnds ends' keep) : d ∈ retainedBillingPeriodEnds ends keep :=
  mem_retainedBillingPeriodEnds.mpr
    ⟨hd, (Finset.card_le_card (laterEnds_mono h)).trans_lt (mem_retainedBillingPeriodEnds.mp hkept).2⟩

theorem retainedEnds_above (hd : d ∈ ends) (hover : d ∉ retainedBillingPeriodEnds ends keep) :
    keep ≤ (retainedBillingPeriodEnds ends keep).length ∧ ∀ x ∈ retainedBillingPeriodEnds ends keep, d < x := by
  constructor
  · by_contra hshort
    have hall : retainedBillingPeriodEnds ends keep = ends.dedup.insertionSort (· ≥ ·) := by
      rw [retainedBillingPeriodEnds, List.length_take] at hshort
      exact List.take_of_length_le (by omega)
    rw [hall, List.mem_insertionSort, List.mem_dedup] at hover
    exact hover hd
  · intro x hx
    by_contra hle
    have hsub : laterEnds ends d ⊆ laterEnds ends x := by
      intro e he
      simp only [laterEnds, Finset.mem_filter] at he ⊢
      exact ⟨he.1, (not_lt.mp hle).trans_lt he.2⟩
    have hx := (mem_retainedBillingPeriodEnds.mp hx).2
    exact hover (mem_retainedBillingPeriodEnds.mpr ⟨hd, (Finset.card_le_card hsub).trans_lt hx⟩)

/-- Ends that are over can be dropped before others are added. -/
theorem retainedEnds_pruned {pruned ends' : List Date} (hsub : pruned ⊆ ends') (hends : ends' ⊆ ends ++ pruned)
    (hkept : retainedBillingPeriodEnds ends keep ⊆ pruned) (hd : d ∈ pruned) :
    d ∈ retainedBillingPeriodEnds pruned keep ↔ d ∈ retainedBillingPeriodEnds ends' keep := by
  refine ⟨fun h => ?_, retainedEnds_of_subset hsub hd⟩
  have hfew := (mem_retainedBillingPeriodEnds.mp h).2
  refine mem_retainedBillingPeriodEnds.mpr ⟨hsub hd, (Finset.card_le_card fun e he => ?_).trans_lt hfew⟩
  simp only [laterEnds, Finset.mem_filter, List.mem_toFinset] at he ⊢
  refine ⟨?_, he.2⟩
  by_contra hgone
  -- a dropped end has as many retained ends above it as there are places
  have hold : e ∈ ends := (List.mem_append.mp (hends he.1)).resolve_right hgone
  obtain ⟨hfull, habove⟩ := retainedEnds_above hold fun hk => hgone (hkept hk)
  have hlater : (retainedBillingPeriodEnds ends keep).toFinset ⊆ laterEnds pruned d := by
    intro x hx
    rw [List.mem_toFinset] at hx
    simp only [laterEnds, Finset.mem_filter, List.mem_toFinset]
    exact ⟨hkept hx, he.2.trans (habove x hx)⟩
  have hcard := Finset.card_le_card hlater
  rw [List.toFinset_card_of_nodup retainedEnds_nodup] at hcard
  omega

end

/-! ## The lines received and the lines retained -/

def receivedLines (lines : List EnrichedPaymentLine) : Dict String EnrichedPaymentLine :=
  lines.foldl (fun received line => received.put line.eventId line) .empty

def retainedLines (lines : List EnrichedPaymentLine) : Dict String EnrichedPaymentLine :=
  lines.foldl retainLine .empty

/-- The versions of a line keep its period end. -/
def KeepPeriodEnds (lines : List EnrichedPaymentLine) : Prop :=
  ∀ x ∈ lines, ∀ y ∈ lines, x.eventId = y.eventId → x.billingPeriodEnd = y.billingPeriodEnd

instance (lines : List EnrichedPaymentLine) : Decidable (KeepPeriodEnds lines) :=
  inferInstanceAs (Decidable (∀ x ∈ lines, ∀ y ∈ lines, x.eventId = y.eventId → _))

/-- The end is among the two latest of these lines. -/
def isRetained (costLines : Dict String EnrichedPaymentLine) (line : EnrichedPaymentLine) : Bool :=
  (retainedBillingPeriodEnds (periodEnds costLines)).contains line.billingPeriodEnd

theorem isRetained_iff {costLines : Dict String EnrichedPaymentLine} {line : EnrichedPaymentLine} :
    isRetained costLines line = true ↔
      line.billingPeriodEnd ∈ retainedBillingPeriodEnds (periodEnds costLines) := List.contains_iff_mem

theorem mem_periodEnds {costLines : Dict String EnrichedPaymentLine} {d : Date} :
    d ∈ periodEnds costLines ↔ ∃ line ∈ costLines.values, line.billingPeriodEnd = d := List.mem_map

theorem receivedLines_all (lines : List EnrichedPaymentLine) :
    Dict.All (fun eventId line => line ∈ lines ∧ line.eventId = eventId) (receivedLines lines) := by
  induction lines using List.reverseRecOn with
  | nil => exact Dict.all_empty _
  | append_singleton lines line ih =>
    rw [receivedLines, List.foldl_concat]
    refine Dict.All.put (fun eventId stored h => ?_) ⟨List.mem_append_right _ List.mem_cons_self, rfl⟩
    exact (ih eventId stored h).imp_left (List.mem_append_left _)

section
variable {costLines : Dict String EnrichedPaymentLine} {line : EnrichedPaymentLine}

theorem mem_periodEnds_put
    (hversion : ∀ w, costLines.get? line.eventId = some w → w.billingPeriodEnd = line.billingPeriodEnd)
    {d : Date} :
    d ∈ periodEnds (costLines.put line.eventId line) ↔ d ∈ periodEnds costLines ∨ d = line.billingPeriodEnd := by
  simp only [mem_periodEnds, Dict.mem_values, Dict.get?_put]
  constructor
  · rintro ⟨w, ⟨k, hw⟩, rfl⟩
    split at hw
    · exact Or.inr (by rw [Option.some.inj hw])
    · exact Or.inl ⟨w, ⟨k, hw⟩, rfl⟩
  · rintro (⟨w, ⟨k, hw⟩, rfl⟩ | rfl)
    · by_cases hk : k = line.eventId
      · exact ⟨line, ⟨k, if_pos hk⟩, (hversion w (hk ▸ hw)).symm⟩
      · exact ⟨w, ⟨k, by rw [if_neg hk, hw]⟩, rfl⟩
    · exact ⟨line, ⟨_, if_pos rfl⟩, rfl⟩

theorem mem_periodEnds_retained {d : Date} :
    d ∈ periodEnds (costLines.filterValues (isRetained costLines)) ↔
      d ∈ retainedBillingPeriodEnds (periodEnds costLines) := by
  rw [mem_periodEnds, Dict.values_filterValues]
  constructor
  · rintro ⟨w, hw, rfl⟩
    exact isRetained_iff.mp (List.mem_filter.mp hw).2
  · intro hd
    obtain ⟨w, hw, rfl⟩ := mem_periodEnds.mp (retainedEnds_subset hd)
    exact ⟨w, List.mem_filter.mpr ⟨hw, isRetained_iff.mpr hd⟩, rfl⟩

/-- Evicting before a line is added changes nothing to what is kept after it. -/
theorem retainLine_evicted
    (hversion : ∀ w, costLines.get? line.eventId = some w → w.billingPeriodEnd = line.billingPeriodEnd) :
    retainLine (costLines.filterValues (isRetained costLines)) line =
      (costLines.put line.eventId line).filterValues (isRetained (costLines.put line.eventId line)) := by
  let kept := costLines.filterValues (isRetained costLines)
  let all := costLines.put line.eventId line
  have hends : ∀ d, d ∈ periodEnds all ↔ d ∈ periodEnds costLines ∨ d = line.billingPeriodEnd := fun _ =>
    mem_periodEnds_put hversion
  have hkept : ∀ d, d ∈ periodEnds (kept.put line.eventId line) ↔
      d ∈ retainedBillingPeriodEnds (periodEnds costLines) ∨ d = line.billingPeriodEnd := by
    intro d
    rw [mem_periodEnds_put fun w hw => hversion w (Dict.get?_filterValues.mp hw).1, mem_periodEnds_retained]
  have hsame : ∀ w ∈ (kept.put line.eventId line).values,
      isRetained (kept.put line.eventId line) w = isRetained all w := by
    intro w hw
    rw [Bool.eq_iff_iff, isRetained_iff, isRetained_iff]
    refine retainedEnds_pruned (fun d hd => ?_) (fun d hd => ?_) (fun d hd => (hkept d).mpr (Or.inl hd))
      (mem_periodEnds.mpr ⟨w, hw, rfl⟩)
    · exact (hends d).mpr (((hkept d).mp hd).imp_left (retainedEnds_subset ·))
    · rcases (hends d).mp hd with hd | hd
      · exact List.mem_append_left _ hd
      · exact List.mem_append_right _ ((hkept d).mpr (Or.inr hd))
  calc retainLine kept line
      = (kept.put line.eventId line).filterValues (isRetained (kept.put line.eventId line)) := rfl
    _ = (kept.put line.eventId line).filterValues (isRetained all) := Dict.filterValues_congr hsame
    _ = all.filterValues (isRetained all) := by
      refine Dict.filterValues_put_filterValues (fun w hw hr => ?_) fun w hw => ?_
      · have hin := mem_periodEnds.mpr ⟨w, hw, rfl⟩
        have hmore : periodEnds costLines ⊆ periodEnds all := fun d hd => (hends d).mpr (Or.inl hd)
        exact isRetained_iff.mpr (retainedEnds_of_subset hmore hin (isRetained_iff.mp hr))
      · rw [isRetained, isRetained, hversion w hw]

end

theorem retainedLines_eq {lines : List EnrichedPaymentLine} (hkeep : KeepPeriodEnds lines) :
    retainedLines lines = (receivedLines lines).filterValues (isRetained (receivedLines lines)) := by
  induction lines using List.reverseRecOn with
  | nil => rfl
  | append_singleton lines line ih =>
    have hbefore : KeepPeriodEnds lines := fun x hx y hy =>
      hkeep x (List.mem_append_left _ hx) y (List.mem_append_left _ hy)
    have hstored : retainedLines (lines ++ [line]) = retainLine (retainedLines lines) line :=
      List.foldl_concat ..
    have hreceived : receivedLines (lines ++ [line]) = (receivedLines lines).put line.eventId line :=
      List.foldl_concat ..
    rw [hstored, ih hbefore, hreceived]
    refine retainLine_evicted fun w hw => ?_
    obtain ⟨hw, hsame⟩ := receivedLines_all lines _ w hw
    exact hkeep w (List.mem_append_left _ hw) line (List.mem_append_right _ List.mem_cons_self) hsame

theorem retainedLines_ends (lines : List EnrichedPaymentLine) :
    (periodEnds (retainedLines lines)).toFinset.card ≤ 2 := by
  have hretained : Retained (retainedLines lines) := by
    induction lines using List.reverseRecOn with
    | nil => exact retained_empty
    | append_singleton lines line _ =>
      rw [retainedLines, List.foldl_concat]
      exact retained_retainLine _ _
  have hsub : (periodEnds (retainedLines lines)).toFinset ⊆
      (retainedBillingPeriodEnds (periodEnds (retainedLines lines))).toFinset := fun d hd =>
    List.mem_toFinset.mpr (hretained d (List.mem_toFinset.mp hd))
  exact (Finset.card_le_card hsub).trans ((List.toFinset_card_le _).trans retainedEnds_length_le)

/-! ## The cost of the latest period -/

theorem max?_mem_retained {ends : List Date} {d : Date} (h : ends.max? = some d) :
    d ∈ retainedBillingPeriodEnds ends := by
  obtain ⟨hd, hmax⟩ := List.max?_eq_some_iff.mp h
  have hlatest : laterEnds ends d = ∅ :=
    Finset.filter_eq_empty_iff.mpr fun e he => not_lt.mpr (hmax e (List.mem_toFinset.mp he))
  refine mem_retainedBillingPeriodEnds.mpr ⟨hd, ?_⟩
  rw [hlatest, Finset.card_empty]
  decide

/-- The cost is read off the lines whose end is retained. -/
theorem aggregateCost_filter {lines : List EnrichedPaymentLine} {keep : EnrichedPaymentLine → Bool}
    (hkeep : ∀ line ∈ lines, line.billingPeriodEnd ∈ retainedBillingPeriodEnds (lines.map (·.billingPeriodEnd)) →
      keep line = true) : aggregateCost (lines.filter keep) = aggregateCost lines := by
  rw [aggregateCost_eq, aggregateCost_eq]
  congr 1
  unfold currentLines
  cases hmax : (lines.map (·.billingPeriodEnd)).max? with
  | none =>
    rw [List.max?_eq_none_iff, List.map_eq_nil_iff] at hmax
    subst hmax
    rfl
  | some d =>
    obtain ⟨hd, hle⟩ := List.max?_eq_some_iff.mp hmax
    have hretained : d ∈ retainedBillingPeriodEnds (lines.map (·.billingPeriodEnd)) := max?_mem_retained hmax
    have hmax' : ((lines.filter keep).map (·.billingPeriodEnd)).max? = some d := by
      refine List.max?_eq_some_iff.mpr ⟨?_, fun e he => ?_⟩
      · obtain ⟨line, hline, rfl⟩ := List.mem_map.mp hd
        exact List.mem_map.mpr ⟨line, List.mem_filter.mpr ⟨hline, hkeep line hline hretained⟩, rfl⟩
      · obtain ⟨line, hline, rfl⟩ := List.mem_map.mp he
        exact hle _ (List.mem_map_of_mem (List.mem_of_mem_filter hline))
    simp only [hmax', List.filter_filter]
    refine List.filter_congr fun line hline => ?_
    refine Bool.and_eq_left_iff_imp.mpr fun hend => ?_
    exact hkeep line hline (beq_iff_eq.mp hend ▸ hretained)

/-! ## Runs of Stage A -/

inductive StageAEvent
  | line (now : Instant) (value : EnrichedPaymentLine)
  | config (row : ApartmentConfigRow)

def CostEnrichment.handle (s : CostEnrichment) : StageAEvent → CostEnrichment × List CostAggregate
  | .line now value => s.processElement now value
  | .config row => (s.processBroadcastElement row, [])

def stageAAfter (events : List StageAEvent) : CostEnrichment := events.foldl (fun s e => (s.handle e).1) {}

def paymentLinesOf (events : List StageAEvent) : List EnrichedPaymentLine :=
  events.filterMap fun
    | .line _ value => some value
    | .config _ => none

/-- What a line emits once its period is aggregated. -/
def CostEnrichment.emitted (s : CostEnrichment) (now : Instant) (value : EnrichedPaymentLine) :
    Option CostAggregationResult → List CostAggregate
  | none => []
  | some aggregation =>
    match s.segments.get? value.apartmentId, s.strategies.get? value.apartmentId with
    | some profile, some strategy => [costAggregateOf now value profile strategy aggregation]
    | _, _ => []

theorem processElement_emitted (s : CostEnrichment) (now : Instant) (value : EnrichedPaymentLine) :
    (s.processElement now value).2 =
      s.emitted now value (aggregateCost (s.processElement now value).1.costLines.values) := by
  unfold CostEnrichment.processElement CostEnrichment.emitted
  rfl

theorem stageAAfter_costLines (events : List StageAEvent) :
    (stageAAfter events).costLines = retainedLines (paymentLinesOf events) := by
  induction events using List.reverseRecOn with
  | nil => rfl
  | append_singleton events e ih =>
    rw [stageAAfter, List.foldl_concat, paymentLinesOf, List.filterMap_append]
    cases e with
    | line now value =>
      have hlines : retainedLines (paymentLinesOf events ++ [value]) =
          retainLine (retainedLines (paymentLinesOf events)) value := List.foldl_concat ..
      exact (congrArg (retainLine · value) ih).trans hlines.symm
    | config row =>
      rw [List.filterMap_cons, List.filterMap_nil, List.append_nil]
      exact (processBroadcastElement_costLines _ row).trans ih

/-- A sublist that is up to order what a test keeps is what it keeps. -/
theorem filter_eq_of_sublist {α : Type*} {p : α → Bool} {l kept all : List α} (hall : all.Perm l)
    (hkept : kept.Perm (l.filter p)) (hsub : kept.Sublist all) : kept = all.filter p := by
  have hfilter : kept.filter p = kept := List.filter_eq_self.mpr fun x hx =>
    (List.mem_filter.mp (hkept.mem_iff.mp hx)).2
  have hle : kept.Sublist (all.filter p) := hfilter ▸ hsub.filter p
  exact hle.eq_of_length ((hkept.trans (hall.filter p).symm).length_eq)

/-- Eviction is invisible: each line emits what the latest version of every line received would. -/
theorem eviction_invisible (events : List StageAEvent) (hkeep : KeepPeriodEnds (paymentLinesOf events)) :
    let stored := (stageAAfter events).costLines
    let received := receivedLines (paymentLinesOf events)
    (periodEnds stored).toFinset.card ≤ 2 ∧
    stored.values.Sublist received.values ∧
    (∀ kept all : List EnrichedPaymentLine, kept.Perm stored.values → all.Perm received.values →
      kept.Sublist all → aggregateCost kept = aggregateCost all) ∧
    ∀ before now value, events = before ++ [.line now value] →
      ((stageAAfter before).handle (.line now value)).2 =
        (stageAAfter before).emitted now value (aggregateCost received.values) := by
  intro stored received
  have hstored : stored = received.filterValues (isRetained received) :=
    (stageAAfter_costLines events).trans (retainedLines_eq hkeep)
  have hvalues : stored.values = received.values.filter (isRetained received) := by
    rw [hstored, Dict.values_filterValues]
  have hcost : ∀ kept all : List EnrichedPaymentLine, kept.Perm stored.values → all.Perm received.values →
      kept.Sublist all → aggregateCost kept = aggregateCost all := by
    intro kept all hk ha hsub
    rw [filter_eq_of_sublist ha (hvalues ▸ hk) hsub]
    refine aggregateCost_filter fun line _ hend => isRetained_iff.mpr ?_
    exact (retainedEnds_congr fun d => (ha.map _).mem_iff).mp hend
  refine ⟨?_, hvalues ▸ List.filter_sublist, hcost, ?_⟩
  · rw [show stored = _ from stageAAfter_costLines events]
    exact retainedLines_ends _
  · rintro before now value rfl
    have hafter : ((stageAAfter before).processElement now value).1.costLines = stored :=
      congrArg CostEnrichment.costLines
        (List.foldl_concat (fun s e => (CostEnrichment.handle s e).1) {} (.line now value) before).symm
    rw [CostEnrichment.handle, processElement_emitted, hafter]
    exact congrArg _ (hcost _ _ (List.Perm.refl _) (List.Perm.refl _) (hvalues ▸ List.filter_sublist))

/-- A line of an old period that comes late, and one of a new period after it. -/
def lateElectricity : List StageAEvent :=
  [.line 0 electricityLine,
   .line 1 { electricityLine with eventId := "e4", billingPeriodEnd := toordinal 2026 10 31 },
   .line 2 { electricityLine with eventId := "e5", billingPeriodEnd := toordinal 2026 11 30 },
   .line 3 electricityLine]

theorem lateElectricity_evicted :
    aggregateCost (stageAAfter lateElectricity).costLines.values =
      aggregateCost (receivedLines (paymentLinesOf lateElectricity)).values :=
  (eviction_invisible lateElectricity (by decide)).2.2.1 _ _ (List.Perm.refl _) (List.Perm.refl _)
    (eviction_invisible lateElectricity (by decide)).2.1

end PriceEngine
