import PriceEngine.LineOrder
import PriceEngine.EngineSound

/-!
# One bucket for each cost

A payment line that is no percentage is charged in one of four ways: by day as
a fixed or a variable cost, in the average of one booking, or through a pending
correction. The corrections are drawn up by concept and take their behavior and
their method from the first line of it, and the breakdown goes through a list
of concepts of its own.
-/

namespace PriceEngine

/-! ## The buckets -/

def chargedLines (lines : List EnrichedPaymentLine) : List EnrichedPaymentLine :=
  lines.filter fun line => !isPercentage line

def oneTimeLines (lines : List EnrichedPaymentLine) : List EnrichedPaymentLine :=
  (chargedLines lines).filter isOneTime

def immediateLines (lines : List EnrichedPaymentLine) : List EnrichedPaymentLine :=
  ((chargedLines lines).filter fun line => !isOneTime line).filter isImmediate

def fixedLines (lines : List EnrichedPaymentLine) : List EnrichedPaymentLine :=
  (immediateLines lines).filter fun line => line.behavior == .fixed

def variableLines (lines : List EnrichedPaymentLine) : List EnrichedPaymentLine :=
  (immediateLines lines).filter fun line => [.variable', .semiVariable].contains line.behavior

def monthlyTotal (lines : List EnrichedPaymentLine) : ℚ := (lines.map monthlyEquivalent).sum

def grossTotal (lines : List EnrichedPaymentLine) : ℚ := (lines.map (·.amountGross)).sum

def CostAggregationResult.pendingOf (r : CostAggregationResult) (terms : Behavior × AllocationMethod) :
    List PendingAllocationCorrection :=
  r.pendingAllocationCorrections.filter fun c => (c.behavior, c.allocationMethod) == terms

def CostAggregationResult.buckets (r : CostAggregationResult) : ℚ × ℚ × ℚ × List PendingAllocationCorrection :=
  (r.fixedCostEur, r.variableCostEur, r.perBookingCostEur, r.pendingAllocationCorrections)

structure OfPeriod (periodStart currentEnd : Date) (lines : List EnrichedPaymentLine) : Prop where
  ne : lines ≠ []
  starts : ∀ line ∈ lines, line.billingPeriodStart = periodStart
  ends : ∀ line ∈ lines, line.billingPeriodEnd = currentEnd

structure BucketedOnce (periodStart currentEnd : Date) (lines : List EnrichedPaymentLine) (r : CostAggregationResult) :
    Prop where
  days : r.availableDays = currentEnd - periodStart + 1
  partition : (fixedLines lines ++ variableLines lines ++ oneTimeLines lines ++ deferredLines lines).Perm
    (chargedLines lines)
  fixed : |r.fixedCostEur * r.availableDays - monthlyTotal (fixedLines lines)| ≤ r.availableDays / 200
  variable' : |r.variableCostEur * r.availableDays - monthlyTotal (variableLines lines)| ≤ r.availableDays / 200
  perBooking : HalfCent r.perBookingCostEur (grossTotal (oneTimeLines lines) / (oneTimeLines lines).length)
  corrected : ∀ line ∈ deferredLines lines, ∃ c,
    r.pendingAllocationCorrections.filter (fun c => c.concept == line.concept) = [c] ∧
      (c.behavior, c.allocationMethod) = correctionTerms line
  pending : ∀ terms, |((r.pendingOf terms).map (·.monthlyEquivalentEur)).sum -
    monthlyTotal ((deferredLines lines).filter fun line => correctionTerms line == terms)| ≤
      (r.pendingOf terms).length / 200
  percentages : ∀ others, OfPeriod periodStart currentEnd others → chargedLines others = chargedLines lines →
    ∀ r', aggregateCost others = some r' → r'.buckets = r.buckets
  listed : (r.costBreakdown.map (·.concept)).Nodup ∧
    ∀ concept, concept ∈ r.costBreakdown.map (·.concept) ↔ ∃ line ∈ lines, line.concept = concept
  total : |(r.costBreakdown.map fun a => a.amountEur * (r.availableDays : ℚ)).sum - r.totalMonthlyCostEur| ≤
    r.costBreakdown.length * (r.availableDays / 200)

/-- The deferred lines of a concept share behavior and method, and every concept has its place in the breakdown. -/
structure OneTermEach (lines : List EnrichedPaymentLine) : Prop where
  corrections : ∀ concept, Agree (·.concept) correctionTerms concept (deferredLines lines)
  displayed : ∀ line ∈ lines, line.concept ∈ conceptOrder

/-! ## The lines of the period -/

theorem aggregateCost_ofPeriod {periodStart currentEnd : Date} {lines : List EnrichedPaymentLine}
    (h : OfPeriod periodStart currentEnd lines) :
    aggregateCost lines = some (aggregatePeriod currentEnd periodStart lines) := by
  obtain ⟨r, hr⟩ := aggregateCost_isSome h.ne
  obtain ⟨first, hfirst, rfl⟩ := aggregateCost_eq_some hr
  have hall : (lines.filter fun line => line.billingPeriodEnd == first.billingPeriodEnd) = lines :=
    List.filter_eq_self.mpr fun line hline => by simp [h.ends line hline, h.ends first hfirst]
  rw [hr, hall, h.starts first hfirst, h.ends first hfirst]

theorem aggregatePeriod_buckets (periodStart currentEnd : Date) {lines others : List EnrichedPaymentLine}
    (h : chargedLines others = chargedLines lines) :
    (aggregatePeriod currentEnd periodStart others).buckets = (aggregatePeriod currentEnd periodStart lines).buckets := by
  unfold chargedLines at h
  simp only [CostAggregationResult.buckets, aggregatePeriod, h]

theorem lines_partition (lines : List EnrichedPaymentLine) :
    (fixedLines lines ++ variableLines lines ++ oneTimeLines lines ++ deferredLines lines).Perm
      (chargedLines lines) := by
  have hbehavior : (fixedLines lines ++ variableLines lines).Perm (immediateLines lines) := by
    have hvariable : variableLines lines =
        (immediateLines lines).filter fun line => !(line.behavior == Behavior.fixed) :=
      List.filter_congr fun line _ => by cases line.behavior <;> rfl
    rw [hvariable]
    exact List.filter_append_perm ..
  have hmethod : (immediateLines lines ++ deferredLines lines).Perm
      ((chargedLines lines).filter fun line => !isOneTime line) := List.filter_append_perm ..
  have honce : (oneTimeLines lines ++ (chargedLines lines).filter fun line => !isOneTime line).Perm
      (chargedLines lines) := List.filter_append_perm ..
  have hfront : (fixedLines lines ++ variableLines lines ++ oneTimeLines lines ++ deferredLines lines).Perm
      (oneTimeLines lines ++ immediateLines lines ++ deferredLines lines) :=
    ((hbehavior.append_right _).trans List.perm_append_comm).append_right _
  rw [List.append_assoc (oneTimeLines lines)] at hfront
  exact hfront.trans ((hmethod.append_left _).trans honce)

theorem abs_perDay_mul_sub_le {days : ℤ} (hdays : 0 < days) (total : ℚ) :
    |perDay days total * days - total| ≤ days / 200 := by
  have hpos : (0 : ℚ) < days := by exact_mod_cast hdays
  have hcent : |pyRound (total / days) 2 - total / days| ≤ 1 / 200 := halfCent_pyRound _
  have hscaled : perDay days total * days - total = (pyRound (total / days) 2 - total / days) * days := by
    rw [perDay, if_pos hdays, sub_mul, div_mul_cancel₀ _ hpos.ne']
  rw [hscaled, abs_mul, abs_of_pos hpos]
  calc |pyRound (total / days) 2 - total / days| * days
    _ ≤ 1 / 200 * days := mul_le_mul_of_nonneg_right hcent hpos.le
    _ = days / 200 := by ring

theorem perBooking_eq (periodStart currentEnd : Date) (lines : List EnrichedPaymentLine) :
    (aggregatePeriod currentEnd periodStart lines).perBookingCostEur =
      pyRound (grossTotal (oneTimeLines lines) / (oneTimeLines lines).length) 2 := by
  have hsum : sumWhere (·.amountGross) (fun _ => true) (oneTimeLines lines) = grossTotal (oneTimeLines lines) := by
    rw [sumWhere, List.filter_true, grossTotal]
  change (if (oneTimeLines lines).isEmpty then 0 else _) = _
  split
  · rename_i hempty
    rw [List.isEmpty_iff.mp hempty]
    norm_num [grossTotal, pyRound_zero]
  · rw [← hsum]
    rfl

theorem perBooking_halfCent (periodStart currentEnd : Date) (lines : List EnrichedPaymentLine) :
    HalfCent (aggregatePeriod currentEnd periodStart lines).perBookingCostEur
      (grossTotal (oneTimeLines lines) / (oneTimeLines lines).length) := by
  rw [perBooking_eq]
  exact halfCent_pyRound _

/-! ## The corrections of a concept -/

section
variable {lines : List EnrichedPaymentLine}

theorem pendingCorrectionsOf_concepts (l : List EnrichedPaymentLine) :
    (pendingCorrectionsOf l).map (·.concept) = groupKeys (·.concept) l := by
  have hkeys : (pendingCorrectionsOf l).map (·.concept) =
      (groupKeys (·.concept) l).filter fun k => (correctionOf l k).isSome :=
    map_filterMap_eq_filter fun _ _ => correctionOf_concept
  rw [hkeys, List.filter_eq_self]
  intro concept hconcept
  rw [correctionOf, Option.isSome_map]
  exact firstWith_isSome.mpr (mem_groupKeys.mp hconcept)

theorem pending_amount {l : List EnrichedPaymentLine} {c : PendingAllocationCorrection}
    (hc : c ∈ pendingCorrectionsOf l) :
    c.monthlyEquivalentEur = pyRound (sumWhere monthlyEquivalent (·.concept == c.concept) l) 2 := by
  obtain ⟨first, -, heq⟩ := Option.map_eq_some_iff.mp (mem_pendingCorrectionsOf.mp hc)
  rw [← heq]

theorem pending_terms {l : List EnrichedPaymentLine} {c : PendingAllocationCorrection}
    (hc : c ∈ pendingCorrectionsOf l) (hagree : Agree (·.concept) correctionTerms c.concept l)
    {line : EnrichedPaymentLine} (hline : line ∈ l) (hconcept : line.concept = c.concept) :
    (c.behavior, c.allocationMethod) = correctionTerms line := by
  obtain ⟨first, hfirst, heq⟩ := Option.map_eq_some_iff.mp (mem_pendingCorrectionsOf.mp hc)
  obtain ⟨hmem, hkey⟩ := firstWith_mem hfirst
  have hterms : (c.behavior, c.allocationMethod) = correctionTerms first := by rw [← heq]; rfl
  rw [hterms]
  exact hagree first hmem line hline hkey hconcept

theorem pending_filter_concept {l : List EnrichedPaymentLine} {line : EnrichedPaymentLine} (hline : line ∈ l) :
    ∃ c ∈ pendingCorrectionsOf l, c.concept = line.concept ∧
      (pendingCorrectionsOf l).filter (fun c => c.concept == line.concept) = [c] := by
  have hnodup : ((pendingCorrectionsOf l).map (·.concept)).Nodup := by
    rw [pendingCorrectionsOf_concepts]
    exact groupKeys_nodup ..
  have hmem : line.concept ∈ (pendingCorrectionsOf l).map (·.concept) := by
    rw [pendingCorrectionsOf_concepts]
    exact mem_groupKeys.mpr ⟨line, hline, rfl⟩
  obtain ⟨c, hc, hconcept⟩ := List.mem_map.mp hmem
  exact ⟨c, hc, hconcept, hconcept ▸ filter_key_eq_singleton hnodup hc⟩

theorem pending_pair (hagree : ∀ concept, Agree (·.concept) correctionTerms concept (deferredLines lines))
    (periodStart currentEnd : Date) (terms : Behavior × AllocationMethod) :
    |((((aggregatePeriod currentEnd periodStart lines).pendingOf terms).map (·.monthlyEquivalentEur)).sum -
      monthlyTotal ((deferredLines lines).filter fun line => correctionTerms line == terms))| ≤
        ((aggregatePeriod currentEnd periodStart lines).pendingOf terms).length / 200 := by
  let pending := (pendingCorrectionsOf (deferredLines lines)).filter fun c => (c.behavior, c.allocationMethod) == terms
  let ofConcept (c : PendingAllocationCorrection) : ℚ :=
    sumWhere monthlyEquivalent (·.concept == c.concept) (deferredLines lines)
  have hpending : (aggregatePeriod currentEnd periodStart lines).pendingOf terms = pending := rfl
  have hclose : ∀ c ∈ pending, |c.monthlyEquivalentEur - ofConcept c| ≤ 1 / 200 := by
    intro c hc
    rw [pending_amount (List.mem_of_mem_filter hc)]
    exact halfCent_pyRound _
  have hnodup : (pending.map (·.concept)).Nodup := by
    have hsub : (pending.map (·.concept)).Sublist ((pendingCorrectionsOf (deferredLines lines)).map (·.concept)) :=
      List.filter_sublist.map _
    rw [pendingCorrectionsOf_concepts] at hsub
    exact (groupKeys_nodup ..).sublist hsub
  -- the concepts of these corrections are those of the lines with the same terms
  have hlines : ((deferredLines lines).filter fun line => (pending.map (·.concept)).contains line.concept) =
      (deferredLines lines).filter fun line => correctionTerms line == terms := by
    refine List.filter_congr fun line hline => ?_
    rw [Bool.eq_iff_iff, List.contains_iff_mem, beq_iff_eq, List.mem_map]
    constructor
    · rintro ⟨c, hc, hconcept⟩
      obtain ⟨hc, hterms⟩ := List.mem_filter.mp hc
      rw [← pending_terms hc (hagree _) hline hconcept.symm, beq_iff_eq.mp hterms]
    · intro hterms
      obtain ⟨c, hc, hconcept, -⟩ := pending_filter_concept hline
      have hown := pending_terms hc (hagree _) hline hconcept.symm
      exact ⟨c, List.mem_filter.mpr ⟨hc, beq_iff_eq.mpr (hown.trans hterms)⟩, hconcept⟩
  have hsum : (pending.map ofConcept).sum =
      monthlyTotal ((deferredLines lines).filter fun line => correctionTerms line == terms) := by
    have hkeys := sum_keys (·.concept) hnodup monthlyEquivalent (deferredLines lines)
    rw [List.map_map, hlines] at hkeys
    exact hkeys
  rw [hpending, ← hsum, div_eq_mul_one_div]
  exact abs_sum_sub_sum_le hclose

end

/-! ## The breakdown -/

section
variable {lines : List EnrichedPaymentLine}

theorem costBreakdownOf_concepts (days : ℤ) (lines : List EnrichedPaymentLine) :
    (costBreakdownOf days lines).map (·.concept) = conceptOrder.filter fun k => (firstOf k lines).isSome := by
  have hkeys : (costBreakdownOf days lines).map (·.concept) =
      conceptOrder.filter fun k => (breakdownOf days lines k).isSome :=
    map_filterMap_eq_filter fun _ _ => breakdownOf_concept
  simpa only [breakdownOf, Option.isSome_map] using hkeys

theorem costBreakdownOf_nodup (days : ℤ) (lines : List EnrichedPaymentLine) :
    ((costBreakdownOf days lines).map (·.concept)).Nodup := by
  rw [costBreakdownOf_concepts]
  exact List.Nodup.filter _ (by decide)

theorem mem_breakdown_concepts {days : ℤ} {concept : Concept} :
    concept ∈ (costBreakdownOf days lines).map (·.concept) ↔
      concept ∈ conceptOrder ∧ ∃ line ∈ lines, line.concept = concept := by
  rw [costBreakdownOf_concepts, List.mem_filter]
  exact and_congr_right fun _ => firstWith_isSome

theorem breakdown_amount {days : ℤ} {a : ConceptAmount} (ha : a ∈ costBreakdownOf days lines) :
    a.amountEur = perDay days (sumWhere (·.amountGross) (·.concept == a.concept) lines) := by
  obtain ⟨first, -, heq⟩ := Option.map_eq_some_iff.mp (mem_costBreakdownOf.mp ha).2
  rw [← heq]

theorem breakdown_total {days : ℤ} (hdays : 0 < days) (hdisplayed : ∀ line ∈ lines, line.concept ∈ conceptOrder) :
    |((costBreakdownOf days lines).map fun a => a.amountEur * (days : ℚ)).sum - grossTotal lines| ≤
      (costBreakdownOf days lines).length * (days / 200) := by
  let ofConcept (a : ConceptAmount) : ℚ := sumWhere (·.amountGross) (·.concept == a.concept) lines
  have hclose : ∀ a ∈ costBreakdownOf days lines, |a.amountEur * days - ofConcept a| ≤ days / 200 := by
    intro a ha
    rw [breakdown_amount ha]
    exact abs_perDay_mul_sub_le hdays _
  have hall : (lines.filter fun line => ((costBreakdownOf days lines).map (·.concept)).contains line.concept) =
      lines := by
    refine List.filter_eq_self.mpr fun line hline => ?_
    rw [List.contains_iff_mem, mem_breakdown_concepts]
    exact ⟨hdisplayed line hline, line, hline, rfl⟩
  have hsum : ((costBreakdownOf days lines).map ofConcept).sum = grossTotal lines := by
    have hkeys := sum_keys (·.concept) (costBreakdownOf_nodup days lines) (·.amountGross) lines
    rw [List.map_map, hall] at hkeys
    exact hkeys
  rw [← hsum]
  exact abs_sum_sub_sum_le hclose

end

/-! ## Charged once -/

section
variable {periodStart currentEnd : Date} {lines : List EnrichedPaymentLine}

theorem bucketedOnce_of_terms (hdays : periodStart ≤ currentEnd)
    (hcents : ∀ line ∈ lines, pyRound line.amountGross 2 = line.amountGross) (hterms : OneTermEach lines) :
    BucketedOnce periodStart currentEnd lines (aggregatePeriod currentEnd periodStart lines) := by
  have hpos : 0 < currentEnd - periodStart + 1 := Int.lt_add_one_of_le (Int.sub_nonneg_of_le hdays)
  have htotal : (aggregatePeriod currentEnd periodStart lines).totalMonthlyCostEur = grossTotal lines := by
    change pyRound (sumWhere _ _ lines) 2 = _
    rw [sumWhere, List.filter_true]
    exact pyRound_sum_eq_self (List.forall_mem_map.mpr hcents)
  constructor
  case days => rfl
  case partition => exact lines_partition lines
  case fixed => exact abs_perDay_mul_sub_le hpos _
  case variable' => exact abs_perDay_mul_sub_le hpos _
  case perBooking => exact perBooking_halfCent ..
  case corrected =>
    intro line hline
    obtain ⟨c, hc, hconcept, hfilter⟩ := pending_filter_concept hline
    exact ⟨c, hfilter, pending_terms hc (hterms.corrections _) hline hconcept.symm⟩
  case pending => exact pending_pair hterms.corrections periodStart currentEnd
  case percentages =>
    intro others hothers hsame r' hr'
    rw [aggregateCost_ofPeriod hothers] at hr'
    rw [← Option.some.inj hr']
    exact aggregatePeriod_buckets periodStart currentEnd hsame
  case listed =>
    refine ⟨costBreakdownOf_nodup _ lines, fun concept => mem_breakdown_concepts.trans (and_iff_right_of_imp ?_)⟩
    rintro ⟨line, hline, rfl⟩
    exact hterms.displayed line hline
  case total =>
    rw [htotal]
    exact breakdown_total hpos hterms.displayed

theorem oneTermEach_of_bucketed
    (h : BucketedOnce periodStart currentEnd lines (aggregatePeriod currentEnd periodStart lines)) :
    OneTermEach lines := by
  constructor
  · intro concept x hx y hy hkx hky
    obtain ⟨c, hc, hterms⟩ := h.corrected x hx
    obtain ⟨c', hc', hterms'⟩ := h.corrected y hy
    have hconcept : x.concept = y.concept := Eq.trans hkx (Eq.symm hky)
    rw [← hconcept, hc] at hc'
    obtain rfl : c = c' := List.singleton_inj.mp hc'
    exact hterms.symm.trans hterms'
  · intro line hline
    exact (mem_breakdown_concepts.mp ((h.listed.2 line.concept).mpr ⟨line, hline, rfl⟩)).1

/-- Every cost is in one bucket with its own terms exactly if the deferred lines of each concept share theirs and
the breakdown knows every concept. -/
theorem charged_once_iff (hdays : periodStart ≤ currentEnd) (h : OfPeriod periodStart currentEnd lines)
    (hcents : ∀ line ∈ lines, pyRound line.amountGross 2 = line.amountGross) :
    ∃ r, aggregateCost lines = some r ∧ (BucketedOnce periodStart currentEnd lines r ↔ OneTermEach lines) :=
  ⟨_, aggregateCost_ofPeriod h, oneTermEach_of_bucketed, bucketedOnce_of_terms hdays hcents⟩

end

/-! ## Two definitions of one concept -/

def caretakerLine : EnrichedPaymentLine :=
  { electricityLine with
    eventId := "e4"
    amountGross := 100
    concept := .other
    behavior := .fixed
    allocationMethod := .booking }

/-- Linen of another definition under the same concept, paid by occupied night. -/
def linenLine : EnrichedPaymentLine :=
  { caretakerLine with
    eventId := "e5"
    amountGross := 50
    behavior := .variable'
    allocationMethod := .occupiedNight }

theorem september_ofPeriod {lines : List EnrichedPaymentLine} (hne : lines ≠ [])
    (h : ∀ line ∈ lines, line ∈ [electricityLine, caretakerLine, linenLine]) :
    OfPeriod (toordinal 2026 9 1) (toordinal 2026 9 30) lines := by
  have hall : ∀ line ∈ [electricityLine, caretakerLine, linenLine],
      line.billingPeriodStart = toordinal 2026 9 1 ∧ line.billingPeriodEnd = toordinal 2026 9 30 := by decide
  exact ⟨hne, fun line hline => (hall line (h line hline)).1, fun line hline => (hall line (h line hline)).2⟩

theorem caretaker_charged : ∃ r, aggregateCost [electricityLine, caretakerLine] = some r ∧
    BucketedOnce (toordinal 2026 9 1) (toordinal 2026 9 30) [electricityLine, caretakerLine] r := by
  have hperiod : OfPeriod (toordinal 2026 9 1) (toordinal 2026 9 30) [electricityLine, caretakerLine] :=
    september_ofPeriod (by decide) (by decide)
  obtain ⟨r, hr, hiff⟩ := charged_once_iff (by decide) hperiod (by decide +kernel)
  refine ⟨r, hr, hiff.mpr ⟨fun concept x hx y hy _ _ => ?_, by decide⟩⟩
  have hdeferred : deferredLines [electricityLine, caretakerLine] = [caretakerLine] := by decide
  rw [hdeferred, List.mem_singleton] at hx hy
  rw [hx, hy]

/-- The linen of 50 a month is charged by booking, with the caretaker. -/
theorem linen_by_booking : ¬ ∀ (periodStart currentEnd : Date) (lines : List EnrichedPaymentLine),
    periodStart ≤ currentEnd → OfPeriod periodStart currentEnd lines →
    (∀ line ∈ lines, pyRound line.amountGross 2 = line.amountGross) →
      ∃ r, aggregateCost lines = some r ∧ BucketedOnce periodStart currentEnd lines r := by
  intro hall
  have hperiod : OfPeriod (toordinal 2026 9 1) (toordinal 2026 9 30) [caretakerLine, linenLine] :=
    september_ofPeriod (by decide) (by decide)
  obtain ⟨r, hr, hcharged⟩ := hall _ _ [caretakerLine, linenLine] (by decide) hperiod (by decide +kernel)
  rw [aggregateCost_ofPeriod hperiod] at hr
  have hagree := (oneTermEach_of_bucketed (Option.some.inj hr ▸ hcharged)).corrections .other
  have hterms := hagree caretakerLine (by decide) linenLine (by decide) rfl rfl
  exact absurd hterms (by decide)

end PriceEngine
