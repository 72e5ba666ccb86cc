import PriceEngine.DecisionSound
import PriceEngine.Stages

/-!
# From payment lines to a decision

The cost stages keep every amount non-negative, so the aggregate that reaches
Stage B is well formed. What they do not keep is the netting below the costs:
a percentage line counts in the netted sub-totals but not in the costs, and so
do the undivided quarterly and annual lines. A decision is returned exactly
when the netting is covered all the same.
-/

namespace PriceEngine

structure EnrichedPaymentLine.Admissible (line : EnrichedPaymentLine) : Prop where
  amount : 0 ≤ line.amountGross
  period : line.billingPeriodStart ≤ line.billingPeriodEnd
  rate : ∀ r ∈ line.rate, 0 ≤ r ∧ r ≤ 1

/-! ## Aggregation -/

theorem recurrenceMonthlyDivisor_pos (r : Recurrence) : 0 < recurrenceMonthlyDivisor r := by
  cases r <;> decide +kernel

theorem monthlyEquivalent_nonneg {line : EnrichedPaymentLine} (h : 0 ≤ line.amountGross) :
    0 ≤ monthlyEquivalent line :=
  div_nonneg h (recurrenceMonthlyDivisor_pos _).le

theorem sumWhere_nonneg {f : EnrichedPaymentLine → ℚ} {keep : EnrichedPaymentLine → Bool}
    {lines : List EnrichedPaymentLine} (h : ∀ line ∈ lines, 0 ≤ f line) : 0 ≤ sumWhere f keep lines := by
  refine List.sum_nonneg fun x hx => ?_
  obtain ⟨line, hm, rfl⟩ := List.mem_map.mp hx
  exact h line (List.mem_of_mem_filter hm)

theorem perDay_nonneg {total : ℚ} (h : 0 ≤ total) (availableDays : ℤ) : 0 ≤ perDay availableDays total := by
  unfold perDay
  split
  · exact pyRound_nonneg (div_nonneg h (Int.cast_nonneg (by omega))) 2
  · exact le_rfl

theorem aggregateCost_isSome {lines : List EnrichedPaymentLine} (h : lines ≠ []) :
    ∃ aggregation, aggregateCost lines = some aggregation := by
  cases hmax : (lines.map (·.billingPeriodEnd)).max? with
  | none => exact absurd (List.map_eq_nil_iff.mp (List.max?_eq_none_iff.mp hmax)) h
  | some currentEnd =>
    obtain ⟨line, hm, he⟩ := List.mem_map.mp (List.max?_mem hmax)
    have hf : line ∈ lines.filter fun line => line.billingPeriodEnd == currentEnd :=
      List.mem_filter.mpr ⟨hm, by simpa using he⟩
    cases hh : (lines.filter fun line => line.billingPeriodEnd == currentEnd).head? with
    | none => rw [List.head?_eq_none_iff.mp hh] at hf; cases hf
    | some first =>
      exact ⟨aggregatePeriod currentEnd first.billingPeriodStart
        (lines.filter fun line => line.billingPeriodEnd == currentEnd), by
          simp only [aggregateCost, hmax, Option.bind_eq_bind, Option.bind_some, hh]⟩

/-- The aggregation is that of the lines of one period, dated by the first of them. -/
theorem aggregateCost_eq_some {lines : List EnrichedPaymentLine} {aggregation : CostAggregationResult}
    (h : aggregateCost lines = some aggregation) :
    ∃ first ∈ lines, aggregation = aggregatePeriod first.billingPeriodEnd first.billingPeriodStart
      (lines.filter fun line => line.billingPeriodEnd == first.billingPeriodEnd) := by
  simp only [aggregateCost, Option.bind_eq_bind, Option.bind_eq_some_iff] at h
  obtain ⟨currentEnd, -, first, hf, h⟩ := h
  obtain ⟨hm, he⟩ := List.mem_filter.mp (List.mem_of_mem_head? hf)
  obtain rfl : first.billingPeriodEnd = currentEnd := by simpa using he
  exact ⟨first, hm, (Option.some.inj h).symm⟩

structure CostAggregationResult.Sound (r : CostAggregationResult) : Prop where
  total : 0 ≤ r.totalMonthlyCostEur
  availableDays : 1 ≤ r.availableDays
  fixed : 0 ≤ r.fixedCostEur
  variable' : 0 ≤ r.variableCostEur
  perBooking : 0 ≤ r.perBookingCostEur
  breakdown : ∀ b ∈ r.costBreakdown, 0 ≤ b.amountEur
  pending : ∀ c ∈ r.pendingAllocationCorrections, 0 ≤ c.monthlyEquivalentEur
  rates : ∀ pc ∈ r.percentageCosts, 0 ≤ pc.rate

theorem aggregatePeriod_sound {currentEnd periodStart : Date} {lines : List EnrichedPaymentLine}
    (hp : periodStart ≤ currentEnd) (h : ∀ line ∈ lines, line.Admissible) :
    (aggregatePeriod currentEnd periodStart lines).Sound := by
  have hamount : ∀ line ∈ lines, 0 ≤ line.amountGross := fun line hm => (h line hm).amount
  have hmonthly : ∀ line ∈ lines, 0 ≤ monthlyEquivalent line := fun line hm =>
    monthlyEquivalent_nonneg (hamount line hm)
  refine ⟨?_, ?_, ?_, ?_, ?_, ?_, ?_, ?_⟩
  · exact pyRound_nonneg (sumWhere_nonneg hamount) 2
  · have : (0 : ℤ) ≤ currentEnd - periodStart := sub_nonneg.mpr hp
    exact le_add_of_nonneg_left this
  · exact perDay_nonneg (sumWhere_nonneg fun line hm => hmonthly line
      (List.mem_of_mem_filter (List.mem_of_mem_filter (List.mem_of_mem_filter hm)))) _
  · exact perDay_nonneg (sumWhere_nonneg fun line hm => hmonthly line
      (List.mem_of_mem_filter (List.mem_of_mem_filter (List.mem_of_mem_filter hm)))) _
  · simp only [aggregatePeriod]
    split
    · exact le_rfl
    · exact pyRound_nonneg (div_nonneg (sumWhere_nonneg fun line hm => hamount line
        (List.mem_of_mem_filter (List.mem_of_mem_filter hm))) (Nat.cast_nonneg _)) 2
  · intro b hb
    obtain ⟨concept, -, hc⟩ := List.mem_filterMap.mp hb
    obtain ⟨first, -, rfl⟩ := Option.map_eq_some_iff.mp hc
    exact perDay_nonneg (sumWhere_nonneg hamount) _
  · intro c hc
    obtain ⟨concept, -, hc⟩ := List.mem_filterMap.mp hc
    obtain ⟨first, -, rfl⟩ := Option.map_eq_some_iff.mp hc
    exact pyRound_nonneg (sumWhere_nonneg fun line hm => hmonthly line
      (List.mem_of_mem_filter (List.mem_of_mem_filter (List.mem_of_mem_filter hm)))) 2
  · intro pc hpc
    obtain ⟨concept, -, rfl⟩ := List.mem_map.mp hpc
    cases hr : (firstOf concept (lines.filter isPercentage)).bind (·.rate) with
    | none => simp
    | some r =>
      obtain ⟨line, hl, hr'⟩ := Option.bind_eq_some_iff.mp hr
      have hm := List.mem_of_mem_filter (List.mem_of_find?_eq_some hl)
      simpa [hr] using ((h line hm).rate r hr').1

theorem aggregateCost_sound {lines : List EnrichedPaymentLine} {aggregation : CostAggregationResult}
    (h : ∀ line ∈ lines, line.Admissible) (ha : aggregateCost lines = some aggregation) :
    aggregation.Sound := by
  obtain ⟨first, hm, rfl⟩ := aggregateCost_eq_some ha
  exact aggregatePeriod_sound (h first hm).period fun line hl => h line (List.mem_of_mem_filter hl)

/-! ## The later stages -/

def PendingNonneg (cost : CostAggregate) : Prop :=
  ∀ c ∈ cost.pendingAllocationCorrections, 0 ≤ c.monthlyEquivalentEur

structure PricingStrategy.Admissible (s : PricingStrategy) : Prop where
  version : 1 ≤ s.version
  targetMargin : 0 ≤ s.targetMargin
  discount : 0 ≤ s.competitivenessDiscount
  discount_le : s.competitivenessDiscount ≤ 1

theorem propertyAttributeFactor_nonneg (tier : QualityTier) (rating : ℚ) (hasView hasParking : Bool) :
    0 ≤ propertyAttributeFactor tier rating hasView hasParking := by
  refine pyRound_nonneg (le_min ?_ (by decide +kernel)) 4
  exact le_trans (by decide +kernel) (le_max_right _ minFactor)

section
variable {cost : CostAggregate}

theorem costAggregateOf_wellFormed {aggregation : CostAggregationResult} (h : aggregation.Sound)
    {strategy : PricingStrategy} (hs : strategy.Admissible) (now : Instant) (value : EnrichedPaymentLine)
    (profile : PropertyPricingProfile) :
    (costAggregateOf now value profile strategy aggregation).WellFormed where
  totalMonthly := h.total
  availableDays := h.availableDays
  fixed := h.fixed
  variable' := h.variable'
  perBooking := h.perBooking
  breakdown := h.breakdown
  targetMargin := hs.targetMargin
  discount := hs.discount
  discount_le := hs.discount_le
  factor := propertyAttributeFactor_nonneg _ _ _ _
  commission := by norm_num [costAggregateOf]
  commission_le := by norm_num [costAggregateOf]
  rates := h.rates
  version := hs.version

theorem recompute_wellFormed (h : cost.WellFormed) (bookings : List BookingRow) :
    (recompute bookings cost).WellFormed := { h with }

theorem correctionPerNight_nonneg (h : PendingNonneg cost) :
    ∀ c ∈ cost.pendingAllocationCorrections, 0 ≤ correctionPerNight cost c :=
  fun c hc => perDay_nonneg (h c hc) _

theorem applyCorrections_wellFormed (h : cost.WellFormed) (hp : PendingNonneg cost) :
    (applyCorrections cost).WellFormed := by
  have hadd : ∀ keep : PendingAllocationCorrection → Bool,
      0 ≤ ((cost.pendingAllocationCorrections.filter keep).map (correctionPerNight cost)).sum := by
    intro keep
    refine List.sum_nonneg fun x hx => ?_
    obtain ⟨c, hc, rfl⟩ := List.mem_map.mp hx
    exact correctionPerNight_nonneg hp c (List.mem_of_mem_filter hc)
  unfold applyCorrections
  split
  · exact h
  · exact { h with
      fixed := pyRound_nonneg (add_nonneg h.fixed (hadd _)) 2
      variable' := pyRound_nonneg (add_nonneg h.variable' (hadd _)) 2 }

theorem occurrenceShare_nonneg {s : CompanyCostEnrichment} {occurrence : CompanyCostOccurrenceRow}
    (ho : 0 ≤ occurrence.amountGross) {share : Behavior × ℚ}
    (h : occurrenceShare s cost occurrence = some share) : 0 ≤ share.2 := by
  simp only [occurrenceShare, Option.bind_eq_bind, Option.bind_eq_some_iff] at h
  obtain ⟨definition, -, allocation, -, weightMap, -, h⟩ := h
  split at h
  · cases h
  · rename_i hw
    rw [not_or, not_le] at hw
    rw [← Option.some.inj h]
    exact perDay_nonneg (mul_nonneg (div_nonneg ho (recurrenceMonthlyDivisor_pos _).le) hw.2.le) _

theorem companyCosts_wellFormed (h : cost.WellFormed) {s : CompanyCostEnrichment}
    (ho : ∀ o ∈ s.occurrences.values, 0 ≤ o.amountGross) : (s.processElement cost).WellFormed := by
  have hadd : ∀ keep : Behavior × ℚ → Bool,
      0 ≤ (((s.occurrences.values.filterMap (occurrenceShare s cost)).filter keep).map (·.2)).sum := by
    intro keep
    refine List.sum_nonneg fun x hx => ?_
    obtain ⟨share, hm, rfl⟩ := List.mem_map.mp hx
    obtain ⟨o, hom, hos⟩ := List.mem_filterMap.mp (List.mem_of_mem_filter hm)
    exact occurrenceShare_nonneg (ho o hom) hos
  unfold CompanyCostEnrichment.processElement
  dsimp only
  split
  · exact h
  · exact { h with
      fixed := pyRound_nonneg (add_nonneg h.fixed (hadd _)) 2
      variable' := pyRound_nonneg (add_nonneg h.variable' (hadd _)) 2 }

theorem ownerContract_wellFormed (h : cost.WellFormed) {s : OwnerContractEnrichment}
    (hd : ∀ row ∈ s.costDefinitions.values, ∀ r ∈ row.rate, 0 ≤ r ∧ r ≤ 1) :
    ∀ c ∈ s.processElement cost, c.WellFormed := by
  intro c hc
  unfold OwnerContractEnrichment.processElement at hc
  split at hc
  · cases hc
  · rename_i definition hf
    obtain ⟨assignment, -, hget⟩ := Option.bind_eq_some_iff.mp hf
    have hrate : 0 ≤ definition.rate.getD 0 ∧ definition.rate.getD 0 ≤ 1 := by
      cases hr : definition.rate with
      | none => simp
      | some r => exact hd definition (Dict.mem_values.mpr ⟨_, hget⟩) r hr
    rw [List.mem_singleton.mp hc]
    exact { h with commission := hrate.1, commission_le := hrate.2 }

end

def enrichedAggregates (bookings : List BookingRow) (company : CompanyCostEnrichment)
    (owner : OwnerContractEnrichment) (cost : CostAggregate) : List CostAggregate :=
  owner.processElement (company.processElement (applyCorrections (recompute bookings cost)))

theorem enrichedAggregates_wellFormed {cost : CostAggregate} (h : cost.WellFormed)
    (hp : PendingNonneg cost) (bookings : List BookingRow) {company : CompanyCostEnrichment}
    (ho : ∀ o ∈ company.occurrences.values, 0 ≤ o.amountGross) {owner : OwnerContractEnrichment}
    (hd : ∀ row ∈ owner.costDefinitions.values, ∀ r ∈ row.rate, 0 ≤ r ∧ r ≤ 1) :
    ∀ c ∈ enrichedAggregates bookings company owner cost, c.WellFormed :=
  ownerContract_wellFormed
    (companyCosts_wellFormed (applyCorrections_wellFormed (recompute_wellFormed h bookings) hp) ho) hd

/-! ## Netting -/

/-- The rates and the margin leave a part of every price of the night. -/
structure RatesLeaveRoom (cost : CostAggregate) (night : NightSnapshot) : Prop where
  total : sumOfRates (allPercentageCosts cost) + cost.targetMargin < 1
  channels : ∀ platform ∈ night.channels.keys, ∀ commission,
    channelCommissionPct platform = some commission →
    sumOfRates cost.percentageCosts + commission + cost.targetMargin < 1

/-- The netting stays within the costs: for all percentage costs together, over the longest stay
priced, and for each channel's commission. A floor of minus half a cent still rounds to zero. -/
def NettingCovered (cost : CostAggregate) (night : NightSnapshot) : Prop :=
  pyRound ((allPercentageCosts cost).map fun pc =>
      nettedBy cost pc.rate (pc.revenueBase.getD .totalRevenue)).sum 2 ≤
    pyRound (cost.fixedCostEur + cost.variableCostEur) 2 + cost.perBookingCostEur / 14 +
      (1 - sumOfRates (allPercentageCosts cost) - cost.targetMargin) / 200 ∧
  ∀ platform ∈ night.channels.keys, ∃ commission, channelCommissionPct platform = some commission ∧
    nettedBy cost commission cost.commissionBase ≤
      pyRound (cost.fixedCostEur + cost.variableCostEur) 2 + cost.perBookingCostEur +
        (1 - sumOfRates cost.percentageCosts - commission - cost.targetMargin) / 200

theorem losFloor_nonneg_iff {cost : CostAggregate}
    (hr : sumOfRates (allPercentageCosts cost) + cost.targetMargin < 1) :
    0 ≤ losFloor cost 14 ↔
      pyRound ((allPercentageCosts cost).map fun pc =>
          nettedBy cost pc.rate (pc.revenueBase.getD .totalRevenue)).sum 2 ≤
        pyRound (cost.fixedCostEur + cost.variableCostEur) 2 + cost.perBookingCostEur / 14 +
          (1 - sumOfRates (allPercentageCosts cost) - cost.targetMargin) / 200 := by
  have hpos : 0 < 1 - sumOfRates (allPercentageCosts cost) - cost.targetMargin := by linarith
  have hk : nettingEur cost = pyRound ((allPercentageCosts cost).map fun pc =>
      nettedBy cost pc.rate (pc.revenueBase.getD .totalRevenue)).sum 2 := rfl
  have hn : (((14 : ℕ+) : ℕ) : ℚ) = 14 := by norm_num
  rw [losFloor, pyRound_nonneg_iff, le_div_iff₀ hpos, ← hk, fixedAndAllocatedCostsPerNightEur, hn]
  constructor <;> intro h <;> linarith

theorem channelFloor_nonneg_iff {cost : CostAggregate} {commission : ℚ}
    (hr : sumOfRates cost.percentageCosts + commission + cost.targetMargin < 1) :
    0 ≤ channelFloor cost commission ↔
      nettedBy cost commission cost.commissionBase ≤
        pyRound (cost.fixedCostEur + cost.variableCostEur) 2 + cost.perBookingCostEur +
          (1 - sumOfRates cost.percentageCosts - commission - cost.targetMargin) / 200 := by
  have hpos : 0 < 1 - (sumOfRates cost.percentageCosts + commission) - cost.targetMargin := by linarith
  rw [channelFloor, pyRound_nonneg_iff, le_div_iff₀ hpos, fixedAndAllocatedCostsPerNightEur]
  constructor <;> intro h <;> linarith

theorem floorsNonneg_iff {cost : CostAggregate} {night : NightSnapshot} (hr : RatesLeaveRoom cost night) :
    FloorsNonneg cost night ↔ NettingCovered cost night := by
  refine ⟨?_, ?_⟩
  · intro h
    refine ⟨(losFloor_nonneg_iff hr.total).mp h.los, fun platform hk => ?_⟩
    obtain ⟨commission, hcom, hfloor⟩ := h.channels platform hk
    exact ⟨commission, hcom, (channelFloor_nonneg_iff (hr.channels platform hk commission hcom)).mp hfloor⟩
  · intro h
    refine ⟨(losFloor_nonneg_iff hr.total).mpr h.1, fun platform hk => ?_⟩
    obtain ⟨commission, hcom, hnet⟩ := h.2 platform hk
    exact ⟨commission, hcom, (channelFloor_nonneg_iff (hr.channels platform hk commission hcom)).mpr hnet⟩

/-! ## Pricing -/

structure PricingInput where
  lines : List EnrichedPaymentLine
  value : EnrichedPaymentLine
  profile : PropertyPricingProfile
  strategy : PricingStrategy
  bookings : List BookingRow
  company : CompanyCostEnrichment
  owner : OwnerContractEnrichment
  now : Instant
  night : NightSnapshot
  decisionId : String
  decidedAt : Instant
  targetDate : Date
  floorBreachSince : Option Date

structure PricingInput.Admissible (i : PricingInput) : Prop where
  lines_ne : i.lines ≠ []
  lines : ∀ line ∈ i.lines, line.Admissible
  strategy : i.strategy.Admissible
  company : ∀ o ∈ i.company.occurrences.values, 0 ≤ o.amountGross
  owner : ∀ row ∈ i.owner.costDefinitions.values, ∀ r ∈ row.rate, 0 ≤ r ∧ r ≤ 1
  night : i.night.Valid
  blended : i.night.blended.isSome
  streak : ∀ d ∈ i.floorBreachSince, d ≤ Instant.date i.decidedAt

def PricingInput.Reaches (i : PricingInput) (cost : CostAggregate) : Prop :=
  ∃ aggregation, aggregateCost i.lines = some aggregation ∧
    cost ∈ enrichedAggregates i.bookings i.company i.owner
      (costAggregateOf i.now i.value i.profile i.strategy aggregation)

def PricingInput.Priced (i : PricingInput) (cost : CostAggregate) : Prop :=
  ∃ r, buildPriceDecision i.decisionId i.decidedAt cost i.night i.targetDate i.floorBreachSince = .ok r

theorem PricingInput.Admissible.wellFormed {i : PricingInput} (h : i.Admissible) {cost : CostAggregate}
    (hr : i.Reaches cost) : cost.WellFormed := by
  obtain ⟨aggregation, ha, hc⟩ := hr
  have hsound := aggregateCost_sound h.lines ha
  exact enrichedAggregates_wellFormed (costAggregateOf_wellFormed hsound h.strategy _ _ _) hsound.pending
    i.bookings h.company h.owner cost hc

def electricityLine : EnrichedPaymentLine :=
  { eventId := "e1"
    apartmentId := "a1"
    apartmentReference := "A-1"
    billingPeriodStart := toordinal 2026 9 1
    billingPeriodEnd := toordinal 2026 9 30
    amountGross := 30
    concept := .electricity
    scope := .property
    behavior := .variable'
    trigger := .time
    calculationBase := .fixedAmount
    recurrence := .monthly
    revenueBase := none
    allocationMethod := .direct
    weightConfig := none }

def otaFeeLine : EnrichedPaymentLine :=
  { electricityLine with
    eventId := "e2"
    amountGross := 300
    concept := .otaFee
    scope := .booking
    trigger := .revenue
    calculationBase := .pctAdjustedRevenue
    revenueBase := some .revenueMinusOta
    rate := some (15 / 100) }

def ownerDefinition : CostDefinitionRow :=
  { costDefinitionId := "d1"
    concept := .ownerCommission
    scope := .property
    behavior := .variable'
    trigger := .revenue
    calculationBase := .pctRevenue
    recurrence := .monthly
    revenueBase := some .totalRevenue
    rate := some (10 / 100) }

def septemberInput (lines : List EnrichedPaymentLine) : PricingInput :=
  { lines := lines
    value := electricityLine
    profile :=
      { city := "Barcelona", neighborhood := "Gracia", propertyType := .apartment, bedrooms := 2 }
    strategy := { version := 1, targetMargin := 20 / 100, competitivenessDiscount := 5 / 100 }
    bookings := []
    company := {}
    owner :=
      { ownerContracts := Dict.empty.put "a1" { costDefinitionId := "d1" }
        costDefinitions := Dict.empty.put "d1" ownerDefinition }
    now := 0
    night :=
      { blended := some
          { marketArea := "Barcelona/Gracia"
            avgNightlyRateEur := 120
            occupancyRate := none
            sampleSize := some 12
            collectedAt := 0 } }
    decisionId := "1"
    decidedAt := 0
    targetDate := toordinal 1970 1 21
    floorBreachSince := none }

def septemberCost (lines : List EnrichedPaymentLine) : CostAggregate :=
  let period := aggregatePeriod (toordinal 2026 9 30) (toordinal 2026 9 1) lines
  let cost := costAggregateOf 0 electricityLine (septemberInput lines).profile
    (septemberInput lines).strategy period
  { cost with commissionBase := .totalRevenue, commissionPct := 10 / 100 }

theorem septemberInput_admissible {lines : List EnrichedPaymentLine} (hne : lines ≠ [])
    (h : ∀ line ∈ lines, line.Admissible) : (septemberInput lines).Admissible where
  lines_ne := hne
  lines := h
  strategy := by constructor <;> norm_num [septemberInput]
  company := by intro o ho; cases ho
  owner := by
    intro row hrow r hr
    obtain rfl : row = ownerDefinition := List.mem_singleton.mp hrow
    obtain rfl : r = 10 / 100 := Option.some.inj hr.symm
    norm_num
  night := by
    refine ⟨?_, ?_⟩
    · intro m h; cases h
      exact ⟨by norm_num, by (intro r h; cases h), by (intro n h; cases h; decide)⟩
    · exact Dict.all_empty _
  blended := rfl
  streak := by intro d h; cases h

theorem septemberInput_ratesLeaveRoom (lines : List EnrichedPaymentLine)
    (h : sumOfRates (allPercentageCosts (septemberCost lines)) + 20 / 100 < 1) :
    RatesLeaveRoom (septemberCost lines) (septemberInput lines).night :=
  ⟨h, fun _ hk => nomatch hk⟩

theorem electricityLine_admissible : electricityLine.Admissible :=
  ⟨by decide +kernel, by decide +kernel, by intro r h; cases h⟩

theorem otaFeeLine_admissible : otaFeeLine.Admissible :=
  ⟨by decide +kernel, by decide +kernel, by intro r h; cases h; norm_num⟩

/-- The lines always aggregate, and a cost that reaches Stage B is priced exactly when its netting is
covered by its costs. -/
theorem priced_iff_nettingCovered {i : PricingInput} (h : i.Admissible) :
    (∃ aggregation, aggregateCost i.lines = some aggregation) ∧
    ∀ cost, i.Reaches cost → RatesLeaveRoom cost i.night →
      (i.Priced cost ↔ NettingCovered cost i.night) := by
  refine ⟨aggregateCost_isSome h.lines_ne, fun cost hr hrates => ?_⟩
  obtain ⟨market, hb⟩ := Option.isSome_iff_exists.mp h.blended
  rw [← floorsNonneg_iff hrates]
  exact buildPriceDecision_isOk_iff (h.wellFormed hr) hrates.total h.night hb i.decisionId i.decidedAt
    i.targetDate h.streak

/-- A 15 % fee on revenue minus OTA costs, with 300 EUR of OTA invoices next to 30 EUR of electricity
for 30 nights: 1.50 EUR a night are netted from a cost of 1 EUR, and the schema refuses the floor. -/
theorem otaFeeLine_stops_pricing :
    ¬ ∀ i : PricingInput, i.Admissible → ∀ cost, i.Reaches cost → RatesLeaveRoom cost i.night →
      i.Priced cost := by
  intro h
  have hl : ∀ line ∈ [electricityLine, otaFeeLine], line.Admissible := by
    simp only [List.forall_mem_cons]
    exact ⟨electricityLine_admissible, otaFeeLine_admissible, by intro line h; cases h⟩
  have hrates := septemberInput_ratesLeaveRoom [electricityLine, otaFeeLine]
    (by decide +kernel)
  obtain ⟨r, hr⟩ := h (septemberInput [electricityLine, otaFeeLine])
    (septemberInput_admissible (List.cons_ne_nil _ _) hl) (septemberCost [electricityLine, otaFeeLine])
    ⟨_, rfl, by decide +kernel⟩ hrates
  exact absurd (floorsNonneg_of_build hr).los (by decide +kernel)

end PriceEngine
