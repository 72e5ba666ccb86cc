import PriceEngine.ComponentKinds
import PriceEngine.PercentageCosts

/-!
# Decisions from their own record

A decision publishes the arguments of its calculation except the netting, of
which it publishes the parts: one component for each netted base, with the
rounded amount as its impact. A base that nets nothing has no component, and
adds nothing. So the figures can be computed again from the record alone.
-/

namespace PriceEngine

/-! ## A second run -/

def isNetting (c : DecisionComponent) : Bool := c.code == .revenueBaseNetting

/-- The netting as the components tell it: minus the sum of their impacts. -/
def publishedNettingEur (components : List DecisionComponent) : ℚ :=
  -((components.filter isNetting).map (·.impact)).sum

def PriceDecisionRecord.publishedArgs (r : PriceDecisionRecord) : PriceArgs :=
  { fixedAndAllocatedCostsPerNightEur := r.costInputs.fixedAndAllocatedCostsEur
    perBookingCostEur := r.costInputs.perBookingCostEur
    p := r.costInputs.p
    targetMargin := r.calculation.targetMargin
    avgNightlyRateEur := r.marketInputs.avgNightlyRateEur
    competitivenessDiscount := r.calculation.competitivenessDiscount
    propertyAttributeFactor := r.calculation.propertyAttributeFactor
    nettingEur := publishedNettingEur r.calculation.decisionComponents
    daysToArrival := r.calculation.daysToArrival }

structure PublishedFigures where
  minimumPriceEur : ℚ
  breakEvenRevenueEur : ℚ
  profitableFloorEur : ℚ
  floorPolicy : FloorPolicy
  propertyReferencePriceEur : ℚ
  marketReferencePriceEur : ℚ
  ruleApplied : RuleApplied
  suggestedPriceEur : ℚ
  effectiveMargin : ℚ
  belowMarketBy : ℚ
  losFloorMatrix : List LosFloorCandidate
  minimumStayRecommendation : MinimumStayFields

def PriceDecisionRecord.figures (r : PriceDecisionRecord) : PublishedFigures :=
  { minimumPriceEur := r.calculation.minimumPriceEur
    breakEvenRevenueEur := r.calculation.breakEvenRevenueEur
    profitableFloorEur := r.calculation.profitableFloorEur
    floorPolicy := r.calculation.floorPolicy
    propertyReferencePriceEur := r.calculation.propertyReferencePriceEur
    marketReferencePriceEur := r.calculation.marketReferencePriceEur
    ruleApplied := r.calculation.ruleApplied
    suggestedPriceEur := r.output.suggestedPriceEur
    effectiveMargin := r.output.effectiveMargin
    belowMarketBy := r.output.belowMarketBy
    losFloorMatrix := r.calculation.losFloorMatrix
    minimumStayRecommendation := r.calculation.minimumStayRecommendation }

def figuresOf (calculation : PriceCalculation) (losMatrix : List LosFloorCandidate)
    (minimumStay : MinimumStayRecommendation) : PublishedFigures :=
  { minimumPriceEur := calculation.minimumPriceEur
    breakEvenRevenueEur := calculation.breakEvenRevenueEur
    profitableFloorEur := calculation.profitableFloorEur
    floorPolicy := calculation.floorPolicy
    propertyReferencePriceEur := calculation.propertyReferencePriceEur
    marketReferencePriceEur := calculation.marketReferencePriceEur
    ruleApplied := calculation.ruleApplied
    suggestedPriceEur := calculation.suggestedPriceEur
    effectiveMargin := calculation.effectiveMargin
    belowMarketBy := calculation.belowMarketBy
    losFloorMatrix := losMatrix
    minimumStayRecommendation :=
      { recommendedMinStay := minimumStay.recommendedMinStay
        floorReliefEur := minimumStay.floorReliefEur
        costPerReservationEur := minimumStay.costPerReservationEur
        suggestedPricePerReservationEur := minimumStay.suggestedPricePerReservationEur } }

/-- `decidePrice`, `decidePriceLosMatrix` and `recommendMinimumStay`, one after the other. -/
def rerun (a : PriceArgs) : Except PricingError PublishedFigures := do
  let calculation := decidePrice a
  let losMatrix := decidePriceLosMatrix a
  let minimumStay ← recommendMinimumStay losMatrix calculation.propertyReferencePriceEur
    a.fixedAndAllocatedCostsPerNightEur a.perBookingCostEur
  .ok (figuresOf calculation losMatrix minimumStay)

/-! ## What the components explain -/

theorem isNetting_eq_false {c : DecisionComponent} {kind : Explains} (h : c.code.explains = kind)
    (hkind : kind ≠ .netting) : isNetting c = false := by
  unfold isNetting
  rw [beq_eq_false_iff_ne]
  intro hcode
  rw [hcode] at h
  exact hkind h.symm

/-! ## The netting from its parts -/

theorem publishedNettingEur_append (l l' : List DecisionComponent) :
    publishedNettingEur (l ++ l') = publishedNettingEur l + publishedNettingEur l' := by
  simp only [publishedNettingEur, List.filter_append, List.map_append, List.sum_append, neg_add]

theorem publishedNettingEur_none {l : List DecisionComponent} (h : ∀ c ∈ l, isNetting c = false) :
    publishedNettingEur l = 0 := by
  have hnil : l.filter isNetting = [] := List.filter_eq_nil_iff.mpr fun c hc => by simp [h c hc]
  rw [publishedNettingEur, hnil]
  rfl

theorem publishedNettingEur_toList {o : Option DecisionComponent} (h : ∀ c ∈ o, isNetting c = false) :
    publishedNettingEur o.toList = 0 :=
  publishedNettingEur_none fun c hc => h c (Option.mem_toList.mp hc)

/-- Without a component nothing is netted; otherwise its impact is what is netted. -/
theorem publishedNettingEur_component (base : RevenueBase) (rate : ℚ) {net : ℚ} (hnet : 0 ≤ net) :
    publishedNettingEur (revenueBaseNettingComponent base rate net).toList = pyRound (rate * net) 2 := by
  unfold revenueBaseNettingComponent
  split
  · rename_i hle
    rw [le_antisymm hle hnet, mul_zero, pyRound_zero]
    rfl
  · simp [publishedNettingEur, isNetting]

/-- The netted sub-totals are not negative, and no attribute is explained as a netting: Stage A sees to both. -/
structure CostAggregate.Auditable (cost : CostAggregate) : Prop where
  ota : 0 ≤ cost.otaRelatedCostEur
  cleaning : 0 ≤ cost.cleaningCostEur
  laundry : 0 ≤ cost.laundryCostEur
  bookingScope : 0 ≤ cost.bookingScopeCostEur
  attributes : ∀ c ∈ cost.propertyDecisionComponents, isNetting c = false

section
variable {cost : CostAggregate} (h : cost.Auditable)
include h

theorem netOf_nonneg (pc : PercentageCostComponent) : 0 ≤ netOf cost pc := by
  unfold netOf
  cases pc.revenueBase.getD .totalRevenue with
  | totalRevenue => exact le_rfl
  | revenueMinusOta => exact h.ota
  | revenueMinusOtaMinusCleaning => exact add_nonneg h.ota h.cleaning
  | revenueMinusOtaMinusCleaningMinusLaundry => exact add_nonneg (add_nonneg h.ota h.cleaning) h.laundry
  | revenueMinusAllBookingCosts => exact h.bookingScope

theorem published_nettingComponents : publishedNettingEur (nettingComponents cost) = nettingEur cost := by
  have hcents : ∀ x ∈ (allPercentageCosts cost).map fun pc => pyRound (pc.rate * netOf cost pc) 2,
      pyRound x 2 = x := by
    intro x hx
    obtain ⟨pc, -, rfl⟩ := List.mem_map.mp hx
    exact pyRound_pyRound _ 2
  rw [nettingEur, pyRound_sum_eq_self hcents, nettingComponents]
  clear hcents
  induction allPercentageCosts cost with
  | nil => rfl
  | cons pc pcs ih =>
    have hhead := publishedNettingEur_component (pc.revenueBase.getD .totalRevenue) pc.rate (netOf_nonneg h pc)
    rw [List.map_cons, List.sum_cons, ← ih, ← hhead, ← publishedNettingEur_append]
    refine congrArg publishedNettingEur ?_
    rw [List.filterMap_cons]
    split <;> rename_i heq <;> simp [heq]

theorem publishedNettingEur_calculation (market : MarketSnapshot) (days : ℤ) :
    publishedNettingEur (decidePrice (nightArgs cost market days)).decisionComponents = nettingEur cost := by
  have hattributes : publishedNettingEur cost.propertyDecisionComponents = 0 :=
    publishedNettingEur_none h.attributes
  have hwindow := publishedNettingEur_toList (o := bookingWindowComponent days) fun c hc =>
    isNetting_eq_false (bookingWindowComponent_explains c hc) (by decide)
  have hrule := publishedNettingEur_none (List.forall_mem_singleton.mpr (isNetting_eq_false
    (applyGuardrails_explains (priceTerms (nightArgs cost market days)).profitableFloorEur
      (priceTerms (nightArgs cost market days)).marketReferencePriceEur
      (priceTerms (nightArgs cost market days)).propertyReferencePriceEur) (by decide)))
  simp only [decidePrice, publishedNettingEur_append]
  change publishedNettingEur cost.propertyDecisionComponents + publishedNettingEur (nettingComponents cost) +
    publishedNettingEur (bookingWindowComponent days).toList + publishedNettingEur _ = _
  rw [hattributes, published_nettingComponents h, hwindow]
  refine (congrArg (0 + nettingEur cost + 0 + ·) hrule).trans ?_
  ring

end

/-! ## The record determines the run -/

/-- The arguments without the components: the figures do not depend on them. -/
def PriceArgs.plain (a : PriceArgs) : PriceArgs :=
  { a with propertyDecisionComponents := [], commissionDecisionComponents := [] }

theorem rerun_plain (a : PriceArgs) : rerun a.plain = rerun a := rfl

section
variable {decisionId : String} {decidedAt : Instant} {cost : CostAggregate} {night : NightSnapshot}
  {targetDate : Date} {since since' : Option Date} {d : PriceDecision}
  (h : buildPriceDecision decisionId decidedAt cost night targetDate since = .ok (d, since'))
include h

/-- The published arguments are those the night was priced with. -/
theorem publishedArgs_build (hcost : cost.Auditable) : ∃ market, night.blended = some market ∧
    d.publishedArgs = (nightArgs cost market (targetDate - Instant.date decidedAt)).plain := by
  obtain ⟨market, minimumStay, channels, hblended, hstay, -, hd, -⟩ := buildPriceDecision_eq_ok.mp h
  refine ⟨market, hblended, ?_⟩
  have hnetting : publishedNettingEur d.calculation.decisionComponents = nettingEur cost := by
    have hnone := publishedNettingEur_toList fun c hc =>
      isNetting_eq_false (recommendMinimumStay_explains hstay c hc) (by decide)
    rw [hd]
    refine (publishedNettingEur_append _ _).trans ?_
    rw [hnone, publishedNettingEur_calculation hcost, add_zero]
  unfold PriceDecisionRecord.publishedArgs
  rw [hnetting, hd]
  rfl

theorem rerun_build {market : MarketSnapshot} (hblended : night.blended = some market) :
    rerun (nightArgs cost market (targetDate - Instant.date decidedAt)) = .ok d.figures := by
  obtain ⟨market', minimumStay, channels, hblended', hstay, -, hd, -⟩ := buildPriceDecision_eq_ok.mp h
  obtain rfl : market = market' := Option.some.inj (hblended.symm.trans hblended')
  refine bind_eq_ok.mpr ⟨minimumStay, hstay, ?_⟩
  rw [hd]
  rfl

theorem rerun_published (hcost : cost.Auditable) : rerun d.publishedArgs = .ok d.figures := by
  obtain ⟨market, hblended, hargs⟩ := publishedArgs_build h hcost
  rw [hargs, rerun_plain]
  exact rerun_build h hblended

end

/-! ## What reaches Stage B -/

theorem aggregatePeriod_netted {currentEnd periodStart : Date} {lines : List EnrichedPaymentLine}
    (h : ∀ line ∈ lines, line.Admissible) (keep : EnrichedPaymentLine → Bool) :
    0 ≤ perDay (currentEnd - periodStart + 1) (sumWhere (·.amountGross) keep lines) :=
  perDay_nonneg (sumWhere_nonneg fun line hm => (h line hm).amount) _

/-- The netted sub-totals and the attributes are Stage A's; the later cost stages keep them. -/
theorem enrichedAggregates_keep {cost c : CostAggregate} {bookings : List BookingRow}
    {company : CompanyCostEnrichment} {owner : OwnerContractEnrichment}
    (hc : c ∈ enrichedAggregates bookings company owner cost) :
    c.otaRelatedCostEur = cost.otaRelatedCostEur ∧ c.cleaningCostEur = cost.cleaningCostEur ∧
      c.laundryCostEur = cost.laundryCostEur ∧ c.bookingScopeCostEur = cost.bookingScopeCostEur ∧
      c.propertyAttributeFactor = cost.propertyAttributeFactor ∧
      c.propertyDecisionComponents = cost.propertyDecisionComponents := by
  obtain ⟨_, _, _, hcorrected⟩ := applyCorrections_kept (recompute bookings cost)
  obtain ⟨_, _, hcompany⟩ := companyCosts_kept company (applyCorrections (recompute bookings cost))
  unfold enrichedAggregates OwnerContractEnrichment.processElement at hc
  rw [hcompany, hcorrected] at hc
  split at hc
  · cases hc
  · rw [List.mem_singleton.mp hc]
    exact ⟨rfl, rfl, rfl, rfl, rfl, rfl⟩

theorem enrichedAggregates_auditable {cost : CostAggregate} (h : cost.Auditable)
    (bookings : List BookingRow) (company : CompanyCostEnrichment) (owner : OwnerContractEnrichment) :
    ∀ c ∈ enrichedAggregates bookings company owner cost, c.Auditable := by
  intro c hc
  obtain ⟨hota, hcleaning, hlaundry, hbooking, -, hcomponents⟩ := enrichedAggregates_keep hc
  exact
    { ota := hota ▸ h.ota
      cleaning := hcleaning ▸ h.cleaning
      laundry := hlaundry ▸ h.laundry
      bookingScope := hbooking ▸ h.bookingScope
      attributes := hcomponents ▸ h.attributes }

/-- Every aggregate the cost stages hand to Stage B can be audited. -/
theorem PricingInput.Admissible.auditable {i : PricingInput} (h : i.Admissible) {cost : CostAggregate}
    (hr : i.Reaches cost) : cost.Auditable := by
  obtain ⟨aggregation, ha, hc⟩ := hr
  obtain ⟨first, -, rfl⟩ := aggregateCost_eq_some ha
  have hlines := fun line (hl : line ∈ i.lines.filter fun line =>
    line.billingPeriodEnd == first.billingPeriodEnd) => h.lines line (List.mem_of_mem_filter hl)
  refine enrichedAggregates_auditable ?_ i.bookings i.company i.owner cost hc
  exact
    { ota := aggregatePeriod_netted hlines _
      cleaning := aggregatePeriod_netted hlines _
      laundry := aggregatePeriod_netted hlines _
      bookingScope := aggregatePeriod_netted hlines _
      attributes := fun c hc =>
        isNetting_eq_false (propertyAttributeComponents_explain _ _ _ _ c hc) (by decide) }

/-! ## Reproducibility -/

/-- A second run on what a decision publishes gives the figures it publishes, so that decisions with the
same published arguments publish the same figures. -/
theorem decisions_reproducible {decisionId : String} {decidedAt : Instant} {cost : CostAggregate}
    {night : NightSnapshot} {targetDate : Date} {since since' : Option Date} {d : PriceDecision}
    (hcost : cost.Auditable)
    (h : buildPriceDecision decisionId decidedAt cost night targetDate since = .ok (d, since')) :
    rerun d.publishedArgs = .ok d.figures ∧
    (d.targetDate = targetDate ∧ d.decidedAt = decidedAt ∧
      d.calculation.daysToArrival = targetDate - Instant.date decidedAt) ∧
    ∀ (decisionId₂ : String) (decidedAt₂ : Instant) (cost₂ : CostAggregate) (night₂ : NightSnapshot)
      (targetDate₂ : Date) (since₂ since₂' : Option Date) (d₂ : PriceDecision), cost₂.Auditable →
      buildPriceDecision decisionId₂ decidedAt₂ cost₂ night₂ targetDate₂ since₂ = .ok (d₂, since₂') →
      d₂.publishedArgs = d.publishedArgs → d₂.figures = d.figures := by
  have hrerun := rerun_published h hcost
  refine ⟨hrerun, ?_, ?_⟩
  · obtain ⟨market, minimumStay, channels, -, -, -, hd, -⟩ := buildPriceDecision_eq_ok.mp h
    rw [hd]
    exact ⟨rfl, rfl, rfl⟩
  · intro decisionId₂ decidedAt₂ cost₂ night₂ targetDate₂ since₂ since₂' d₂ hcost₂ h₂ hargs
    have hrerun₂ := rerun_published h₂ hcost₂
    rw [hargs, hrerun] at hrerun₂
    exact (Except.ok.inj hrerun₂).symm

/-- 900 EUR of electricity and 300 EUR of OTA invoices for 30 nights, with a fee of 15 % on what is left
after the OTA: 1.50 EUR a night are netted. -/
def pricedSeptember : List EnrichedPaymentLine := [{ electricityLine with amountGross := 900 }, otaFeeLine]

theorem pricedSeptember_auditable : (septemberCost pricedSeptember).Auditable := by
  have hl : ∀ line ∈ pricedSeptember, line.Admissible := by
    simp only [pricedSeptember, List.forall_mem_cons]
    exact ⟨{ electricityLine_admissible with amount := by norm_num }, otaFeeLine_admissible,
      by (intro line hm; cases hm)⟩
  exact (septemberInput_admissible (List.cons_ne_nil _ _) hl).auditable ⟨_, rfl, by decide +kernel⟩

theorem pricedSeptember_reproduced : ∃ d since,
    buildPriceDecision "1" 0 (septemberCost pricedSeptember) (septemberInput pricedSeptember).night
      (toordinal 1970 1 21) none = .ok (d, since) ∧
    d.publishedArgs.nettingEur = 3 / 2 ∧ rerun d.publishedArgs = .ok d.figures := by
  have hbuilt : (buildPriceDecision "1" 0 (septemberCost pricedSeptember)
      (septemberInput pricedSeptember).night (toordinal 1970 1 21) none).toOption.isSome := by
    decide +kernel
  obtain ⟨⟨d, since⟩, hd⟩ := Option.isSome_iff_exists.mp hbuilt
  have h := toOption_eq_some.mp hd
  obtain ⟨market, -, hargs⟩ := publishedArgs_build h pricedSeptember_auditable
  have hnetting : d.publishedArgs.nettingEur = nettingEur (septemberCost pricedSeptember) :=
    congrArg PriceArgs.nettingEur hargs
  refine ⟨d, since, h, hnetting.trans (by decide +kernel), ?_⟩
  exact (decisions_reproducible pricedSeptember_auditable h).1

end PriceEngine
