import PriceEngine.Models
import PriceEngine.Run

/-!
# Price decisions

`buildPriceDecision` prices one apartment for one night and assembles the
event. The event's schema bounds many of its fields; `fieldChecks` lists them
in the order the nested models are built, and a `PriceDecision` is a record
that passes them all. The first failing check is the error.
-/

namespace PriceEngine

/-! ## The event -/

structure CostInputs where
  billingPeriodStart : Date
  billingPeriodEnd : Date
  totalMonthlyCostEur : ℚ
  availableDays : ℤ
  fixedCostEur : ℚ
  variableCostEur : ℚ
  fixedAndAllocatedCostsEur : ℚ
  perBookingCostEur : ℚ
  p : ℚ
  costLinesCount : Option ℕ := none
  costBreakdown : List ConceptAmount

structure MarketInputs where
  marketArea : String
  avgNightlyRateEur : ℚ
  occupancyRate : Option ℚ
  sampleSize : Option ℕ
  collectedAt : Instant
  dataAgeSeconds : ℤ

structure ManualOverrideDetails where
  overridePriceEur : ℚ
  reason : String
  authorizedBy : String
  validUntil : Instant
  expectedLossEur : ℚ

structure MinimumStayFields where
  recommendedMinStay : Option ℕ+
  floorReliefEur : Option ℚ
  costPerReservationEur : Option ℚ
  suggestedPricePerReservationEur : Option ℚ

structure Calculation where
  targetMargin : ℚ
  minimumPriceEur : ℚ
  breakEvenRevenueEur : ℚ
  profitableFloorEur : ℚ
  floorPolicy : FloorPolicy
  commissionPct : ℚ
  commissionBase : RevenueBase
  daysToArrival : ℤ
  competitivenessDiscount : ℚ
  pricingStrategyVersion : ℤ
  propertyAttributeFactor : ℚ
  propertyReferencePriceEur : ℚ
  marketReferencePriceEur : ℚ
  ruleApplied : RuleApplied
  losFloorMatrix : List LosFloorCandidate
  decisionComponents : List DecisionComponent
  /-- Stage C sets it after the engine has decided. -/
  manualOverride : Option ManualOverrideDetails := none
  minimumStayRecommendation : MinimumStayFields
  channelPriceMatrix : List ChannelPriceCandidate
  viabilityStatus : ViabilityStatus
  floorBreachDays : ℤ

structure Output where
  suggestedPriceEur : ℚ
  effectiveMargin : ℚ
  belowMarketBy : ℚ

structure PriceDecisionRecord where
  decisionId : String
  apartmentId : String
  apartmentReference : String
  targetDate : Date
  decidedAt : Instant
  costInputs : CostInputs
  marketInputs : MarketInputs
  calculation : Calculation
  output : Output

/-! ## Field checks -/

/-- One bound of the schema: the model and field it is on, and whether it holds. -/
structure FieldCheck where
  model : String
  field : String
  holds : Bool

def ConceptAmount.fieldChecks (c : ConceptAmount) : List FieldCheck :=
  [⟨"CostConceptAmount", "amount_eur", 0 ≤ c.amountEur⟩]

def CostInputs.fieldChecks (c : CostInputs) : List FieldCheck :=
  [⟨"CostInputs", "total_monthly_cost_eur", 0 ≤ c.totalMonthlyCostEur⟩,
   ⟨"CostInputs", "available_days", 1 ≤ c.availableDays⟩,
   ⟨"CostInputs", "fixed_cost_eur", 0 ≤ c.fixedCostEur⟩,
   ⟨"CostInputs", "variable_cost_eur", 0 ≤ c.variableCostEur⟩,
   ⟨"CostInputs", "fixed_and_allocated_costs_eur", 0 ≤ c.fixedAndAllocatedCostsEur⟩,
   ⟨"CostInputs", "per_booking_cost_eur", 0 ≤ c.perBookingCostEur⟩,
   ⟨"CostInputs", "p", 0 ≤ c.p ∧ c.p ≤ 1⟩]

def MarketInputs.fieldChecks (m : MarketInputs) : List FieldCheck :=
  [⟨"MarketInputs", "avg_nightly_rate_eur", 0 ≤ m.avgNightlyRateEur⟩,
   ⟨"MarketInputs", "occupancy_rate", m.occupancyRate.all fun r => 0 ≤ r ∧ r ≤ 1⟩,
   ⟨"MarketInputs", "sample_size", m.sampleSize.all fun n => 1 ≤ n⟩,
   ⟨"MarketInputs", "data_age_seconds", 0 ≤ m.dataAgeSeconds⟩]

def LosFloorCandidate.fieldChecks (c : LosFloorCandidate) : List FieldCheck :=
  [⟨"LosFloorCandidate", "minimum_price_eur", 0 ≤ c.minimumPriceEur⟩,
   ⟨"LosFloorCandidate", "suggested_price_eur", 0 ≤ c.suggestedPriceEur⟩,
   ⟨"LosFloorCandidate", "decision_components", !c.decisionComponents.isEmpty⟩]

def ManualOverrideDetails.fieldChecks (m : ManualOverrideDetails) : List FieldCheck :=
  [⟨"ManualOverrideDetails", "override_price_eur", 0 ≤ m.overridePriceEur⟩,
   ⟨"ManualOverrideDetails", "expected_loss_eur", 0 ≤ m.expectedLossEur⟩]

def MinimumStayFields.fieldChecks (m : MinimumStayFields) : List FieldCheck :=
  [⟨"MinimumStayRecommendation", "floor_relief_eur", m.floorReliefEur.all (0 ≤ ·)⟩,
   ⟨"MinimumStayRecommendation", "cost_per_reservation_eur", m.costPerReservationEur.all (0 ≤ ·)⟩,
   ⟨"MinimumStayRecommendation", "suggested_price_per_reservation_eur",
     m.suggestedPricePerReservationEur.all (0 ≤ ·)⟩]

def ChannelPriceCandidate.fieldChecks (c : ChannelPriceCandidate) : List FieldCheck :=
  [⟨"ChannelPriceCandidate", "platform", c.platform ≠ .mixed⟩,
   ⟨"ChannelPriceCandidate", "avg_nightly_rate_eur", 0 ≤ c.avgNightlyRateEur⟩,
   ⟨"ChannelPriceCandidate", "commission_pct", 0 ≤ c.commissionPct ∧ c.commissionPct ≤ 1⟩,
   ⟨"ChannelPriceCandidate", "market_reference_price_eur", 0 ≤ c.marketReferencePriceEur⟩,
   ⟨"ChannelPriceCandidate", "minimum_price_eur", 0 ≤ c.minimumPriceEur⟩,
   ⟨"ChannelPriceCandidate", "suggested_price_eur", 0 ≤ c.suggestedPriceEur⟩,
   ⟨"ChannelPriceCandidate", "decision_components", !c.decisionComponents.isEmpty⟩]

def Calculation.fieldChecks (c : Calculation) : List FieldCheck :=
  [⟨"Calculation", "target_margin", 0 ≤ c.targetMargin⟩,
   ⟨"Calculation", "minimum_price_eur", 0 ≤ c.minimumPriceEur⟩,
   ⟨"Calculation", "break_even_revenue_eur", 0 ≤ c.breakEvenRevenueEur⟩,
   ⟨"Calculation", "profitable_floor_eur", 0 ≤ c.profitableFloorEur⟩,
   ⟨"Calculation", "commission_pct", 0 ≤ c.commissionPct ∧ c.commissionPct ≤ 1⟩,
   ⟨"Calculation", "competitiveness_discount",
     0 ≤ c.competitivenessDiscount ∧ c.competitivenessDiscount ≤ 1⟩,
   ⟨"Calculation", "property_attribute_factor", 0 ≤ c.propertyAttributeFactor⟩,
   ⟨"Calculation", "property_reference_price_eur", 0 ≤ c.propertyReferencePriceEur⟩,
   ⟨"Calculation", "market_reference_price_eur", 0 ≤ c.marketReferencePriceEur⟩,
   ⟨"Calculation", "los_floor_matrix", !c.losFloorMatrix.isEmpty⟩,
   ⟨"Calculation", "decision_components", !c.decisionComponents.isEmpty⟩,
   ⟨"Calculation", "floor_breach_days", 0 ≤ c.floorBreachDays⟩,
   ⟨"Calculation", "pricing_strategy_version", 1 ≤ c.pricingStrategyVersion⟩]

def Output.fieldChecks (o : Output) : List FieldCheck :=
  [⟨"Output", "suggested_price_eur", 0 ≤ o.suggestedPriceEur⟩]

def PriceDecisionRecord.fieldChecks (r : PriceDecisionRecord) : List FieldCheck :=
  r.costInputs.costBreakdown.flatMap ConceptAmount.fieldChecks ++ r.costInputs.fieldChecks ++
    r.marketInputs.fieldChecks ++
    r.calculation.losFloorMatrix.flatMap LosFloorCandidate.fieldChecks ++
    r.calculation.manualOverride.toList.flatMap ManualOverrideDetails.fieldChecks ++
    r.calculation.minimumStayRecommendation.fieldChecks ++
    r.calculation.channelPriceMatrix.flatMap ChannelPriceCandidate.fieldChecks ++
    r.calculation.fieldChecks ++ r.output.fieldChecks

def PriceDecisionRecord.Valid (r : PriceDecisionRecord) : Prop := ∀ c ∈ r.fieldChecks, c.holds = true

structure PriceDecision extends PriceDecisionRecord where
  valid : toPriceDecisionRecord.Valid

def validate (r : PriceDecisionRecord) : Except PricingError PriceDecision :=
  match h : r.fieldChecks.find? fun c => !c.holds with
  | some c => .error (.validationError c.model c.field)
  | none => .ok ⟨r, fun c hc => by simpa using List.find?_eq_none.mp h c hc⟩

theorem validate_eq_ok {r : PriceDecisionRecord} {d : PriceDecision} :
    validate r = .ok d ↔ d.toPriceDecisionRecord = r := by
  unfold validate
  split
  · rename_i c h
    refine ⟨fun h' => (nomatch h'), fun h' => ?_⟩
    subst h'
    have hc := d.valid c (List.mem_of_find?_eq_some h)
    have := List.find?_some h
    rw [hc] at this
    cases this
  · refine ⟨fun h' => by rw [← Except.ok.inj h'], fun h' => ?_⟩
    subst h'
    rfl

/-! ## Inputs of the engine -/

def allPercentageCosts (cost : CostAggregate) : List PercentageCostComponent :=
  cost.percentageCosts ++
    [{ concept := .ownerCommission, rate := cost.commissionPct, revenueBase := some cost.commissionBase }]

def fixedAndAllocatedCostsPerNightEur (cost : CostAggregate) : ℚ :=
  pyRound (cost.fixedCostEur + cost.variableCostEur) 2

def sumOfRates (percentageCosts : List PercentageCostComponent) : ℚ :=
  pyRound (percentageCosts.map (·.rate)).sum 4

def netOf (cost : CostAggregate) (pc : PercentageCostComponent) : ℚ :=
  nettedRevenueBaseAmount (pc.revenueBase.getD .totalRevenue) cost.otaRelatedCostEur
    cost.cleaningCostEur cost.laundryCostEur cost.bookingScopeCostEur

def nettingEur (cost : CostAggregate) : ℚ :=
  pyRound ((allPercentageCosts cost).map fun pc => pyRound (pc.rate * netOf cost pc) 2).sum 2

def nettingComponents (cost : CostAggregate) : List DecisionComponent :=
  (allPercentageCosts cost).filterMap fun pc =>
    revenueBaseNettingComponent (pc.revenueBase.getD .totalRevenue) pc.rate (netOf cost pc)

def nightArgs (cost : CostAggregate) (market : MarketSnapshot) (daysToArrival : ℤ) : PriceArgs :=
  { fixedAndAllocatedCostsPerNightEur := fixedAndAllocatedCostsPerNightEur cost
    perBookingCostEur := cost.perBookingCostEur
    p := sumOfRates (allPercentageCosts cost)
    targetMargin := cost.targetMargin
    avgNightlyRateEur := market.avgNightlyRateEur
    competitivenessDiscount := cost.competitivenessDiscount
    propertyAttributeFactor := cost.propertyAttributeFactor
    nettingEur := nettingEur cost
    propertyDecisionComponents := cost.propertyDecisionComponents
    commissionDecisionComponents := nettingComponents cost
    daysToArrival := daysToArrival }

def nightChannelArgs (cost : CostAggregate) (night : NightSnapshot) (daysToArrival : ℤ) : ChannelArgs :=
  { channelRatesEur := night.channelRatesEur
    fixedAndAllocatedCostsPerNightEur := fixedAndAllocatedCostsPerNightEur cost
    perBookingCostEur := cost.perBookingCostEur
    targetMargin := cost.targetMargin
    competitivenessDiscount := cost.competitivenessDiscount
    propertyAttributeFactor := cost.propertyAttributeFactor
    pOther := sumOfRates cost.percentageCosts
    revenueBase := cost.commissionBase
    otaRelatedCostEur := cost.otaRelatedCostEur
    cleaningCostEur := cost.cleaningCostEur
    laundryCostEur := cost.laundryCostEur
    bookingScopeCostEur := cost.bookingScopeCostEur
    daysToArrival := daysToArrival }

/-! ## Assembly -/

def newFloorBreachSince (ruleApplied : RuleApplied) (today : Date) (floorBreachSince : Option Date) :
    Option Date :=
  if ruleApplied ≠ .marketCompetitive then some (floorBreachSince.getD today) else none

def floorBreachDays (today : Date) : Option Date → ℤ
  | some since => today - since
  | none => 0

def decisionRecord (decisionId : String) (decidedAt : Instant) (cost : CostAggregate)
    (market : MarketSnapshot) (targetDate : Date) (floorBreachSince : Option Date)
    (minimumStay : MinimumStayRecommendation) (channelCandidates : List ChannelPriceCandidate) :
    PriceDecisionRecord :=
  let daysToArrival := targetDate - decidedAt.date
  let calculation := decidePrice (nightArgs cost market daysToArrival)
  let breachDays := floorBreachDays decidedAt.date
    (newFloorBreachSince calculation.ruleApplied decidedAt.date floorBreachSince)
  { decisionId := decisionId
    apartmentId := cost.apartmentId
    apartmentReference := cost.apartmentReference
    targetDate := targetDate
    decidedAt := decidedAt
    costInputs :=
      { billingPeriodStart := cost.billingPeriodStart
        billingPeriodEnd := cost.billingPeriodEnd
        totalMonthlyCostEur := cost.totalMonthlyCostEur
        availableDays := cost.availableDays
        fixedCostEur := cost.fixedCostEur
        variableCostEur := cost.variableCostEur
        fixedAndAllocatedCostsEur := fixedAndAllocatedCostsPerNightEur cost
        perBookingCostEur := cost.perBookingCostEur
        p := sumOfRates (allPercentageCosts cost)
        costLinesCount := some cost.costLinesCount
        costBreakdown := cost.costBreakdown }
    marketInputs :=
      { marketArea := market.marketArea
        avgNightlyRateEur := market.avgNightlyRateEur
        occupancyRate := market.occupancyRate
        sampleSize := market.sampleSize
        collectedAt := market.collectedAt
        dataAgeSeconds := max 0 (Int.tdiv (decidedAt - market.collectedAt) 1000000) }
    calculation :=
      { targetMargin := cost.targetMargin
        minimumPriceEur := calculation.minimumPriceEur
        breakEvenRevenueEur := calculation.breakEvenRevenueEur
        profitableFloorEur := calculation.profitableFloorEur
        floorPolicy := calculation.floorPolicy
        commissionPct := cost.commissionPct
        commissionBase := cost.commissionBase
        daysToArrival := daysToArrival
        competitivenessDiscount := cost.competitivenessDiscount
        pricingStrategyVersion := cost.pricingStrategyVersion
        propertyAttributeFactor := calculation.propertyAttributeFactor
        propertyReferencePriceEur := calculation.propertyReferencePriceEur
        marketReferencePriceEur := calculation.marketReferencePriceEur
        ruleApplied := calculation.ruleApplied
        losFloorMatrix := decidePriceLosMatrix (nightArgs cost market daysToArrival)
        decisionComponents := calculation.decisionComponents ++ minimumStay.decisionComponent.toList
        minimumStayRecommendation :=
          { recommendedMinStay := minimumStay.recommendedMinStay
            floorReliefEur := minimumStay.floorReliefEur
            costPerReservationEur := minimumStay.costPerReservationEur
            suggestedPricePerReservationEur := minimumStay.suggestedPricePerReservationEur }
        channelPriceMatrix := channelCandidates
        viabilityStatus := classifyViability calculation.ruleApplied calculation.belowMarketBy
          minimumStay.recommendedMinStay (channelCandidates.any (·.ruleApplied == .marketCompetitive))
          false breachDays
        floorBreachDays := breachDays }
    output :=
      { suggestedPriceEur := calculation.suggestedPriceEur
        effectiveMargin := calculation.effectiveMargin
        belowMarketBy := calculation.belowMarketBy } }

def recommendFor (a : PriceArgs) : Except PricingError MinimumStayRecommendation :=
  recommendMinimumStay (decidePriceLosMatrix a) (decidePrice a).propertyReferencePriceEur
    a.fixedAndAllocatedCostsPerNightEur a.perBookingCostEur

def assertBlended (night : NightSnapshot) : Except PricingError MarketSnapshot :=
  match night.blended with
  | none => .error .assertionError
  | some market => .ok market

/-- `_build_price_decision`, with the id and the clock reading it draws. -/
def buildPriceDecision (decisionId : String) (decidedAt : Instant) (cost : CostAggregate)
    (night : NightSnapshot) (targetDate : Date) (floorBreachSince : Option Date) :
    Except PricingError (PriceDecision × Option Date) := do
  let market ← assertBlended night
  let daysToArrival := targetDate - decidedAt.date
  let minimumStay ← recommendFor (nightArgs cost market daysToArrival)
  let channelCandidates ← decidePriceByChannel (nightChannelArgs cost night daysToArrival)
  let decision ← validate (decisionRecord decisionId decidedAt cost market targetDate floorBreachSince
    minimumStay channelCandidates)
  .ok (decision, newFloorBreachSince decision.calculation.ruleApplied decidedAt.date floorBreachSince)

end PriceEngine
