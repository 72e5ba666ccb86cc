import PriceEngine.Decision
import PriceEngine.IsoText

/-!
# Decisions as JSON

`modelDump` is `model_dump(mode="json")` of a decision: nested objects with the
schema's field names, enumerations and dates as texts. An instant is written on
the clock it carries, `clock t` minutes ahead of UTC.
-/

namespace PriceEngine

/-! ## Enumerations -/

def Concept.text : Concept → String
  | .electricity => "electricity"
  | .water => "water"
  | .gas => "gas"
  | .internet => "internet"
  | .pmsSubscription => "pms_subscription"
  | .otaFee => "ota_fee"
  | .channelManager => "channel_manager"
  | .officeRent => "office_rent"
  | .cleaning => "cleaning"
  | .laundry => "laundry"
  | .maintenance => "maintenance"
  | .insurance => "insurance"
  | .communityFee => "community_fee"
  | .other => "other"
  | .ownerCommission => "owner_commission"

def Scope.text : Scope → String
  | .booking => "booking"
  | .property => "property"
  | .company => "company"

def Behavior.text : Behavior → String
  | .fixed => "fixed"
  | .variable' => "variable"
  | .semiVariable => "semi_variable"

def Trigger.text : Trigger → String
  | .reservation => "reservation"
  | .night => "night"
  | .guest => "guest"
  | .time => "time"
  | .revenue => "revenue"
  | .event => "event"

def CalculationBase.text : CalculationBase → String
  | .fixedAmount => "fixed_amount"
  | .pctRevenue => "pct_revenue"
  | .pctAdjustedRevenue => "pct_adjusted_revenue"
  | .perNight => "per_night"
  | .perGuest => "per_guest"

def Recurrence.text : Recurrence → String
  | .perBooking => "per_booking"
  | .daily => "daily"
  | .monthly => "monthly"
  | .quarterly => "quarterly"
  | .annual => "annual"
  | .oneOff => "one_off"

def AllocationMethod.text : AllocationMethod → String
  | .direct => "direct"
  | .calendarDay => "calendar_day"
  | .availableNight => "available_night"
  | .occupiedNight => "occupied_night"
  | .booking => "booking"
  | .revenue => "revenue"
  | .weighted => "weighted"

def RuleApplied.text : RuleApplied → String
  | .marketCompetitive => "market_competitive"
  | .minimumFloor => "minimum_floor"
  | .minimumProfitablePrice => "minimum_profitable_price"

def FloorPolicy.text : FloorPolicy → String
  | .hard => "hard"
  | .soft => "soft"

def ViabilityStatus.text : ViabilityStatus → String
  | .ok => "ok"
  | .demandUpside => "demand_upside"
  | .minStayLeverAvailable => "min_stay_lever_available"
  | .channelLeverAvailable => "channel_lever_available"
  | .persistentFloorBreach => "persistent_floor_breach"
  | .overrideActive => "override_active"
  | .floorBinding => "floor_binding"

def ReasonCode.text : ReasonCode → String
  | .propertyQualityTier => "property_quality_tier"
  | .propertyRating => "property_rating"
  | .propertyView => "property_view"
  | .propertyParking => "property_parking"
  | .ruleMarketCompetitive => "rule_market_competitive"
  | .ruleMinimumFloor => "rule_minimum_floor"
  | .ruleMinimumProfitablePrice => "rule_minimum_profitable_price"
  | .ruleEarlyBird => "rule_early_bird"
  | .ruleLastMinute => "rule_last_minute"
  | .ruleSameDay => "rule_same_day"
  | .revenueBaseNetting => "revenue_base_netting"
  | .manualOverrideApplied => "manual_override_applied"
  | .minimumStayRecommended => "minimum_stay_recommended"
  | .minimumStayNotViable => "minimum_stay_not_viable"

/-! ## Nested models -/

/-- `None`, or the value of what is there. -/
def Value.ofOption {α : Type*} (f : α → Value) : Option α → Value
  | none => .null
  | some a => f a

def ConceptAmount.modelDump (c : ConceptAmount) : Value :=
  .dict
    [("concept", .str c.concept.text),
     ("amount_eur", .float c.amountEur),
     ("scope", .str c.scope.text),
     ("behavior", .str c.behavior.text),
     ("trigger", .str c.trigger.text),
     ("calculation_base", .str c.calculationBase.text),
     ("recurrence", .str c.recurrence.text),
     ("allocation_method", .str c.allocationMethod.text)]

def CostInputs.modelDump (c : CostInputs) : Value :=
  .dict
    [("billing_period", .dict
       [("start", .str (isoformat c.billingPeriodStart)), ("end", .str (isoformat c.billingPeriodEnd))]),
     ("total_monthly_cost_eur", .float c.totalMonthlyCostEur),
     ("available_days", .int c.availableDays),
     ("fixed_cost_eur", .float c.fixedCostEur),
     ("variable_cost_eur", .float c.variableCostEur),
     ("fixed_and_allocated_costs_eur", .float c.fixedAndAllocatedCostsEur),
     ("per_booking_cost_eur", .float c.perBookingCostEur),
     ("p", .float c.p),
     ("cost_lines_count", .ofOption (fun n : ℕ => .int n) c.costLinesCount),
     ("cost_breakdown", .list (c.costBreakdown.map ConceptAmount.modelDump))]

def MarketInputs.fields (clock : Instant → ℤ) (m : MarketInputs) : List (String × Value) :=
  [("market_area", .str m.marketArea),
   ("avg_nightly_rate_eur", .float m.avgNightlyRateEur),
   ("occupancy_rate", .ofOption .float m.occupancyRate),
   ("sample_size", .ofOption (fun n : ℕ => .int n) m.sampleSize),
   ("collected_at", .str (isoDatetime (clock m.collectedAt) m.collectedAt)),
   ("data_age_seconds", .int m.dataAgeSeconds)]

def MarketInputs.modelDump (clock : Instant → ℤ) (m : MarketInputs) : Value := .dict (m.fields clock)

def DecisionComponent.modelDump (c : DecisionComponent) : Value :=
  .dict [("code", .str c.code.text), ("label", .str c.label), ("impact", .float c.impact)]

def ManualOverrideDetails.modelDump (clock : Instant → ℤ) (m : ManualOverrideDetails) : Value :=
  .dict
    [("override_price_eur", .float m.overridePriceEur),
     ("reason", .str m.reason),
     ("authorized_by", .str m.authorizedBy),
     ("valid_until", .str (isoDatetime (clock m.validUntil) m.validUntil)),
     ("expected_loss_eur", .float m.expectedLossEur)]

def MinimumStayFields.modelDump (m : MinimumStayFields) : Value :=
  .dict
    [("recommended_min_stay", .ofOption (fun n : ℕ+ => .int n) m.recommendedMinStay),
     ("floor_relief_eur", .ofOption .float m.floorReliefEur),
     ("cost_per_reservation_eur", .ofOption .float m.costPerReservationEur),
     ("suggested_price_per_reservation_eur", .ofOption .float m.suggestedPricePerReservationEur)]

def ChannelPriceCandidate.modelDump (c : ChannelPriceCandidate) : Value :=
  .dict
    [("platform", .str c.platform.text),
     ("avg_nightly_rate_eur", .float c.avgNightlyRateEur),
     ("commission_pct", .float c.commissionPct),
     ("market_reference_price_eur", .float c.marketReferencePriceEur),
     ("minimum_price_eur", .float c.minimumPriceEur),
     ("floor_policy", .str c.floorPolicy.text),
     ("rule_applied", .str c.ruleApplied.text),
     ("suggested_price_eur", .float c.suggestedPriceEur),
     ("effective_margin", .float c.effectiveMargin),
     ("decision_components", .list (c.decisionComponents.map DecisionComponent.modelDump))]

def LosFloorCandidate.modelDump (c : LosFloorCandidate) : Value :=
  .dict
    [("stay_length", .int c.stayLength),
     ("minimum_price_eur", .float c.minimumPriceEur),
     ("floor_policy", .str c.floorPolicy.text),
     ("rule_applied", .str c.ruleApplied.text),
     ("suggested_price_eur", .float c.suggestedPriceEur),
     ("effective_margin", .float c.effectiveMargin),
     ("decision_components", .list (c.decisionComponents.map DecisionComponent.modelDump))]

def Calculation.modelDump (clock : Instant → ℤ) (c : Calculation) : Value :=
  .dict
    [("target_margin", .float c.targetMargin),
     ("minimum_price_eur", .float c.minimumPriceEur),
     ("break_even_revenue_eur", .float c.breakEvenRevenueEur),
     ("profitable_floor_eur", .float c.profitableFloorEur),
     ("floor_policy", .str c.floorPolicy.text),
     ("commission_pct", .float c.commissionPct),
     ("commission_base", .str c.commissionBase.text),
     ("days_to_arrival", .int c.daysToArrival),
     ("competitiveness_discount", .float c.competitivenessDiscount),
     ("property_attribute_factor", .float c.propertyAttributeFactor),
     ("property_reference_price_eur", .float c.propertyReferencePriceEur),
     ("market_reference_price_eur", .float c.marketReferencePriceEur),
     ("rule_applied", .str c.ruleApplied.text),
     ("los_floor_matrix", .list (c.losFloorMatrix.map LosFloorCandidate.modelDump)),
     ("decision_components", .list (c.decisionComponents.map DecisionComponent.modelDump)),
     ("manual_override", .ofOption (·.modelDump clock) c.manualOverride),
     ("minimum_stay_recommendation", c.minimumStayRecommendation.modelDump),
     ("channel_price_matrix", .list (c.channelPriceMatrix.map ChannelPriceCandidate.modelDump)),
     ("viability_status", .str c.viabilityStatus.text),
     ("floor_breach_days", .int c.floorBreachDays),
     ("pricing_strategy_version", .int c.pricingStrategyVersion)]

def Output.modelDump (o : Output) : Value :=
  .dict
    [("suggested_price_eur", .float o.suggestedPriceEur),
     ("currency", .str "EUR"),
     ("effective_margin", .float o.effectiveMargin),
     ("below_market_by", .float o.belowMarketBy)]

/-! ## The decision -/

/-- The fields of the event; the schema fixes its version and its currency. -/
def PriceDecisionRecord.fields (clock : Instant → ℤ) (r : PriceDecisionRecord) : List (String × Value) :=
  [("decision_id", .str r.decisionId),
   ("schema_version", .str "4.0"),
   ("apartment_id", .str r.apartmentId),
   ("apartment_reference", .str r.apartmentReference),
   ("target_date", .str (isoformat r.targetDate)),
   ("decided_at", .str (isoDatetime (clock r.decidedAt) r.decidedAt)),
   ("cost_inputs", r.costInputs.modelDump),
   ("market_inputs", r.marketInputs.modelDump clock),
   ("calculation", r.calculation.modelDump clock),
   ("output", r.output.modelDump)]

def PriceDecisionRecord.modelDump (clock : Instant → ℤ) (r : PriceDecisionRecord) : Value :=
  .dict (r.fields clock)

/-- The dates of a decision, all of which the calendar has. -/
def PriceDecisionRecord.dates (r : PriceDecisionRecord) : List Date :=
  [r.targetDate, r.costInputs.billingPeriodStart, r.costInputs.billingPeriodEnd]

def PriceDecisionRecord.instants (r : PriceDecisionRecord) : List Instant :=
  [r.decidedAt, r.marketInputs.collectedAt] ++ r.calculation.manualOverride.toList.map (·.validUntil)

end PriceEngine
