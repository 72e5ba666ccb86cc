import PriceEngine.Components

/-!
# The layers of the pricing engine

Structural, Performance, Inventory, Booking Window, Market, the netting of
revenue bases and Guardrails. Each layer is a pure function; the engine
composes them. Amounts are exact and only the texts see rounded values.
-/

namespace PriceEngine

/-! ## Structural -/

inductive QualityTier
  | basic | standard | premium | luxury
  deriving DecidableEq

def QualityTier.text : QualityTier → String
  | .basic => "basic"
  | .standard => "standard"
  | .premium => "premium"
  | .luxury => "luxury"

def qualityTierAdjustments : QualityTier → ℚ
  | .basic => -15 / 100
  | .standard => 0
  | .premium => 15 / 100
  | .luxury => 30 / 100

def ratingBaseline : ℚ := 4

def ratingWeight : ℚ := 10 / 100

def viewAdjustment : ℚ := 5 / 100

def parkingAdjustment : ℚ := 4 / 100

def minFactor : ℚ := 5 / 10

def maxFactor : ℚ := 2

def propertyAttributeComponents (qualityTier : QualityTier) (rating : ℚ) (hasView hasParking : Bool) :
    List DecisionComponent :=
  [{ code := .propertyQualityTier
     label := "Quality tier '" ++ qualityTier.text ++ "' (" ++
       fmtPercent (qualityTierAdjustments qualityTier) ++ ")"
     impact := qualityTierAdjustments qualityTier },
   { code := .propertyRating
     label := "Rating " ++ fmtFloat rating ++ " vs baseline " ++ fmtFloat ratingBaseline
     impact := pyRound ((rating - ratingBaseline) * ratingWeight) 4 },
   { code := .propertyView
     label := if hasView then "Has view" else "No view"
     impact := if hasView then viewAdjustment else 0 },
   { code := .propertyParking
     label := if hasParking then "Has parking" else "No parking"
     impact := if hasParking then parkingAdjustment else 0 }]

def propertyAttributeFactor (qualityTier : QualityTier) (rating : ℚ) (hasView hasParking : Bool) : ℚ :=
  let adjustment :=
    ((propertyAttributeComponents qualityTier rating hasView hasParking).map (·.impact)).sum
  pyRound (min (max (1 + adjustment) minFactor) maxFactor) 4

def propertyReferencePrice (avgNightlyRateEur propertyAttributeFactor : ℚ) : ℚ :=
  avgNightlyRateEur * propertyAttributeFactor

/-! ## Performance and Inventory: neutral stubs -/

def performanceLayer : ℚ := 1

def inventoryLayer : ℚ := 1

/-! ## Booking Window -/

inductive BookingWindow
  | standardWindow | earlyBird | lastMinute | sameDay
  deriving DecidableEq

def BookingWindow.text : BookingWindow → String
  | .standardWindow => "standard_window"
  | .earlyBird => "early_bird"
  | .lastMinute => "last_minute"
  | .sameDay => "same_day"

/-- There is no code for the standard window, whose adjustment is 0. -/
def BookingWindow.code : BookingWindow → Option ReasonCode
  | .standardWindow => none
  | .earlyBird => some .ruleEarlyBird
  | .lastMinute => some .ruleLastMinute
  | .sameDay => some .ruleSameDay

def bookingWindowTiers : List (ℤ × ℚ × BookingWindow) :=
  [(45, 0, .standardWindow), (15, -3 / 100, .earlyBird), (3, 0, .standardWindow),
   (1, -5 / 100, .lastMinute), (0, -8 / 100, .sameDay)]

def bookingWindowFactor (daysToArrival : ℤ) : ℚ :=
  let days := max daysToArrival 0
  match bookingWindowTiers.find? fun tier => tier.1 ≤ days with
  | some (_, adjustment, _) => pyRound (1 + adjustment) 4
  | none => 1

def bookingWindowComponent (daysToArrival : ℤ) : Option DecisionComponent :=
  let days := max daysToArrival 0
  match bookingWindowTiers.find? fun tier => tier.1 ≤ days with
  | some (_, adjustment, window) =>
    if adjustment = 0 then none
    else window.code.map fun code =>
      { code := code
        label := "Booking window: " ++ toString days ++ " days to arrival (" ++ window.text ++ ", " ++
          fmtPercent adjustment ++ ")"
        impact := adjustment }
  | none => none

/-! ## Market -/

def marketReferencePrice (propertyReferencePriceEur competitivenessDiscount : ℚ) : ℚ :=
  propertyReferencePriceEur * (1 - competitivenessDiscount)

/-! ## Netting of revenue bases -/

inductive RevenueBase
  | totalRevenue | revenueMinusOta | revenueMinusOtaMinusCleaning
  | revenueMinusOtaMinusCleaningMinusLaundry | revenueMinusAllBookingCosts
  deriving DecidableEq

def RevenueBase.text : RevenueBase → String
  | .totalRevenue => "total_revenue"
  | .revenueMinusOta => "revenue_minus_ota"
  | .revenueMinusOtaMinusCleaning => "revenue_minus_ota_minus_cleaning"
  | .revenueMinusOtaMinusCleaningMinusLaundry => "revenue_minus_ota_minus_cleaning_minus_laundry"
  | .revenueMinusAllBookingCosts => "revenue_minus_all_booking_costs"

def nettedRevenueBaseAmount (revenueBase : RevenueBase)
    (otaRelatedCostEur cleaningCostEur laundryCostEur bookingScopeCostEur : ℚ) : ℚ :=
  match revenueBase with
  | .totalRevenue => 0
  | .revenueMinusOta => otaRelatedCostEur
  | .revenueMinusOtaMinusCleaning => otaRelatedCostEur + cleaningCostEur
  | .revenueMinusOtaMinusCleaningMinusLaundry => otaRelatedCostEur + cleaningCostEur + laundryCostEur
  | .revenueMinusAllBookingCosts => bookingScopeCostEur

def revenueBaseNettingComponent (revenueBase : RevenueBase) (rate net : ℚ) : Option DecisionComponent :=
  if net ≤ 0 then none
  else
    let impact := -pyRound (rate * net) 2
    some
      { code := .revenueBaseNetting
        label := "Revenue base '" ++ revenueBase.text ++ "' nets " ++ fmtFloat net ++
          " EUR/night, reducing the floor by " ++ fmtFloat (-impact) ++ " EUR"
        impact := impact }

/-! ## Guardrails -/

inductive RuleApplied
  | marketCompetitive | minimumFloor | minimumProfitablePrice
  deriving DecidableEq

def ruleDecisionComponent (ruleApplied : RuleApplied)
    (minimumPriceEur marketReferencePriceEur propertyReferencePriceEur : ℚ) : DecisionComponent :=
  match ruleApplied with
  | .marketCompetitive =>
    let impact := pyRound (marketReferencePriceEur - minimumPriceEur) 2
    { code := .ruleMarketCompetitive
      label := "Market reference price (" ++ fmtFloat marketReferencePriceEur ++
        ") clears the cost floor (" ++ fmtFloat minimumPriceEur ++ ") by " ++ fmtFloat impact ++ " EUR"
      impact := impact }
  | .minimumFloor =>
    let impact := pyRound (minimumPriceEur - marketReferencePriceEur) 2
    { code := .ruleMinimumFloor
      label := "Cost floor (" ++ fmtFloat minimumPriceEur ++ ") exceeds market reference (" ++
        fmtFloat marketReferencePriceEur ++ ") by " ++ fmtFloat impact ++
        " EUR but stays within property reference (" ++ fmtFloat propertyReferencePriceEur ++ ")"
      impact := impact }
  | .minimumProfitablePrice =>
    let impact := pyRound (minimumPriceEur - propertyReferencePriceEur) 2
    { code := .ruleMinimumProfitablePrice
      label := "Minimum profitable price (" ++ fmtFloat minimumPriceEur ++
        ") exceeds property reference price (" ++ fmtFloat propertyReferencePriceEur ++ ") by " ++
        fmtFloat impact ++ " EUR"
      impact := impact }

structure GuardrailsResult where
  ruleApplied : RuleApplied
  suggestedPriceEur : ℚ
  belowMarketBy : ℚ
  ruleComponent : DecisionComponent

/-- The comparisons are made on unrounded amounts; only the component sees rounded ones. -/
def applyGuardrails (minimumPriceEur marketReferencePriceEur propertyReferencePriceEur : ℚ) :
    GuardrailsResult :=
  let (ruleApplied, suggestedPriceEur) :=
    if minimumPriceEur ≤ marketReferencePriceEur then
      (RuleApplied.marketCompetitive, marketReferencePriceEur)
    else if minimumPriceEur ≤ propertyReferencePriceEur then (.minimumFloor, minimumPriceEur)
    else (.minimumProfitablePrice, minimumPriceEur)
  { ruleApplied := ruleApplied
    suggestedPriceEur := suggestedPriceEur
    belowMarketBy := propertyReferencePriceEur - suggestedPriceEur
    ruleComponent := ruleDecisionComponent ruleApplied (pyRound minimumPriceEur 2)
      (pyRound marketReferencePriceEur 2) (pyRound propertyReferencePriceEur 2) }

end PriceEngine
