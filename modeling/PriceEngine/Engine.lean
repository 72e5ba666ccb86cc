import Mathlib.Data.List.Sort
import Mathlib.Data.PNat.Basic
import PriceEngine.Dict
import PriceEngine.Layers

/-!
# The pricing engine

`decidePrice` prices one candidate; `decidePriceLosMatrix` and
`decidePriceByChannel` run it once per stay length and once per channel.
`priceTerms` holds the unrounded amounts of one candidate, from which every
published amount is rounded. `recommendMinimumStay` and `classifyViability`
read the results.
-/

namespace PriceEngine

/-- What can stop a decision: Python's own exceptions and the event schema's field checks. -/
inductive PricingError
  | keyError (key : String)
  | indexError
  | assertionError
  | validationError (model field : String)
  deriving DecidableEq

-- one proof for the `1` of a default stay length, whatever definition takes the default
instance neZero_one : NeZero 1 := ⟨Nat.one_ne_zero⟩

def losCandidates : List ℕ+ := [1, 2, 3, 7, 14]

def noBookingWindowSignal : ℤ := 999

inductive FloorPolicy
  | hard | soft
  deriving DecidableEq

def floorPolicyFor (targetMargin : ℚ) : FloorPolicy := if targetMargin = 0 then .hard else .soft

/-! ## One candidate -/

structure PriceArgs where
  fixedAndAllocatedCostsPerNightEur : ℚ
  perBookingCostEur : ℚ
  p : ℚ
  targetMargin : ℚ
  avgNightlyRateEur : ℚ
  competitivenessDiscount : ℚ
  propertyAttributeFactor : ℚ := 1
  stayLength : ℕ+ := 1
  nettingEur : ℚ := 0
  propertyDecisionComponents : List DecisionComponent := []
  commissionDecisionComponents : List DecisionComponent := []
  daysToArrival : ℤ := noBookingWindowSignal

structure PriceTerms where
  fixedAndAllocatedCostsEur : ℚ
  numeratorEur : ℚ
  breakEvenRevenueEur : ℚ
  profitableFloorEur : ℚ
  propertyReferencePriceEur : ℚ
  marketReferencePriceEur : ℚ
  guardrails : GuardrailsResult
  effectiveMargin : ℚ

structure PriceCalculation where
  minimumPriceEur : ℚ
  breakEvenRevenueEur : ℚ
  profitableFloorEur : ℚ
  floorPolicy : FloorPolicy
  propertyAttributeFactor : ℚ
  propertyReferencePriceEur : ℚ
  marketReferencePriceEur : ℚ
  ruleApplied : RuleApplied
  suggestedPriceEur : ℚ
  belowMarketBy : ℚ
  effectiveMargin : ℚ
  decisionComponents : List DecisionComponent

/-- The local variables of `decide_price`, before rounding. -/
def priceTerms (a : PriceArgs) : PriceTerms :=
  let perBookingCostPerNightEur := a.perBookingCostEur / (a.stayLength : ℕ)
  let fixedAndAllocatedCostsEur := a.fixedAndAllocatedCostsPerNightEur + perBookingCostPerNightEur
  let numeratorEur := fixedAndAllocatedCostsEur - a.nettingEur
  let breakEvenRevenueEur := if a.p ≠ 1 then numeratorEur / (1 - a.p) else 0
  let mprDenominator := 1 - a.p - a.targetMargin
  let profitableFloorEur := if mprDenominator ≠ 0 then numeratorEur / mprDenominator else 0
  let propertyReferencePriceEur :=
    propertyReferencePrice a.avgNightlyRateEur a.propertyAttributeFactor *
      (performanceLayer * inventoryLayer * bookingWindowFactor a.daysToArrival)
  let marketReferencePriceEur :=
    marketReferencePrice propertyReferencePriceEur a.competitivenessDiscount
  let guardrails :=
    applyGuardrails profitableFloorEur marketReferencePriceEur propertyReferencePriceEur
  { fixedAndAllocatedCostsEur := fixedAndAllocatedCostsEur
    numeratorEur := numeratorEur
    breakEvenRevenueEur := breakEvenRevenueEur
    profitableFloorEur := profitableFloorEur
    propertyReferencePriceEur := propertyReferencePriceEur
    marketReferencePriceEur := marketReferencePriceEur
    guardrails := guardrails
    effectiveMargin :=
      if fixedAndAllocatedCostsEur ≠ 0 then
        guardrails.suggestedPriceEur / fixedAndAllocatedCostsEur - 1
      else 0 }

def decidePrice (a : PriceArgs) : PriceCalculation :=
  let t := priceTerms a
  { minimumPriceEur := pyRound t.profitableFloorEur 2
    breakEvenRevenueEur := pyRound t.breakEvenRevenueEur 2
    profitableFloorEur := pyRound t.profitableFloorEur 2
    floorPolicy := floorPolicyFor a.targetMargin
    propertyAttributeFactor := a.propertyAttributeFactor
    propertyReferencePriceEur := pyRound t.propertyReferencePriceEur 2
    marketReferencePriceEur := pyRound t.marketReferencePriceEur 2
    ruleApplied := t.guardrails.ruleApplied
    suggestedPriceEur := pyRound t.guardrails.suggestedPriceEur 2
    belowMarketBy := pyRound t.guardrails.belowMarketBy 2
    effectiveMargin := pyRound t.effectiveMargin 4
    decisionComponents :=
      a.propertyDecisionComponents ++ a.commissionDecisionComponents ++
        (bookingWindowComponent a.daysToArrival).toList ++ [t.guardrails.ruleComponent] }

/-! ## One candidate per stay length -/

structure LosFloorCandidate where
  stayLength : ℕ+
  minimumPriceEur : ℚ
  floorPolicy : FloorPolicy
  ruleApplied : RuleApplied
  suggestedPriceEur : ℚ
  effectiveMargin : ℚ
  decisionComponents : List DecisionComponent

def losArgs (a : PriceArgs) (stayLength : ℕ+) : PriceArgs :=
  { a with
    stayLength := stayLength
    propertyDecisionComponents := []
    commissionDecisionComponents := [] }

def losRow (a : PriceArgs) (stayLength : ℕ+) : LosFloorCandidate :=
  let calculation := decidePrice (losArgs a stayLength)
  { stayLength := stayLength
    minimumPriceEur := calculation.minimumPriceEur
    floorPolicy := calculation.floorPolicy
    ruleApplied := calculation.ruleApplied
    suggestedPriceEur := calculation.suggestedPriceEur
    effectiveMargin := calculation.effectiveMargin
    decisionComponents := calculation.decisionComponents }

def decidePriceLosMatrix (a : PriceArgs) (stayLengths : List ℕ+ := losCandidates) :
    List LosFloorCandidate :=
  stayLengths.map (losRow a)

/-! ## One candidate per channel -/

inductive Platform
  | airbnb | booking | vrbo | mixed
  deriving DecidableEq

def Platform.text : Platform → String
  | .airbnb => "airbnb"
  | .booking => "booking"
  | .vrbo => "vrbo"
  | .mixed => "mixed"

/-- There is no entry for `mixed`. -/
def channelCommissionPct : Platform → Option ℚ
  | .airbnb => some (12 / 100)
  | .booking => some (15 / 100)
  | .vrbo => some (8 / 100)
  | .mixed => none

structure ChannelPriceCandidate where
  platform : Platform
  avgNightlyRateEur : ℚ
  commissionPct : ℚ
  marketReferencePriceEur : ℚ
  minimumPriceEur : ℚ
  floorPolicy : FloorPolicy
  ruleApplied : RuleApplied
  suggestedPriceEur : ℚ
  effectiveMargin : ℚ
  decisionComponents : List DecisionComponent

structure ChannelArgs where
  channelRatesEur : Dict Platform ℚ
  fixedAndAllocatedCostsPerNightEur : ℚ
  perBookingCostEur : ℚ
  targetMargin : ℚ
  competitivenessDiscount : ℚ
  propertyAttributeFactor : ℚ := 1
  pOther : ℚ := 0
  revenueBase : RevenueBase := .totalRevenue
  otaRelatedCostEur : ℚ := 0
  cleaningCostEur : ℚ := 0
  laundryCostEur : ℚ := 0
  bookingScopeCostEur : ℚ := 0
  channelCommissionPct : Platform → Option ℚ := channelCommissionPct
  daysToArrival : ℤ := noBookingWindowSignal

def channelNet (a : ChannelArgs) : ℚ :=
  nettedRevenueBaseAmount a.revenueBase a.otaRelatedCostEur a.cleaningCostEur a.laundryCostEur
    a.bookingScopeCostEur

def channelPriceArgs (a : ChannelArgs) (avgNightlyRateEur commissionPct : ℚ) : PriceArgs :=
  { fixedAndAllocatedCostsPerNightEur := a.fixedAndAllocatedCostsPerNightEur
    perBookingCostEur := a.perBookingCostEur
    p := a.pOther + commissionPct
    targetMargin := a.targetMargin
    avgNightlyRateEur := avgNightlyRateEur
    competitivenessDiscount := a.competitivenessDiscount
    propertyAttributeFactor := a.propertyAttributeFactor
    nettingEur := pyRound (commissionPct * channelNet a) 2
    daysToArrival := a.daysToArrival }

def channelRow (a : ChannelArgs) (platform : Platform) (avgNightlyRateEur commissionPct : ℚ) :
    ChannelPriceCandidate :=
  let calculation := decidePrice (channelPriceArgs a avgNightlyRateEur commissionPct)
  { platform := platform
    avgNightlyRateEur := avgNightlyRateEur
    commissionPct := commissionPct
    marketReferencePriceEur := calculation.marketReferencePriceEur
    minimumPriceEur := calculation.minimumPriceEur
    floorPolicy := calculation.floorPolicy
    ruleApplied := calculation.ruleApplied
    suggestedPriceEur := calculation.suggestedPriceEur
    effectiveMargin := calculation.effectiveMargin
    decisionComponents := calculation.decisionComponents }

def decidePriceByChannel (a : ChannelArgs) : Except PricingError (List ChannelPriceCandidate) :=
  a.channelRatesEur.entries.mapM fun (platform, avgNightlyRateEur) =>
    match a.channelCommissionPct platform with
    | none => .error (.keyError platform.text)
    | some commissionPct => .ok (channelRow a platform avgNightlyRateEur commissionPct)

/-! ## Minimum stay -/

structure MinimumStayRecommendation where
  recommendedMinStay : Option ℕ+
  floorReliefEur : Option ℚ
  costPerReservationEur : Option ℚ
  suggestedPricePerReservationEur : Option ℚ
  decisionComponent : Option DecisionComponent

def reservationCostEur (stayLength : ℕ+)
    (fixedAndAllocatedCostsPerNightEur perBookingCostEur : ℚ) : ℚ :=
  pyRound ((stayLength : ℕ) * fixedAndAllocatedCostsPerNightEur + perBookingCostEur) 2

def recommendMinimumStay (candidates : List LosFloorCandidate)
    (propertyReferencePriceEur fixedAndAllocatedCostsPerNightEur perBookingCostEur : ℚ) :
    Except PricingError MinimumStayRecommendation :=
  match candidates.insertionSort fun c c' => c.stayLength ≤ c'.stayLength with
  | [] => .error .indexError
  | atOneNight :: longer =>
    if atOneNight.ruleApplied ≠ .minimumProfitablePrice then
      .ok
        { recommendedMinStay := some atOneNight.stayLength
          floorReliefEur := some 0
          costPerReservationEur := some (reservationCostEur atOneNight.stayLength
            fixedAndAllocatedCostsPerNightEur perBookingCostEur)
          suggestedPricePerReservationEur :=
            some (pyRound (atOneNight.suggestedPriceEur * (atOneNight.stayLength : ℕ)) 2)
          decisionComponent := none }
    else match longer.find? fun c => c.ruleApplied ≠ .minimumProfitablePrice with
    | some candidate =>
      let floorReliefEur := pyRound (atOneNight.minimumPriceEur - candidate.minimumPriceEur) 2
      let suggestedPricePerReservationEur :=
        pyRound (candidate.suggestedPriceEur * (candidate.stayLength : ℕ)) 2
      .ok
        { recommendedMinStay := some candidate.stayLength
          floorReliefEur := some floorReliefEur
          costPerReservationEur := some (reservationCostEur candidate.stayLength
            fixedAndAllocatedCostsPerNightEur perBookingCostEur)
          suggestedPricePerReservationEur := some suggestedPricePerReservationEur
          decisionComponent := some
            { code := .minimumStayRecommended
              label := "At " ++ toString (atOneNight.stayLength : ℕ) ++
                " night(s), the cost floor (" ++ fmtFloat atOneNight.minimumPriceEur ++
                " EUR) exceeds the property reference price, forcing an uncompetitive price. " ++
                "A minimum stay of " ++ toString (candidate.stayLength : ℕ) ++
                " nights dilutes the one-time booking cost enough to clear it (" ++
                fmtFloat floorReliefEur ++ " EUR/night floor relief) — a whole reservation " ++
                "at that length should be priced at " ++ fmtFloat suggestedPricePerReservationEur ++
                " EUR total."
              impact := floorReliefEur } }
    | none =>
      let longest := (atOneNight :: longer).getLast (List.cons_ne_nil _ _)
      let residualGapEur := pyRound (longest.minimumPriceEur - propertyReferencePriceEur) 2
      .ok
        { recommendedMinStay := none
          floorReliefEur := none
          costPerReservationEur := none
          suggestedPricePerReservationEur := none
          decisionComponent := some
            { code := .minimumStayNotViable
              label := "Even at " ++ toString (longest.stayLength : ℕ) ++
                " nights, the cost floor still exceeds the property reference price by " ++
                fmtFloat residualGapEur ++ " EUR — the fixed/variable cost base, not the " ++
                "one-time booking cost, is the binding constraint. A minimum-stay policy " ++
                "alone will not fix this."
              impact := residualGapEur } }

/-! ## Viability -/

inductive ViabilityStatus
  | ok | demandUpside | minStayLeverAvailable | channelLeverAvailable | persistentFloorBreach
  | overrideActive | floorBinding
  deriving DecidableEq

def persistentBreachThresholdDays : ℤ := 30

def classifyViability (ruleApplied : RuleApplied) (belowMarketBy : ℚ) (recommendedMinStay : Option ℕ+)
    (anyChannelMarketCompetitive manualOverrideActive : Bool) (floorBreachDays : ℤ) :
    ViabilityStatus :=
  if manualOverrideActive then .overrideActive
  else if floorBreachDays ≥ persistentBreachThresholdDays then .persistentFloorBreach
  else if ruleApplied = .marketCompetitive then
    if belowMarketBy ≤ 0 then .demandUpside else .ok
  else if recommendedMinStay.any (1 < ·) then .minStayLeverAvailable
  else if anyChannelMarketCompetitive then .channelLeverAvailable
  else .floorBinding

end PriceEngine
