import PriceEngine.Calendar
import PriceEngine.Dict
import PriceEngine.Layers
import Mathlib.Data.List.Dedup
import Mathlib.Data.List.Sort

/-!
# Cost aggregation

An enriched payment line carries the dimensions of its cost definition.
`aggregateCost` reads the lines of the latest billing period and splits them
into nightly fixed and variable costs, the average cost of one booking,
percentage rates, costs still to be allocated and the sub-totals that revenue
bases net out.
-/

namespace PriceEngine

/-! ## Dimensions of a cost -/

inductive Concept
  | electricity | water | gas | internet | pmsSubscription | otaFee | channelManager | officeRent
  | cleaning | laundry | maintenance | insurance | communityFee | other | ownerCommission
  deriving DecidableEq

inductive Scope
  | booking | property | company
  deriving DecidableEq

inductive Behavior
  | fixed | variable' | semiVariable
  deriving DecidableEq

inductive Trigger
  | reservation | night | guest | time | revenue | event
  deriving DecidableEq

inductive CalculationBase
  | fixedAmount | pctRevenue | pctAdjustedRevenue | perNight | perGuest
  deriving DecidableEq

inductive Recurrence
  | perBooking | daily | monthly | quarterly | annual | oneOff
  deriving DecidableEq

inductive AllocationMethod
  | direct | calendarDay | availableNight | occupiedNight | booking | revenue | weighted
  deriving DecidableEq

def otaRelatedConcepts : List Concept := [.otaFee, .channelManager]

def cleaningConcepts : List Concept := [.cleaning]

def laundryConcepts : List Concept := [.laundry]

def conceptOrder : List Concept :=
  [.electricity, .water, .gas, .internet, .pmsSubscription, .otaFee, .channelManager, .officeRent,
   .cleaning, .laundry, .maintenance, .insurance, .communityFee, .other]

def recurrenceMonthlyDivisor : Recurrence → ℚ
  | .perBooking | .daily | .monthly | .oneOff => 1
  | .quarterly => 3
  | .annual => 12

def immediateAllocationMethods : List AllocationMethod :=
  [.direct, .calendarDay, .availableNight, .weighted, .revenue]

def percentageCalculationBases : List CalculationBase := [.pctRevenue, .pctAdjustedRevenue]

/-! ## Lines and results -/

structure ConceptAmount where
  concept : Concept
  amountEur : ℚ
  scope : Scope
  behavior : Behavior
  trigger : Trigger
  calculationBase : CalculationBase
  recurrence : Recurrence
  allocationMethod : AllocationMethod
  deriving DecidableEq

structure PercentageCostComponent where
  concept : Concept
  rate : ℚ
  revenueBase : Option RevenueBase
  deriving DecidableEq

/-- `weightConfig` is the parsed JSON object: the weight of each apartment. -/
structure EnrichedPaymentLine where
  eventId : String
  apartmentId : String
  apartmentReference : String
  billingPeriodStart : Date
  billingPeriodEnd : Date
  amountGross : ℚ
  concept : Concept
  scope : Scope
  behavior : Behavior
  trigger : Trigger
  calculationBase : CalculationBase
  recurrence : Recurrence
  revenueBase : Option RevenueBase
  allocationMethod : AllocationMethod
  weightConfig : Option (Dict String ℚ)
  rate : Option ℚ := none
  deriving DecidableEq

structure PendingAllocationCorrection where
  concept : Concept
  behavior : Behavior
  allocationMethod : AllocationMethod
  monthlyEquivalentEur : ℚ
  deriving DecidableEq

def retainedBillingPeriodEnds (periodEnds : List Date) (keep : ℕ := 2) : List Date :=
  (periodEnds.dedup.insertionSort (· ≥ ·)).take keep

structure CostAggregationResult where
  billingPeriodStart : Date
  billingPeriodEnd : Date
  totalMonthlyCostEur : ℚ
  availableDays : ℤ
  costLinesCount : ℕ
  fixedCostEur : ℚ
  variableCostEur : ℚ
  perBookingCostEur : ℚ
  otaRelatedCostEur : ℚ
  cleaningCostEur : ℚ
  laundryCostEur : ℚ
  bookingScopeCostEur : ℚ
  costBreakdown : List ConceptAmount
  pendingAllocationCorrections : List PendingAllocationCorrection
  percentageCosts : List PercentageCostComponent

/-! ## Aggregation -/

def isPercentage (line : EnrichedPaymentLine) : Bool :=
  percentageCalculationBases.contains line.calculationBase

def isOneTime (line : EnrichedPaymentLine) : Bool := line.recurrence == .oneOff

def isImmediate (line : EnrichedPaymentLine) : Bool :=
  immediateAllocationMethods.contains line.allocationMethod

def monthlyEquivalent (line : EnrichedPaymentLine) : ℚ :=
  line.amountGross / recurrenceMonthlyDivisor line.recurrence

def sumWhere (f : EnrichedPaymentLine → ℚ) (keep : EnrichedPaymentLine → Bool)
    (lines : List EnrichedPaymentLine) : ℚ :=
  ((lines.filter keep).map f).sum

/-- `round(total / available_days, 2) if available_days > 0 else 0.0`. -/
def perDay (availableDays : ℤ) (total : ℚ) : ℚ :=
  if availableDays > 0 then pyRound (total / availableDays) 2 else 0

def firstOf (concept : Concept) (lines : List EnrichedPaymentLine) : Option EnrichedPaymentLine :=
  lines.find? fun line => line.concept == concept

/-- The set of concepts, in the order of first appearance; Python leaves its order open. -/
def conceptsOf (lines : List EnrichedPaymentLine) : List Concept :=
  (lines.map (·.concept)).eraseDups

def percentageCostsOf (percentageLines : List EnrichedPaymentLine) : List PercentageCostComponent :=
  (conceptsOf percentageLines).map fun concept =>
    { concept := concept
      rate := ((firstOf concept percentageLines).bind (·.rate)).getD 0
      revenueBase := (firstOf concept percentageLines).bind (·.revenueBase) }

def pendingCorrectionsOf (deferredRecurring : List EnrichedPaymentLine) :
    List PendingAllocationCorrection :=
  (conceptsOf deferredRecurring).filterMap fun concept =>
    (firstOf concept deferredRecurring).map fun first =>
      { concept := concept
        behavior := first.behavior
        allocationMethod := first.allocationMethod
        monthlyEquivalentEur :=
          pyRound (sumWhere monthlyEquivalent (·.concept == concept) deferredRecurring) 2 }

def costBreakdownOf (availableDays : ℤ) (lines : List EnrichedPaymentLine) : List ConceptAmount :=
  conceptOrder.filterMap fun concept =>
    (firstOf concept lines).map fun first =>
      { concept := concept
        amountEur := perDay availableDays (sumWhere (·.amountGross) (·.concept == concept) lines)
        scope := first.scope
        behavior := first.behavior
        trigger := first.trigger
        calculationBase := first.calculationBase
        recurrence := first.recurrence
        allocationMethod := first.allocationMethod }

def aggregatePeriod (currentEnd periodStart : Date) (lines : List EnrichedPaymentLine) :
    CostAggregationResult :=
  let availableDays := currentEnd - periodStart + 1
  let percentageLines := lines.filter isPercentage
  let nonPercentageLines := lines.filter fun line => !isPercentage line
  let oneTimeLines := nonPercentageLines.filter isOneTime
  let recurringLines := nonPercentageLines.filter fun line => !isOneTime line
  let immediateRecurring := recurringLines.filter isImmediate
  let deferredRecurring := recurringLines.filter fun line => !isImmediate line
  let amountOf (keep : EnrichedPaymentLine → Bool) := sumWhere (·.amountGross) keep lines
  { billingPeriodStart := periodStart
    billingPeriodEnd := currentEnd
    totalMonthlyCostEur := pyRound (amountOf fun _ => true) 2
    availableDays := availableDays
    costLinesCount := lines.length
    fixedCostEur := perDay availableDays
      (sumWhere monthlyEquivalent (fun line => line.behavior == .fixed) immediateRecurring)
    variableCostEur := perDay availableDays
      (sumWhere monthlyEquivalent (fun line => [.variable', .semiVariable].contains line.behavior)
        immediateRecurring)
    perBookingCostEur :=
      if oneTimeLines.isEmpty then 0
      else pyRound (sumWhere (·.amountGross) (fun _ => true) oneTimeLines / oneTimeLines.length) 2
    otaRelatedCostEur :=
      perDay availableDays (amountOf fun line => otaRelatedConcepts.contains line.concept)
    cleaningCostEur :=
      perDay availableDays (amountOf fun line => cleaningConcepts.contains line.concept)
    laundryCostEur :=
      perDay availableDays (amountOf fun line => laundryConcepts.contains line.concept)
    bookingScopeCostEur := perDay availableDays (amountOf fun line => line.scope == .booking)
    costBreakdown := costBreakdownOf availableDays lines
    pendingAllocationCorrections := pendingCorrectionsOf deferredRecurring
    percentageCosts := percentageCostsOf percentageLines }

def aggregateCost (paymentLines : List EnrichedPaymentLine) : Option CostAggregationResult := do
  let currentEnd ← (paymentLines.map (·.billingPeriodEnd)).max?
  let lines := paymentLines.filter fun line => line.billingPeriodEnd == currentEnd
  let first ← lines.head?
  aggregatePeriod currentEnd first.billingPeriodStart lines

end PriceEngine
