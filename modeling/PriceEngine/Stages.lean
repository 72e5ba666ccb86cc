import PriceEngine.Models

/-!
# The cost stages

Six operators turn a payment line into the cost aggregate that Stage B prices:
resolution of the cost definition (A0), aggregation (A), bookings, allocation
correction, company costs (A4) and the owner's contract (A2). Each keeps its
own copy of the broadcast rows it reads; a row that has not arrived is skipped,
never waited for.
-/

namespace PriceEngine

/-! ## Stage A0: resolution of the cost definition -/

inductive CostConfigRow
  | definition (row : CostDefinitionRow)
  | allocationRule (row : CostAllocationRuleRow)

structure CostDefinitionResolution where
  definitions : Dict String CostDefinitionRow := .empty
  allocations : Dict String CostAllocationRuleRow := .empty

def CostDefinitionResolution.processElement (s : CostDefinitionResolution) (value : PaymentLine) :
    List EnrichedPaymentLine :=
  match s.definitions.get? value.costDefinitionId, s.allocations.get? value.costDefinitionId with
  | some definition, some allocation =>
    [{ eventId := value.eventId
       apartmentId := value.apartmentId
       apartmentReference := value.apartmentReference
       billingPeriodStart := value.billingPeriodStart
       billingPeriodEnd := value.billingPeriodEnd
       amountGross := value.amountGross
       concept := definition.concept
       scope := definition.scope
       behavior := definition.behavior
       trigger := definition.trigger
       calculationBase := definition.calculationBase
       recurrence := definition.recurrence
       revenueBase := definition.revenueBase
       allocationMethod := allocation.method
       weightConfig := allocation.weightConfig
       rate := definition.rate }]
  | _, _ => []

def CostDefinitionResolution.processBroadcastElement (s : CostDefinitionResolution) :
    CostConfigRow → CostDefinitionResolution
  | .definition row => { s with definitions := s.definitions.put row.costDefinitionId row }
  | .allocationRule row => { s with allocations := s.allocations.put row.costDefinitionId row }

/-! ## Stage A: aggregation -/

inductive ApartmentConfigRow
  | segment (row : ApartmentSegmentRow)
  | strategy (row : PricingStrategyRow)

structure CostEnrichment where
  costLines : Dict String EnrichedPaymentLine := .empty
  segments : Dict String PropertyPricingProfile := .empty
  strategies : Dict String PricingStrategy := .empty

def costAggregateOf (now : Instant) (value : EnrichedPaymentLine) (profile : PropertyPricingProfile)
    (strategy : PricingStrategy) (aggregation : CostAggregationResult) : CostAggregate :=
  { apartmentId := value.apartmentId
    apartmentReference := value.apartmentReference
    city := profile.city
    neighborhood := profile.neighborhood
    propertyType := profile.propertyType
    bedrooms := profile.bedrooms
    fixedCostEur := aggregation.fixedCostEur
    variableCostEur := aggregation.variableCostEur
    perBookingCostEur := aggregation.perBookingCostEur
    percentageCosts := aggregation.percentageCosts
    totalMonthlyCostEur := aggregation.totalMonthlyCostEur
    availableDays := aggregation.availableDays
    costLinesCount := aggregation.costLinesCount
    billingPeriodStart := aggregation.billingPeriodStart
    billingPeriodEnd := aggregation.billingPeriodEnd
    targetMargin := strategy.targetMargin
    competitivenessDiscount := strategy.competitivenessDiscount
    pricingStrategyVersion := strategy.version
    updatedAt := now
    otaRelatedCostEur := aggregation.otaRelatedCostEur
    cleaningCostEur := aggregation.cleaningCostEur
    laundryCostEur := aggregation.laundryCostEur
    bookingScopeCostEur := aggregation.bookingScopeCostEur
    costBreakdown := aggregation.costBreakdown
    pendingAllocationCorrections := aggregation.pendingAllocationCorrections
    propertyAttributeFactor :=
      propertyAttributeFactor profile.qualityTier profile.rating profile.hasView profile.hasParking
    propertyDecisionComponents := propertyAttributeComponents profile.qualityTier profile.rating
      profile.hasView profile.hasParking }

/-- The retained lines after `value`: upserted by event id, two latest period ends kept. -/
def retainLine (costLines : Dict String EnrichedPaymentLine) (value : EnrichedPaymentLine) :
    Dict String EnrichedPaymentLine :=
  let current := costLines.put value.eventId value
  let retainedEnds := retainedBillingPeriodEnds (current.values.map (·.billingPeriodEnd))
  current.filterValues fun line => retainedEnds.contains line.billingPeriodEnd

def CostEnrichment.processElement (s : CostEnrichment) (now : Instant) (value : EnrichedPaymentLine) :
    CostEnrichment × List CostAggregate :=
  let costLines := retainLine s.costLines value
  ({ s with costLines := costLines },
    match aggregateCost costLines.values with
    | none => []
    | some aggregation =>
      match s.segments.get? value.apartmentId, s.strategies.get? value.apartmentId with
      | some profile, some strategy => [costAggregateOf now value profile strategy aggregation]
      | _, _ => [])

def CostEnrichment.processBroadcastElement (s : CostEnrichment) : ApartmentConfigRow → CostEnrichment
  | .segment row => { s with segments := s.segments.put row.apartmentId row.toPropertyPricingProfile }
  | .strategy row =>
    match s.strategies.get? row.apartmentId with
    | some current =>
      if row.version > current.version then
        { s with strategies := s.strategies.put row.apartmentId row.toPricingStrategy }
      else s
    | none => { s with strategies := s.strategies.put row.apartmentId row.toPricingStrategy }

theorem processBroadcastElement_costLines (s : CostEnrichment) (row : ApartmentConfigRow) :
    (s.processBroadcastElement row).costLines = s.costLines := by
  unfold CostEnrichment.processBroadcastElement
  split
  · rfl
  · split
    · split <;> rfl
    · rfl

/-! ## Bookings -/

def stayNights (booking : BookingRow) : List Date :=
  (List.range (booking.checkOut - booking.checkIn).toNat).map fun offset => booking.checkIn + offset

def occupiedNights (bookings : List BookingRow) (periodStart periodEnd : Date) : ℕ :=
  let occupied := ((bookings.filter (·.status == .confirmed)).flatMap stayNights).dedup
  (occupied.filter fun night => periodStart ≤ night ∧ night ≤ periodEnd).length

def overlapping (bookings : List BookingRow) (periodStart periodEnd : Date) : List BookingRow :=
  bookings.filter fun booking =>
    booking.status == .confirmed && booking.checkIn ≤ periodEnd && booking.checkOut > periodStart

def bookingCount (bookings : List BookingRow) (periodStart periodEnd : Date) : ℕ :=
  (overlapping bookings periodStart periodEnd).length

def avgGuests (bookings : List BookingRow) (periodStart periodEnd : Date) : ℚ :=
  let found := overlapping bookings periodStart periodEnd
  if found.isEmpty then 0
  else pyRound (((found.map (·.guests)).sum : ℕ) / (found.length : ℚ)) 2

def retentionBufferDays : ℤ := 90

structure BookingEnrichment where
  bookings : Dict String BookingRow := .empty
  latestCostAggregate : Option CostAggregate := none

def recompute (bookings : List BookingRow) (costAggregate : CostAggregate) : CostAggregate :=
  { costAggregate with
    occupiedNights :=
      occupiedNights bookings costAggregate.billingPeriodStart costAggregate.billingPeriodEnd
    bookingCount := bookingCount bookings costAggregate.billingPeriodStart costAggregate.billingPeriodEnd
    avgGuests := avgGuests bookings costAggregate.billingPeriodStart costAggregate.billingPeriodEnd }

def BookingEnrichment.processElement1 (s : BookingEnrichment) (value : CostAggregate) :
    BookingEnrichment × List CostAggregate :=
  ({ s with latestCostAggregate := some value }, [recompute s.bookings.values value])

def BookingEnrichment.processElement2 (s : BookingEnrichment) (value : BookingRow) :
    BookingEnrichment × List CostAggregate :=
  let bookings := s.bookings.put value.bookingId value
  match s.latestCostAggregate with
  | none => ({ s with bookings := bookings }, [])
  | some cached =>
    let cutoff := cached.billingPeriodStart - retentionBufferDays
    let bookings := bookings.filterValues fun row => !(row.checkOut < cutoff)
    ({ s with bookings := bookings }, [recompute bookings.values cached])

/-! ## Allocation correction -/

def allocationDenominator (value : CostAggregate) (method : AllocationMethod) : ℤ :=
  let denominator : ℤ :=
    match method with
    | .occupiedNight => value.occupiedNights
    | .booking => value.bookingCount
    | _ => 0
  if denominator ≤ 0 then value.availableDays else denominator

def correctionPerNight (value : CostAggregate) (correction : PendingAllocationCorrection) : ℚ :=
  perDay (allocationDenominator value correction.allocationMethod) correction.monthlyEquivalentEur

def applyCorrections (value : CostAggregate) : CostAggregate :=
  if value.pendingAllocationCorrections.isEmpty then value
  else
    let addition (keep : PendingAllocationCorrection → Bool) :=
      ((value.pendingAllocationCorrections.filter keep).map (correctionPerNight value)).sum
    { value with
      fixedCostEur := pyRound (value.fixedCostEur + addition fun c => c.behavior == .fixed) 2
      variableCostEur := pyRound (value.variableCostEur + addition fun c => !(c.behavior == .fixed)) 2
      pendingAllocationCorrections := [] }

/-! ## Stage A4: company costs -/

inductive CompanyConfigRow
  | definition (row : CostDefinitionRow)
  | allocationRule (row : CostAllocationRuleRow)
  | occurrence (row : CompanyCostOccurrenceRow)

structure CompanyCostEnrichment where
  definitions : Dict String CostDefinitionRow := .empty
  allocations : Dict String CostAllocationRuleRow := .empty
  occurrences : Dict String CompanyCostOccurrenceRow := .empty

def occurrenceShare (s : CompanyCostEnrichment) (value : CostAggregate)
    (occurrence : CompanyCostOccurrenceRow) : Option (Behavior × ℚ) := do
  let definition ← s.definitions.get? occurrence.costDefinitionId
  let allocation ← s.allocations.get? occurrence.costDefinitionId
  let weightMap ← allocation.weightConfig
  let weight := (weightMap.get? value.apartmentId).getD 0
  if definition.scope ≠ .company ∨ weight ≤ 0 then none
  else
    let share := occurrence.amountGross / recurrenceMonthlyDivisor definition.recurrence * weight
    some (definition.behavior, perDay value.availableDays share)

def CompanyCostEnrichment.processElement (s : CompanyCostEnrichment) (value : CostAggregate) :
    CostAggregate :=
  let shares := s.occurrences.values.filterMap (occurrenceShare s value)
  let fixedAddition := ((shares.filter (·.1 == .fixed)).map (·.2)).sum
  let variableAddition := ((shares.filter (!·.1 == .fixed)).map (·.2)).sum
  if fixedAddition = 0 ∧ variableAddition = 0 then value
  else
    { value with
      fixedCostEur := pyRound (value.fixedCostEur + fixedAddition) 2
      variableCostEur := pyRound (value.variableCostEur + variableAddition) 2 }

def CompanyCostEnrichment.processBroadcastElement (s : CompanyCostEnrichment) :
    CompanyConfigRow → CompanyCostEnrichment
  | .definition row => { s with definitions := s.definitions.put row.costDefinitionId row }
  | .allocationRule row => { s with allocations := s.allocations.put row.costDefinitionId row }
  | .occurrence row => { s with occurrences := s.occurrences.put row.companyCostOccurrenceId row }

/-! ## Stage A2: the owner's contract -/

inductive OwnerConfigRow
  | contract (row : OwnerContractRow)
  | definition (row : CostDefinitionRow)

structure OwnerContractEnrichment where
  ownerContracts : Dict String OwnerContractAssignment := .empty
  costDefinitions : Dict String CostDefinitionRow := .empty

def OwnerContractEnrichment.processElement (s : OwnerContractEnrichment) (value : CostAggregate) :
    List CostAggregate :=
  match (s.ownerContracts.get? value.apartmentId).bind
      fun assignment => s.costDefinitions.get? assignment.costDefinitionId with
  | none => []
  | some definition =>
    [{ value with
       commissionBase := definition.revenueBase.getD .totalRevenue
       commissionPct := definition.rate.getD 0 }]

def OwnerContractEnrichment.processBroadcastElement (s : OwnerContractEnrichment) :
    OwnerConfigRow → OwnerContractEnrichment
  | .contract row => { s with ownerContracts := s.ownerContracts.put row.apartmentId row.toAssignment }
  | .definition row => { s with costDefinitions := s.costDefinitions.put row.costDefinitionId row }

end PriceEngine
