import PriceEngine.CostAggregation
import PriceEngine.Engine

/-!
# Rows, events and aggregates

The messages the job reads (payment lines, bookings, market prices and the
configuration rows) and the values its stages pass on: `CostAggregate` for one
apartment, `MarketSnapshot` and `NightSnapshot` for one night of a segment.
The event schemas' own bounds are fields of the two event types.
-/

namespace PriceEngine

/-! ## Configuration rows -/

inductive PropertyType
  | apartment | studio | house | villa | room
  deriving DecidableEq

structure PropertyPricingProfile where
  city : String
  neighborhood : String
  propertyType : PropertyType
  bedrooms : ℕ
  qualityTier : QualityTier := .standard
  rating : ℚ := 4
  hasView : Bool := false
  hasParking : Bool := false
  deriving DecidableEq

structure PricingStrategy where
  version : ℤ
  targetMargin : ℚ
  competitivenessDiscount : ℚ
  floorPolicyDefault : FloorPolicy := .soft
  deriving DecidableEq

structure ApartmentSegmentRow extends PropertyPricingProfile where
  apartmentId : String
  deriving DecidableEq

structure PricingStrategyRow extends PricingStrategy where
  apartmentId : String
  deriving DecidableEq

structure OwnerContractAssignment where
  costDefinitionId : String
  deriving DecidableEq

structure OwnerContractRow where
  apartmentId : String
  ownerId : String
  costDefinitionId : String
  deriving DecidableEq

def OwnerContractRow.toAssignment (row : OwnerContractRow) : OwnerContractAssignment :=
  { costDefinitionId := row.costDefinitionId }

structure CostDefinitionRow where
  costDefinitionId : String
  concept : Concept
  scope : Scope
  behavior : Behavior
  trigger : Trigger
  calculationBase : CalculationBase
  recurrence : Recurrence
  revenueBase : Option RevenueBase
  rate : Option ℚ := none
  deriving DecidableEq

/-- `weightConfig` is the parsed JSON object: the weight of each apartment. -/
structure CostAllocationRuleRow where
  costDefinitionId : String
  method : AllocationMethod
  weightConfig : Option (Dict String ℚ)
  deriving DecidableEq

structure CompanyCostOccurrenceRow where
  companyCostOccurrenceId : String
  costDefinitionId : String
  billingPeriodStart : Date
  billingPeriodEnd : Date
  amountGross : ℚ
  deriving DecidableEq

/-! ## Events -/

/-- A version of a payment line, as the event schema admits it. -/
structure PaymentLine where
  eventId : String
  apartmentId : String
  apartmentReference : String
  costDefinitionId : String
  billingPeriodStart : Date
  billingPeriodEnd : Date
  amountGross : ℚ
  createdAt : Instant
  updatedAt : Option Instant := none
  amountGross_nonneg : 0 ≤ amountGross
  deriving DecidableEq

inductive BookingStatus
  | confirmed | cancelled
  deriving DecidableEq

structure BookingRow where
  bookingId : String
  apartmentId : String
  checkIn : Date
  checkOut : Date
  guests : ℕ
  status : BookingStatus
  deriving DecidableEq

structure MarketArea where
  city : String
  neighborhood : Option String := none
  deriving DecidableEq

structure PropertyProfile where
  type : PropertyType
  bedrooms : ℕ
  deriving DecidableEq

structure MarketContext where
  occupancyRate : Option ℚ := none
  sampleSize : ℕ
  platform : Option Platform := none
  occupancyRate_mem : ∀ r ∈ occupancyRate, 0 ≤ r ∧ r ≤ 1
  sampleSize_pos : 1 ≤ sampleSize

/-- A market price event, as the event schema admits it. -/
structure MarketPrice where
  marketArea : MarketArea
  propertyProfile : PropertyProfile
  targetDate : Date
  avgNightlyRate : ℚ
  marketContext : MarketContext
  collectedAt : Instant
  avgNightlyRate_nonneg : 0 ≤ avgNightlyRate

/-! ## Values passed between stages -/

structure SegmentKey where
  city : String
  neighborhood : Option String
  propertyType : PropertyType
  bedrooms : ℕ
  deriving DecidableEq

structure CostAggregate where
  apartmentId : String
  apartmentReference : String
  city : String
  neighborhood : String
  propertyType : PropertyType
  bedrooms : ℕ
  fixedCostEur : ℚ
  variableCostEur : ℚ
  perBookingCostEur : ℚ
  totalMonthlyCostEur : ℚ
  availableDays : ℤ
  costLinesCount : ℕ
  billingPeriodStart : Date
  billingPeriodEnd : Date
  targetMargin : ℚ
  competitivenessDiscount : ℚ
  updatedAt : Instant
  propertyAttributeFactor : ℚ := 1
  propertyDecisionComponents : List DecisionComponent := []
  commissionPct : ℚ := 15 / 100
  commissionBase : RevenueBase := .totalRevenue
  pricingStrategyVersion : ℤ := 1
  percentageCosts : List PercentageCostComponent := []
  otaRelatedCostEur : ℚ := 0
  cleaningCostEur : ℚ := 0
  laundryCostEur : ℚ := 0
  bookingScopeCostEur : ℚ := 0
  costBreakdown : List ConceptAmount := []
  occupiedNights : ℕ := 0
  bookingCount : ℕ := 0
  avgGuests : ℚ := 0
  pendingAllocationCorrections : List PendingAllocationCorrection := []
  deriving DecidableEq

def CostAggregate.segmentKey (c : CostAggregate) : SegmentKey :=
  { city := c.city
    neighborhood := some c.neighborhood
    propertyType := c.propertyType
    bedrooms := c.bedrooms }

def MarketPrice.segmentKey (mp : MarketPrice) : SegmentKey :=
  { city := mp.marketArea.city
    neighborhood := mp.marketArea.neighborhood
    propertyType := mp.propertyProfile.type
    bedrooms := mp.propertyProfile.bedrooms }

structure MarketSnapshot where
  marketArea : String
  avgNightlyRateEur : ℚ
  occupancyRate : Option ℚ
  sampleSize : Option ℕ
  collectedAt : Instant
  deriving DecidableEq

structure NightSnapshot where
  blended : Option MarketSnapshot
  channels : Dict Platform MarketSnapshot := .empty
  deriving DecidableEq

def NightSnapshot.channelRatesEur (night : NightSnapshot) : Dict Platform ℚ :=
  night.channels.mapValues (·.avgNightlyRateEur)

end PriceEngine
