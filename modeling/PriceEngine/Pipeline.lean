import Mathlib.Logic.Function.Basic
import PriceEngine.StageB
import PriceEngine.Stages

/-!
# The job

Each apartment has its chain of operators, each segment its partition of
Stage B. Operators take one message at a time and the channels between them
keep the order, but nothing orders one channel against another: a line may wait
in front of Stage A while a booking passes, and a broadcast row reaches each
operator on its own. A run is any order of such steps.

A message carries the input that caused it and the step at which Stage A built
it; both are for the statements only and no operator reads them.
-/

namespace PriceEngine

/-! ## Messages -/

inductive InputKind
  | payment | booking | market
  deriving DecidableEq

/-- An input of the job: its kind and the step at which it entered. -/
structure Cause where
  kind : InputKind
  step : ℕ
  deriving DecidableEq

structure Message where
  cause : Cause
  born : ℕ
  cost : CostAggregate

structure Emitted where
  cause : Cause
  segment : SegmentKey
  decision : PriceDecision

/-! ## The chain of one apartment -/

structure Chain where
  resolution : CostDefinitionResolution := {}
  toCostEnrichment : List (Cause × EnrichedPaymentLine) := []
  costEnrichment : CostEnrichment := {}
  toBookingEnrichment : List Message := []
  bookingEnrichment : BookingEnrichment := {}
  /-- The step at which the aggregate that `bookingEnrichment` holds was built. -/
  latestBorn : ℕ := 0
  toCompanyCostEnrichment : List Message := []
  companyCostEnrichment : CompanyCostEnrichment := {}
  toOwnerContractEnrichment : List Message := []
  ownerContractEnrichment : OwnerContractEnrichment := {}
  toPriceDecision : List Message := []

inductive Operator
  | costEnrichment | bookingEnrichment | companyCostEnrichment | ownerContractEnrichment

inductive ConfigRow
  | costConfig (row : CostConfigRow)
  | apartmentConfig (row : ApartmentConfigRow)
  | companyConfig (row : CompanyConfigRow)
  | ownerConfig (row : OwnerConfigRow)

def Chain.payment (c : Chain) (cause : Cause) (value : PaymentLine) : Chain :=
  { c with
    toCostEnrichment := c.toCostEnrichment ++ (c.resolution.processElement value).map fun line => (cause, line) }

def Chain.booking (c : Chain) (cause : Cause) (value : BookingRow) : Chain :=
  let (bookingEnrichment, costs) := c.bookingEnrichment.processElement2 value
  { c with
    bookingEnrichment := bookingEnrichment
    toCompanyCostEnrichment := c.toCompanyCostEnrichment ++
      costs.map fun cost => { cause := cause, born := c.latestBorn, cost := cost } }

/-- An operator takes the oldest message of its channel; with none there, nothing happens. -/
def Chain.operate (c : Chain) (step : ℕ) (now : Instant) : Operator → Chain
  | .costEnrichment =>
    match c.toCostEnrichment with
    | [] => c
    | (cause, line) :: rest =>
      let (costEnrichment, costs) := c.costEnrichment.processElement now line
      { c with
        toCostEnrichment := rest
        costEnrichment := costEnrichment
        toBookingEnrichment := c.toBookingEnrichment ++
          costs.map fun cost => { cause := cause, born := step, cost := cost } }
  | .bookingEnrichment =>
    match c.toBookingEnrichment with
    | [] => c
    | m :: rest =>
      let (bookingEnrichment, costs) := c.bookingEnrichment.processElement1 m.cost
      { c with
        toBookingEnrichment := rest
        bookingEnrichment := bookingEnrichment
        latestBorn := m.born
        toCompanyCostEnrichment := c.toCompanyCostEnrichment ++ costs.map fun cost => { m with cost := cost } }
  | .companyCostEnrichment =>
    match c.toCompanyCostEnrichment with
    | [] => c
    | m :: rest =>
      let cost := c.companyCostEnrichment.processElement (applyCorrections m.cost)
      { c with
        toCompanyCostEnrichment := rest
        toOwnerContractEnrichment := c.toOwnerContractEnrichment ++ [{ m with cost := cost }] }
  | .ownerContractEnrichment =>
    match c.toOwnerContractEnrichment with
    | [] => c
    | m :: rest =>
      { c with
        toOwnerContractEnrichment := rest
        toPriceDecision := c.toPriceDecision ++
          (c.ownerContractEnrichment.processElement m.cost).map fun cost => { m with cost := cost } }

def Chain.configure (c : Chain) : ConfigRow → Chain
  | .costConfig row => { c with resolution := c.resolution.processBroadcastElement row }
  | .apartmentConfig row => { c with costEnrichment := c.costEnrichment.processBroadcastElement row }
  | .companyConfig row =>
    { c with companyCostEnrichment := c.companyCostEnrichment.processBroadcastElement row }
  | .ownerConfig row =>
    { c with ownerContractEnrichment := c.ownerContractEnrichment.processBroadcastElement row }

/-! ## The job -/

structure Pipeline where
  chains : String → Chain := fun _ => {}
  segments : SegmentKey → StageB := fun _ => {}
  steps : ℕ := 0

inductive PipelineEvent
  | payment (value : PaymentLine)
  | booking (value : BookingRow)
  | market (value : MarketPrice)
  /-- A broadcast row reaches an operator of the apartment's chain. -/
  | configure (apartmentId : String) (row : ConfigRow)
  | operate (apartmentId : String) (operator : Operator)
  /-- A partition of Stage B takes the oldest aggregate that the apartment's chain has sent it. -/
  | price (apartmentId : String) (segment : SegmentKey)

def Pipeline.updateChain (s : Pipeline) (apartmentId : String) (f : Chain → Chain) : Pipeline :=
  { s with
    chains := Function.update s.chains apartmentId (f (s.chains apartmentId))
    steps := s.steps + 1 }

/-- Keyed by segment, the channel to Stage B is one channel for each partition. -/
def Message.isFor (segment : SegmentKey) (m : Message) : Bool := m.cost.segmentKey == segment

def Chain.dropPriced (segment : SegmentKey) (c : Chain) : Chain :=
  { c with toPriceDecision := c.toPriceDecision.eraseP (·.isFor segment) }

/-- One event of a partition of Stage B, caused by `cause`. -/
def Pipeline.stageB (s : Pipeline) (env : Env) (cause : Cause) (segment : SegmentKey) (event : StageBEvent) :
    Except PricingError (Pipeline × List Emitted) := do
  let (partition', decisions) ← (s.segments segment).step (env, event)
  .ok ({ s with segments := Function.update s.segments segment partition' },
    decisions.map fun decision => { cause := cause, segment := segment, decision := decision })

def Pipeline.step (s : Pipeline) (e : Env × PipelineEvent) : Except PricingError (Pipeline × List Emitted) :=
  match e.2 with
  | .payment value => .ok (s.updateChain value.apartmentId (·.payment ⟨.payment, s.steps⟩ value), [])
  | .booking value => .ok (s.updateChain value.apartmentId (·.booking ⟨.booking, s.steps⟩ value), [])
  | .market value =>
    { s with steps := s.steps + 1 }.stageB e.1 ⟨.market, s.steps⟩ value.segmentKey (.market value)
  | .configure apartmentId row => .ok (s.updateChain apartmentId (·.configure row), [])
  | .operate apartmentId operator =>
    .ok (s.updateChain apartmentId (·.operate s.steps (e.1.now 0) operator), [])
  | .price apartmentId segment =>
    match (s.chains apartmentId).toPriceDecision.find? (·.isFor segment) with
    | none => .ok ({ s with steps := s.steps + 1 }, [])
    | some m => (s.updateChain apartmentId (·.dropPriced segment)).stageB e.1 m.cause segment (.cost m.cost)

end PriceEngine
