import PriceEngine.Models
import PriceEngine.Registry
import PriceEngine.StrategyTable

/-!
# Cost definitions and their allocation rules

Every start of `mock-pm-app` brings the two tables to the current schema, moves
the classification of old owner contracts and old payment lines into them, and
resolves one definition for each concept it knows: the row of exactly that
shape, inserted with its allocation rule where there is none. A transaction
that raises is rolled back; ids come from `gen_random_uuid()`.
-/

namespace PriceEngine.MockPmApp

/-! ## Rows -/

/-- The dimensions of a cost definition. -/
structure CostShape where
  concept : Concept
  scope : Scope
  behavior : Behavior
  trigger : Trigger
  calculationBase : CalculationBase
  recurrence : Recurrence
  revenueBase : Option RevenueBase
  rate : Option ℚ
  deriving DecidableEq

def CostShape.row (shape : CostShape) (costDefinitionId : String) : CostDefinitionRow :=
  { costDefinitionId
    concept := shape.concept
    scope := shape.scope
    behavior := shape.behavior
    trigger := shape.trigger
    calculationBase := shape.calculationBase
    recurrence := shape.recurrence
    revenueBase := shape.revenueBase
    rate := shape.rate }

def shapeOf (row : CostDefinitionRow) : CostShape :=
  ⟨row.concept, row.scope, row.behavior, row.trigger, row.calculationBase, row.recurrence, row.revenueBase, row.rate⟩

@[simp] theorem shapeOf_row (shape : CostShape) (id : String) : shapeOf (shape.row id) = shape := rfl

@[simp] theorem row_costDefinitionId (shape : CostShape) (id : String) : (shape.row id).costDefinitionId = id := rfl

/-- `calculation_base IN ('pct_revenue', 'pct_adjusted_revenue')`. -/
def isPct (calculationBase : CalculationBase) : Bool := percentageCalculationBases.contains calculationBase

/-- `cost_definitions_rate_check` and `cost_definitions_rate_matches_calculation_base`. -/
def rateChecks (shape : CostShape) : Bool :=
  (shape.rate.all fun r => 0 ≤ r ∧ r ≤ 1) && isPct shape.calculationBase == shape.rate.isSome

/-- What an INSERT stores of a shape: the rate at the scale of its column, `NUMERIC(6,4)`. -/
def storedShape (shape : CostShape) : CostShape := { shape with rate := shape.rate.map (toNumeric 4) }

@[simp] theorem storedShape_storedShape (shape : CostShape) : storedShape (storedShape shape) = storedShape shape := by
  cases h : shape.rate <;> simp [storedShape, h]

/-! ## Tables -/

/-- `ensured` says that the schema is current: both tables there, with the rate and its constraints. -/
structure Catalogue where
  ensured : Bool
  definitions : List CostDefinitionRow
  rules : List CostAllocationRuleRow
  deriving DecidableEq

/-- A transaction under way, and the ids it may still draw; it is lost where they run out. -/
structure Transaction where
  catalogue : Catalogue
  uuids : List String
  deriving DecidableEq

def insertDefinition (c : Catalogue) (id : String) (shape : CostShape) : Option Catalogue :=
  if rateChecks (storedShape shape) ∧ id ∉ c.definitions.map (·.costDefinitionId) then
    some { c with definitions := c.definitions ++ [(storedShape shape).row id] }
  else none

/-- One rule for each definition, and only for a definition that is there. -/
def insertRule (c : Catalogue) (rule : CostAllocationRuleRow) : Option Catalogue :=
  if rule.costDefinitionId ∈ c.definitions.map (·.costDefinitionId) ∧
      rule.costDefinitionId ∉ c.rules.map (·.costDefinitionId) then
    some { c with rules := c.rules ++ [rule] }
  else none

/-- Draws an id and inserts a definition under it. -/
def define (s : Transaction) (shape : CostShape) : Option (Transaction × String) :=
  match s.uuids with
  | [] => none
  | id :: uuids => (insertDefinition s.catalogue id shape).map fun c => (⟨c, uuids⟩, id)

/-- A definition and, right after it, its allocation rule. -/
def defineWithRule (s : Transaction) (shape : CostShape) (method : AllocationMethod)
    (weightConfig : Option (Dict String ℚ)) : Option (Transaction × String) := do
  let (s, id) ← define s shape
  let c ← insertRule s.catalogue ⟨id, method, weightConfig⟩
  some ({ s with catalogue := c }, id)

/-! ## The schema -/

/-- A percentage definition from before rates gets the rate 0.15. -/
def backfillRate (row : CostDefinitionRow) : CostDefinitionRow :=
  if isPct row.calculationBase ∧ row.rate = none then { row with rate := some (15 / 100) } else row

/-- `ensure_cost_definitions_schema` and `ensure_cost_allocation_rules_schema`; a constraint is added only where
every row meets it. -/
def ensureSchema (c : Catalogue) : Option Catalogue :=
  let definitions := c.definitions.map backfillRate
  if definitions.all fun row => rateChecks (shapeOf row) then some { c with ensured := true, definitions } else none

/-! ## Resolving -/

structure CostDefinitionSpec extends CostShape where
  allocationMethod : AllocationMethod
  weightConfig : Option (Dict String ℚ)
  deriving DecidableEq

def costDefinitionSpecs : List CostDefinitionSpec :=
  [⟨⟨.electricity, .property, .variable', .time, .fixedAmount, .monthly, none, none⟩, .calendarDay, none⟩,
   ⟨⟨.water, .property, .variable', .time, .fixedAmount, .monthly, none, none⟩, .calendarDay, none⟩,
   ⟨⟨.gas, .property, .variable', .time, .fixedAmount, .monthly, none, none⟩, .calendarDay, none⟩,
   ⟨⟨.internet, .property, .fixed, .time, .fixedAmount, .monthly, none, none⟩, .calendarDay, none⟩,
   ⟨⟨.pmsSubscription, .property, .fixed, .time, .fixedAmount, .monthly, none, none⟩, .calendarDay, none⟩,
   ⟨⟨.otaFee, .booking, .variable', .reservation, .pctAdjustedRevenue, .perBooking, some .totalRevenue,
      some (15 / 100)⟩, .booking, none⟩,
   ⟨⟨.channelManager, .property, .fixed, .time, .fixedAmount, .monthly, none, none⟩, .calendarDay, none⟩,
   ⟨⟨.officeRent, .company, .fixed, .time, .fixedAmount, .monthly, none, none⟩, .weighted, none⟩,
   ⟨⟨.cleaning, .booking, .variable', .reservation, .fixedAmount, .perBooking, none, none⟩, .occupiedNight, none⟩,
   ⟨⟨.laundry, .booking, .variable', .reservation, .fixedAmount, .perBooking, none, none⟩, .occupiedNight, none⟩,
   ⟨⟨.maintenance, .property, .semiVariable, .event, .fixedAmount, .oneOff, none, none⟩, .direct, none⟩,
   ⟨⟨.insurance, .property, .fixed, .time, .fixedAmount, .annual, none, none⟩, .calendarDay, none⟩,
   ⟨⟨.communityFee, .property, .fixed, .time, .fixedAmount, .monthly, none, none⟩, .calendarDay, none⟩,
   ⟨⟨.other, .property, .variable', .time, .fixedAmount, .monthly, none, none⟩, .calendarDay, none⟩]

section

variable (fetch : Fetch CostDefinitionRow)

/-- The turn of one spec in the loop of `resolve_cost_definition_ids`. -/
def resolveSpec (s : Transaction) (spec : CostDefinitionSpec) : Option (Transaction × String) :=
  match fetch.one (s.catalogue.definitions.filter fun row => shapeOf row == spec.toCostShape) with
  | some row => some (s, row.costDefinitionId)
  | none => defineWithRule s spec.toCostShape spec.allocationMethod spec.weightConfig

def resolveSpecs (s : Transaction) (conceptToId : Dict Concept String) :
    List CostDefinitionSpec → Option (Transaction × Dict Concept String)
  | [] => some (s, conceptToId)
  | spec :: specs => do
    let (s, id) ← resolveSpec fetch s spec
    resolveSpecs s (conceptToId.put spec.concept id) specs

def resolveCostDefinitionIds (s : Transaction) : Option (Transaction × Dict Concept String) :=
  resolveSpecs fetch s .empty costDefinitionSpecs

def commissionShape (revenueBase : RevenueBase) (rate : ℚ) : CostShape :=
  ⟨.ownerCommission, .booking, .variable', .revenue, .pctAdjustedRevenue, .perBooking, some revenueBase, some rate⟩

/-- `concept = 'owner_commission' AND revenue_base = … AND rate = …`. -/
def isCommission (revenueBase : RevenueBase) (rate : ℚ) (row : CostDefinitionRow) : Bool :=
  row.concept == .ownerCommission && row.revenueBase == some revenueBase && row.rate == some rate

/-- The id, and whether the definition was inserted; the insertion is committed at once. -/
def resolveOwnerCommissionCostDefinitionId (s : Transaction) (revenueBase : RevenueBase) (rate : ℚ) :
    Option (Transaction × String × Bool) :=
  match fetch.one (s.catalogue.definitions.filter (isCommission revenueBase rate)) with
  | some row => some (s, row.costDefinitionId, false)
  | none => (defineWithRule s (commissionShape revenueBase rate) .direct none).map fun (s, id) => (s, id, true)

end

/-! ## Weights -/

/-- `{apartment_id: round(1.0 / len(apartments), 6)}`. -/
def equalWeights (apartments : List String) : Dict String ℚ :=
  apartments.foldl (fun d a => d.put a (pyRound (1 / apartments.length) 6)) .empty

def ensureWeightedAllocationConfig (c : Catalogue) (id : String) (apartments : List String) : Catalogue :=
  { c with
    rules := c.rules.map fun rule =>
      if rule.costDefinitionId = id ∧ rule.weightConfig = none then
        { rule with weightConfig := some (equalWeights apartments) }
      else rule }

/-! ## Backfills -/

/-- `INSERT INTO cost_definitions … SELECT`. -/
def defineAll (s : Transaction) : List CostShape → Option Transaction
  | [] => some s
  | shape :: shapes => do
    let (s, _) ← define s shape
    defineAll s shapes

/-- `INSERT INTO cost_allocation_rules … SELECT … WHERE NOT EXISTS`. -/
def insertMissingRules (c : Catalogue) (p : CostDefinitionRow → Bool) (method : CostDefinitionRow → AllocationMethod) :
    Catalogue :=
  { c with
    rules := c.rules ++
      ((c.definitions.filter fun row => p row && !(c.rules.map (·.costDefinitionId)).contains row.costDefinitionId).map
        fun row => ⟨row.costDefinitionId, method row, none⟩) }

end PriceEngine.MockPmApp
