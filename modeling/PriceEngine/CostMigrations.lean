import PriceEngine.CostCatalogue

/-!
# Owner contracts and payment lines before cost definitions

Old owner contracts carried a commission base and percentage, old payment lines
a concept and a cost type. Two migrations insert the definitions that are
missing for them, give each definition its allocation rule, and then replace
the old columns by the id of a definition that matches. A row that finds none
would break `SET NOT NULL`, and the whole migration would be rolled back.
-/

namespace PriceEngine.MockPmApp

/-! ## Owner contracts -/

/-- A contract with its own terms: a row of the old table, or one to be seeded. The percentage has four decimals. -/
structure OwnerContract where
  apartmentId : String
  ownerId : String
  commissionBase : RevenueBase
  commissionPct : ℚ
  commissionPct_scale : toNumeric 4 commissionPct = commissionPct
  commissionPct_mem : 0 ≤ commissionPct ∧ commissionPct ≤ 1
  deriving DecidableEq

inductive OwnerContracts
  | legacy (rows : List OwnerContract)
  | current (rows : List OwnerContractRow)
  deriving DecidableEq

/-! ## Payment lines -/

inductive CostType
  | fixed | variable' | oneTime
  deriving DecidableEq

structure LegacyCost where
  concept : Concept
  costType : CostType
  deriving DecidableEq

/-- `CASE WHEN cost_type = 'one_time' THEN 'variable' ELSE cost_type END`. -/
def LegacyCost.behavior (cost : LegacyCost) : Behavior :=
  match cost.costType with
  | .fixed => .fixed
  | .variable' | .oneTime => .variable'

/-- `CASE WHEN cost_type = 'one_time' THEN 'one_off' ELSE 'monthly' END`. -/
def LegacyCost.recurrence (cost : LegacyCost) : Recurrence :=
  match cost.costType with
  | .oneTime => .oneOff
  | .fixed | .variable' => .monthly

inductive PaymentMethod
  | bankTransfer | directDebit | card | cash
  deriving DecidableEq

inductive PaymentStatus
  | pending | paid | overdue | disputed
  deriving DecidableEq

inductive LineSource
  | bankStatement | manualEntry | synthetic
  deriving DecidableEq

/-- A row of `payment_lines`; `cost` is what it says about its cost, the id of a definition or the old columns. -/
structure LineRow (κ : Type) where
  eventId : String
  apartmentId : String
  apartmentReference : String
  cost : κ
  billingPeriodStart : ℤ
  billingPeriodEnd : ℤ
  amountGross : ℚ
  vatRate : ℚ
  dueDate : Option ℤ
  paymentDate : Option ℤ
  paymentMethod : Option PaymentMethod
  paymentStatus : PaymentStatus
  source : LineSource
  createdAt : ℤ
  updatedAt : Option ℤ
  deriving DecidableEq

/-- An UPDATE of the cost; the trigger sets `updated_at`. -/
def LineRow.withCost {κ : Type} (row : LineRow κ) (costDefinitionId : String) (now : ℤ) : LineRow String :=
  { eventId := row.eventId
    apartmentId := row.apartmentId
    apartmentReference := row.apartmentReference
    cost := costDefinitionId
    billingPeriodStart := row.billingPeriodStart
    billingPeriodEnd := row.billingPeriodEnd
    amountGross := row.amountGross
    vatRate := row.vatRate
    dueDate := row.dueDate
    paymentDate := row.paymentDate
    paymentMethod := row.paymentMethod
    paymentStatus := row.paymentStatus
    source := row.source
    createdAt := row.createdAt
    updatedAt := some now }

inductive PaymentLines
  | legacy (rows : List (LineRow LegacyCost))
  | current (rows : List (LineRow String))
  deriving DecidableEq

/-! ## The migrations -/

section

variable (fetch : Fetch CostDefinitionRow)

/-- `UPDATE … SET cost_definition_id`, and `SET NOT NULL` on the column. -/
def assignAll {α β : Type} (definitions : List CostDefinitionRow) (matching : α → CostDefinitionRow → Bool)
    (assign : α → String → β) (rows : List α) : Option (List β) :=
  rows.mapM fun row => (fetch.one (definitions.filter (matching row))).map fun d => assign row d.costDefinitionId

/-- Definitions are inserted for the rows that match none, each distinct one once; every definition of the kind gets
its rule; then the rows are assigned. -/
def backfill {α β : Type} (matching : α → CostDefinitionRow → Bool) (shape : α → CostShape)
    (kind : CostDefinitionRow → Bool) (method : CostDefinitionRow → AllocationMethod) (assign : α → String → β)
    (t : Transaction) (rows : List α) : Option (Transaction × List β) := do
  let missing := rows.filter fun row => !t.catalogue.definitions.any (matching row)
  let t ← defineAll t (missing.map shape).dedup
  let c := insertMissingRules t.catalogue kind method
  let assigned ← assignAll fetch c.definitions matching assign rows
  some ({ t with catalogue := c }, assigned)

def migrateOwnerContractsToCostDefinitions (t : Transaction) (contracts : List OwnerContract) :
    Option (Transaction × List OwnerContractRow) :=
  backfill fetch (fun o => isCommission o.commissionBase o.commissionPct)
    (fun o => commissionShape o.commissionBase o.commissionPct) (·.concept == .ownerCommission) (fun _ => .direct)
    (fun o id => ⟨o.apartmentId, o.ownerId, id⟩) t contracts

/-- The definition has the concept of the old columns, and the behavior and recurrence that the cost type stands for. -/
def classifies (cost : LegacyCost) (row : CostDefinitionRow) : Bool :=
  row.concept == cost.concept && row.behavior == cost.behavior && row.recurrence == cost.recurrence

def legacyShape (cost : LegacyCost) : CostShape :=
  ⟨cost.concept, if cost.concept = .otaFee ∨ cost.concept = .channelManager then .booking else .property,
    cost.behavior, .time, .fixedAmount, cost.recurrence, none, none⟩

def migratePaymentLinesToCostDefinitions (now : ℤ) (t : Transaction) (lines : List (LineRow LegacyCost)) :
    Option (Transaction × List (LineRow String)) :=
  backfill fetch (fun l => classifies l.cost) (fun l => legacyShape l.cost) (fun _ => true)
    (fun row => if row.recurrence = .oneOff then .direct else .calendarDay) (fun l id => l.withCost id now) t lines

end

end PriceEngine.MockPmApp
