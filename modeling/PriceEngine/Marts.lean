import PriceEngine.Ranking
import PriceEngine.Snapshots
import PriceEngine.Compaction

/-!
# The marts

dbt builds the marts from the rows of `price_decision_raw`, in whatever order a
scan returns them: every decision, the latest of each night and day, those above
the market, and the apartments. The dashboard's cold path reads the marts.
-/

namespace PriceEngine

namespace Marts

/-! ## Staging -/

/-- The columns of `stg_price_decision` that the marts and the dashboard read. -/
structure StagedDecision where
  decisionId : String
  apartmentId : String
  apartmentReference : String
  targetDate : Date
  decidedAt : Instant
  costBreakdown : List Value
  marketArea : String
  floorPolicy : String
  ruleApplied : String
  channelPriceMatrix : List Value
  suggestedPriceEur : ℚ
  effectiveMargin : ℚ
  ingestedAt : Instant

def text : Value → Option String
  | .str s => some s
  | _ => none

def day : Value → Option Date
  | .date d => some d
  | _ => none

def timestamp : Value → Option Instant
  | .datetime u => some u
  | _ => none

def double : Value → Option ℚ
  | .float x => some x
  | _ => none

def array : Value → Option (List Value)
  | .list items => some items
  | _ => none

/-- A column, or a field of one. -/
def column (row : Value) (name : String) : Option Value := (row.item name).toOption

def stgPriceDecision (row : Value) : Option StagedDecision := do
  let costInputs ← column row "cost_inputs"
  let marketInputs ← column row "market_inputs"
  let calculation ← column row "calculation"
  let output ← column row "output"
  some
    { decisionId := ← (column row "decision_id").bind text
      apartmentId := ← (column row "apartment_id").bind text
      apartmentReference := ← (column row "apartment_reference").bind text
      targetDate := ← (column row "target_date").bind day
      decidedAt := ← (column row "decided_at").bind timestamp
      costBreakdown := ← (column costInputs "cost_breakdown").bind array
      marketArea := ← (column marketInputs "market_area").bind text
      floorPolicy := ← (column calculation "floor_policy").bind text
      ruleApplied := ← (column calculation "rule_applied").bind text
      channelPriceMatrix := ← (column calculation "channel_price_matrix").bind array
      suggestedPriceEur := ← (column output "suggested_price_eur").bind double
      effectiveMargin := ← (column output "effective_margin").bind double
      ingestedAt := ← (column row "ingested_at").bind timestamp }

/-! ## The models -/

/-- The view as one scan has it; `fct_price_decision` keeps it as a table, the other models scan again. -/
def fctPriceDecision (order : ScanOrder) (raw : List Value) : Option (List StagedDecision) :=
  (order.arrange raw).mapM stgPriceDecision

def fctMarginAlert (decisions : List StagedDecision) : List StagedDecision :=
  decisions.filter fun d => d.ruleApplied = "minimum_profitable_price" || d.ruleApplied = "cost_protected"

/-- `cast(decided_at as date)`, in a time zone whose days follow one another. -/
structure CastDate where
  date : Instant → Date
  mono : ∀ u v, u ≤ v → date u ≤ date v

structure DailyPrice where
  apartmentId : String
  targetDate : Date
  snapshotDay : Date
  decisionId : String
  suggestedPriceEur : ℚ
  ruleApplied : String
  floorPolicy : String
  effectiveMargin : ℚ
  deriving DecidableEq

def intLatestDecisionPerNight (cast : CastDate) (decisions : List StagedDecision) : List StagedDecision :=
  greatestOfEach (fun d => (d.apartmentId, d.targetDate, cast.date d.decidedAt)) StagedDecision.decidedAt decisions

def dailyPrice (cast : CastDate) (d : StagedDecision) : DailyPrice where
  apartmentId := d.apartmentId
  targetDate := d.targetDate
  snapshotDay := cast.date d.decidedAt
  decisionId := d.decisionId
  suggestedPriceEur := d.suggestedPriceEur
  ruleApplied := d.ruleApplied
  floorPolicy := d.floorPolicy
  effectiveMargin := d.effectiveMargin

def fctDailyPrice (cast : CastDate) (decisions : List StagedDecision) : List DailyPrice :=
  (intLatestDecisionPerNight cast decisions).map (dailyPrice cast)

/-- `split_part(s, '/', n)`, empty where there is no such part. -/
def splitPart (s : String) (n : ℕ) : String := String.ofList ((s.toList.splitOn '/').getD (n - 1) [])

structure Apartment where
  apartmentId : String
  apartmentReference : String
  city : String
  neighborhood : Option String
  deriving DecidableEq

def apartmentOf (d : StagedDecision) : Apartment where
  apartmentId := d.apartmentId
  apartmentReference := d.apartmentReference
  city := splitPart d.marketArea 1
  neighborhood := if splitPart d.marketArea 2 = "" then none else some (splitPart d.marketArea 2)

def dimApartment (decisions : List StagedDecision) : List Apartment :=
  (greatestOfEach StagedDecision.apartmentId StagedDecision.decidedAt decisions).map apartmentOf

/-! ## The cold path -/

def listApartmentIds (apartments : List Apartment) : List String :=
  (apartments.map Apartment.apartmentId).mergeSort

def priceEvolution (prices : List DailyPrice) (apartmentId : String) : List DailyPrice :=
  (prices.filter fun p => p.apartmentId = apartmentId).mergeSort fun p q => p.targetDate ≤ q.targetDate

def marginAlerts (alerts : List StagedDecision) : List StagedDecision :=
  alerts.mergeSort fun d e => e.decidedAt ≤ d.decidedAt

/-- The columns of a frame's rows. -/
def frame (columns : List String) (items : List Value) : List (List (Option Value)) :=
  items.map fun item => columns.map (column item)

def channelColumns : List String :=
  ["platform", "avg_nightly_rate_eur", "commission_pct", "market_reference_price_eur", "minimum_price_eur",
    "rule_applied", "suggested_price_eur", "effective_margin"]

/-- No rows where no decision is found or it has no channels. -/
def channelPricing (decisions : List StagedDecision) (apartmentId : String) (targetDate : Date) :
    List (List (Option Value)) :=
  frame channelColumns
    (((decisions.filter fun d => d.apartmentId = apartmentId ∧ d.targetDate = targetDate).maxOn?
      StagedDecision.decidedAt).elim [] StagedDecision.channelPriceMatrix)

def costColumns : List String :=
  ["concept", "amount_eur", "scope", "behavior", "trigger", "calculation_base", "recurrence", "allocation_method"]

def costBreakdown (decisions : List StagedDecision) (apartmentId : String) : List (List (Option Value)) :=
  frame costColumns
    (((decisions.filter fun d => d.apartmentId = apartmentId).maxOn? StagedDecision.decidedAt).elim []
      StagedDecision.costBreakdown)

def freshness (decisions : List StagedDecision) : Option Instant := (decisions.map StagedDecision.ingestedAt).max?

end Marts

end PriceEngine
