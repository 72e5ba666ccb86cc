import PriceEngine.DynamoDb
import PriceEngine.IsoText

/-!
# Rows of the lakehouse

`rowFromNewImage` turns the image of a decision into a row: texts back into
dates, decimals back into numbers. Records older than a field lack it; each has
the fallback of its phase.
-/

namespace PriceEngine

namespace Lakehouse

variable (t : NumberText)

/-! ## Coercions -/

/-- `float(v)`. -/
def toFloat : Value → Except PyError Value
  | .bool b => .ok (.float (if b then 1 else 0))
  | .int n => .ok (.float n)
  | .float x => .ok (.float x)
  | .decimal x => .ok (.float (t.float x))
  | .str s =>
    match t.floatOfText s with
    | some x => .ok (.float x)
    | none => .error .valueError
  | _ => .error .typeError

def truncate (x : ℚ) : ℤ := x.num.tdiv x.den

/-- `int(v)`. -/
def toInt : Value → Except PyError Value
  | .bool b => .ok (.int (if b then 1 else 0))
  | .int n => .ok (.int n)
  | .float x | .decimal x => .ok (.int (truncate x))
  | .str s =>
    match t.intOfText s with
    | some n => .ok (.int n)
    | none => .error .valueError
  | _ => .error .typeError

/-- `str(v)`. -/
def toStr : Value → Value
  | .str s => .str s
  | v => .str (t.strOther v)

def num (v : Value) : Except PyError Value := if v.isNull then .ok .null else toFloat t v

def int (v : Value) : Except PyError Value := if v.isNull then .ok .null else toInt t v

def date : Value → Except PyError Value
  | .null => .ok .null
  | .str s => (dateFromisoformat s).map .date
  | _ => .error .typeError

def ts : Value → Except PyError Value
  | .null => .ok .null
  | .str s => (datetimeFromisoformat s).map .datetime
  | _ => .error .typeError

/-- `[row(x) for x in v]`. -/
def listOf (row : Value → Except PyError Value) (v : Value) : Except PyError Value := do
  .ok (.list (← (← v.elements).mapM row))

def floorPolicyFor : Value → Value
  | .str "contribution" => .str "hard"
  | _ => .str "soft"

/-! ## Nested records -/

def decisionComponents (components : Value) : Except PyError Value :=
  listOf (fun component => Value.entries
    [("code", component.item "code"),
     ("label", component.item "label"),
     ("impact", do num t (← component.item "impact"))]) components

def manualOverride (calculation : Value) : Except PyError Value := do
  let manualOverride ← calculation.get "manual_override"
  if manualOverride.isNull then .ok .null
  else
    Value.entries
      [("override_price_eur", do num t (← manualOverride.item "override_price_eur")),
       ("reason", manualOverride.item "reason"),
       ("authorized_by", manualOverride.item "authorized_by"),
       ("valid_until", do ts (← manualOverride.item "valid_until")),
       ("expected_loss_eur", do num t (← manualOverride.item "expected_loss_eur"))]

def minimumStayRecommendation (calculation : Value) : Except PyError Value := do
  let recommendation ← (← calculation.get "minimum_stay_recommendation").orElse fun _ => .ok (.dict [])
  Value.entries
    [("recommended_min_stay", do int t (← recommendation.get "recommended_min_stay")),
     ("floor_relief_eur", do num t (← recommendation.get "floor_relief_eur")),
     ("cost_per_reservation_eur", do num t (← recommendation.get "cost_per_reservation_eur")),
     ("suggested_price_per_reservation_eur", do
       num t (← recommendation.get "suggested_price_per_reservation_eur"))]

def channelPriceMatrix (calculation : Value) : Except PyError Value := do
  listOf (fun candidate => Value.entries
    [("platform", candidate.item "platform"),
     ("avg_nightly_rate_eur", do num t (← candidate.item "avg_nightly_rate_eur")),
     ("commission_pct", do num t (← candidate.item "commission_pct")),
     ("market_reference_price_eur", do num t (← candidate.item "market_reference_price_eur")),
     ("minimum_price_eur", do num t (← candidate.item "minimum_price_eur")),
     ("floor_type", candidate.get "floor_type"),
     ("floor_policy", candidate.item "floor_policy"),
     ("rule_applied", candidate.item "rule_applied"),
     ("suggested_price_eur", do num t (← candidate.item "suggested_price_eur")),
     ("effective_margin", do num t (← candidate.item "effective_margin")),
     ("decision_components", do decisionComponents t (← candidate.get "decision_components" (.list [])))])
    (← calculation.get "channel_price_matrix" (.list []))

def costBreakdown (costInputs : Value) : Except PyError Value := do
  listOf (fun entry => Value.entries
    [("concept", entry.item "concept"),
     ("amount_eur", do num t (← entry.item "amount_eur")),
     ("scope", entry.get "scope"),
     ("behavior", entry.get "behavior"),
     ("trigger", entry.get "trigger"),
     ("calculation_base", entry.get "calculation_base"),
     ("recurrence", entry.get "recurrence"),
     ("allocation_method", entry.get "allocation_method")])
    (← costInputs.get "cost_breakdown" (.list []))

/-! ## Parts of the row -/

/-- The policy as recorded, else from the floor's type as it once was, else from the margin. -/
def floorPolicy (record calculation : Value) : Except PyError Value := do
  (← record.get "floor_policy").orElse fun _ => do
    if (← record.get "floor_type").truth then .ok (floorPolicyFor (← record.item "floor_type"))
    else if (← calculation.item "target_margin").isZero then .ok (.str "hard")
    else .ok (.str "soft")

def costInputs (billingPeriod costInputs : Value) : Except PyError Value :=
  Value.entries
    [("billing_period", Value.entries
       [("start", do date (← billingPeriod.item "start")),
        ("end", do date (← billingPeriod.item "end"))]),
     ("total_monthly_cost_eur", do num t (← costInputs.item "total_monthly_cost_eur")),
     ("available_days", do int t (← costInputs.item "available_days")),
     ("fixed_cost_eur", do num t (← costInputs.item "fixed_cost_eur")),
     ("variable_cost_eur", do num t (← costInputs.item "variable_cost_eur")),
     ("per_booking_cost_eur", do
       let older ← costInputs.get "one_time_cost_eur"
       num t (← costInputs.get "per_booking_cost_eur" older)),
     ("cost_lines_count", do int t (← costInputs.get "cost_lines_count")),
     ("cost_breakdown", costBreakdown t costInputs),
     ("fixed_and_allocated_costs_eur", do
       let older ← (← costInputs.item "fixed_cost_eur").add (← costInputs.item "variable_cost_eur")
       num t (← costInputs.get "fixed_and_allocated_costs_eur" older)),
     ("p", do num t (← costInputs.get "p" (.float 0)))]

def marketInputs (marketInputs : Value) : Except PyError Value :=
  Value.entries
    [("market_area", marketInputs.item "market_area"),
     ("avg_nightly_rate_eur", do num t (← marketInputs.item "avg_nightly_rate_eur")),
     ("occupancy_rate", do num t (← marketInputs.get "occupancy_rate")),
     ("sample_size", do int t (← marketInputs.get "sample_size")),
     ("collected_at", do ts (← marketInputs.item "collected_at")),
     ("data_age_seconds", do int t (← marketInputs.item "data_age_seconds"))]

def losFloorCandidate (calculation candidate : Value) : Except PyError Value :=
  Value.entries
    [("stay_length", do int t (← candidate.item "stay_length")),
     ("minimum_price_eur", do num t (← candidate.item "minimum_price_eur")),
     ("floor_type", candidate.get "floor_type"),
     ("floor_policy", floorPolicy candidate calculation),
     ("rule_applied", candidate.item "rule_applied"),
     ("suggested_price_eur", do num t (← candidate.item "suggested_price_eur")),
     ("effective_margin", do num t (← candidate.item "effective_margin")),
     ("decision_components", do decisionComponents t (← candidate.get "decision_components" (.list [])))]

/-- `_int(d[key]) if d.get(key) is not None else None`. -/
def intOrNone (d : Value) (key : String) : Except PyError Value := do
  if (← d.get key).isNull then .ok .null else int t (← d.item key)

def calculation (marketInputs calculation : Value) : Except PyError Value :=
  Value.entries
    [("target_margin", do num t (← calculation.item "target_margin")),
     ("minimum_price_eur", do num t (← calculation.item "minimum_price_eur")),
     ("floor_type", calculation.get "floor_type"),
     ("floor_policy", floorPolicy calculation calculation),
     ("commission_pct", do num t (← calculation.item "commission_pct")),
     ("days_to_arrival", do int t (← calculation.item "days_to_arrival")),
     ("competitiveness_discount", do num t (← calculation.item "competitiveness_discount")),
     ("property_attribute_factor", do num t (← calculation.get "property_attribute_factor" (.float 1))),
     ("property_reference_price_eur", do
       let older ← marketInputs.item "avg_nightly_rate_eur"
       num t (← calculation.get "property_reference_price_eur" older)),
     ("market_reference_price_eur", do num t (← calculation.item "market_reference_price_eur")),
     ("rule_applied", calculation.item "rule_applied"),
     ("los_floor_matrix", do
       listOf (losFloorCandidate t calculation) (← calculation.get "los_floor_matrix" (.list []))),
     ("decision_components", do decisionComponents t (← calculation.get "decision_components" (.list []))),
     ("commission_base", calculation.get "commission_base" (.str "total_revenue")),
     ("manual_override", manualOverride t calculation),
     ("minimum_stay_recommendation", minimumStayRecommendation t calculation),
     ("channel_price_matrix", channelPriceMatrix t calculation),
     ("break_even_revenue_eur", do
       let older ← calculation.item "minimum_price_eur"
       num t (← calculation.get "break_even_revenue_eur" older)),
     ("profitable_floor_eur", do
       let older ← calculation.item "minimum_price_eur"
       num t (← calculation.get "profitable_floor_eur" older)),
     ("viability_status", calculation.get "viability_status"),
     ("floor_breach_days", intOrNone t calculation "floor_breach_days"),
     ("pricing_strategy_version", intOrNone t calculation "pricing_strategy_version")]

def output (output : Value) : Except PyError Value :=
  Value.entries
    [("suggested_price_eur", do num t (← output.item "suggested_price_eur")),
     ("currency", output.item "currency"),
     ("effective_margin", do num t (← output.item "effective_margin")),
     ("below_market_by", do num t (← output.item "below_market_by"))]

end Lakehouse

/-! ## The row -/

open Lakehouse in
def rowFromNewImage (t : NumberText) (newImage : Value) (eventName : String) (ingestedAt : Instant) :
    Except PyError Value := do
  let cost ← newImage.item "cost_inputs"
  let market ← newImage.item "market_inputs"
  let formula ← newImage.item "calculation"
  let result ← newImage.item "output"
  let billingPeriod ← cost.item "billing_period"
  Value.entries
    [("decision_id", do .ok (toStr t (← newImage.item "decision_id"))),
     ("apartment_id", newImage.item "apartment_id"),
     ("apartment_reference", newImage.get "apartment_reference"),
     ("target_date", do date (← newImage.get "target_date")),
     ("decided_at", do ts (← newImage.item "decided_at")),
     ("cost_inputs", costInputs t billingPeriod cost),
     ("market_inputs", marketInputs t market),
     ("calculation", calculation t market formula),
     ("output", output t result),
     ("dynamodb_event_name", .ok (.str eventName)),
     ("ingested_at", .ok (.datetime ingestedAt))]

end PriceEngine
