import PriceEngine.EngineSound
import PriceEngine.DecisionSound
import PriceEngine.LakehouseSound
import PriceEngine.StageBSound

/-!
# The status the dashboard shows

The dashboard reads a decision off the table and derives a status of its own
from the published amounts: the price against the cost, against the cost with
the margin on top, and against the reference of the property. The engine
compares a netted floor, divided by what the rates leave, before any rounding.
-/

namespace PriceEngine

/-! ## The current-price table -/

inductive PriceStatus
  | priceBelowCost | priceBelowProfit | priceAboveMarket | marketCompetitive
  deriving DecidableEq

def PriceStatus.text : PriceStatus → String
  | .priceBelowCost => "Price Below Cost"
  | .priceBelowProfit => "Price Below Profit"
  | .priceAboveMarket => "Price Above Market"
  | .marketCompetitive => "Market Competitive"

/-- The text of a row tells its status. -/
theorem PriceStatus.text_injective : Function.Injective PriceStatus.text := by
  intro status status' h
  cases status <;> cases status' <;> first | rfl | exact absurd h (by decide)

def priceStatus (suggestedPriceEur totalCostEur targetMargin propertyReferencePriceEur : ℚ) : PriceStatus :=
  let profitFloorEur := totalCostEur * (1 + targetMargin)
  if suggestedPriceEur < totalCostEur then .priceBelowCost
  else if suggestedPriceEur < profitFloorEur then .priceBelowProfit
  else if suggestedPriceEur > propertyReferencePriceEur then .priceAboveMarket
  else .marketCompetitive

structure DisplayRow where
  apartmentId : String
  targetDate : Value
  totalCostEur : ℚ
  avgMarketPriceEur : ℚ
  propertyReferencePriceEur : ℚ
  propertyAttributeFactor : ℚ
  suggestedPriceEur : ℚ
  effectiveMargin : ℚ
  status : PriceStatus
  minStayReco : Option ℤ
  costPerReservationEur : Option ℚ
  suggestedPricePerReservationEur : Option ℚ

section
variable (t : NumberText)

/-- `float(v)`, as the number it is. -/
def floatOf (v : Value) : Except PyError ℚ := do
  match ← Lakehouse.toFloat t v with
  | .float x => .ok x
  | _ => .error .typeError

/-- `None if v is None else f(v)`. -/
def unlessNone {α : Type*} (f : Value → Except PyError α) (v : Value) : Except PyError (Option α) :=
  if v.isNull then .ok none else (f v).map some

def intOf (v : Value) : Except PyError ℤ := do
  match ← Lakehouse.toInt t v with
  | .int n => .ok n
  | _ => .error .typeError

/-- `float(d[key])`. -/
def floatAt (d : Value) (key : String) : Except PyError ℚ := do floatOf t (← d.item key)

def totalCost (costInputs : Value) : Except PyError ℚ := do
  let perNight ← costInputs.item "fixed_and_allocated_costs_eur"
  let perBooking ← costInputs.item "per_booking_cost_eur"
  floatOf t (← perNight.add perBooking)

def toDisplayRow (apartmentId : String) (item : Value) : Except PyError DisplayRow := do
  let costInputs ← item.item "cost_inputs"
  let totalCostEur ← totalCost t costInputs
  let avgMarketPriceEur ← floatAt t (← item.item "market_inputs") "avg_nightly_rate_eur"
  let suggestedPriceEur ← floatAt t (← item.item "output") "suggested_price_eur"
  let targetMargin ← floatAt t (← item.item "calculation") "target_margin"
  let propertyReferencePriceEur ← floatAt t (← item.item "calculation") "property_reference_price_eur"
  let propertyAttributeFactor ← floatAt t (← item.item "calculation") "property_attribute_factor"
  let recommendation ← (← item.item "calculation").get "minimum_stay_recommendation" (.dict [])
  let recommendedMinStay ← recommendation.get "recommended_min_stay"
  let costPerReservationEur ← recommendation.get "cost_per_reservation_eur"
  let suggestedPricePerReservationEur ← recommendation.get "suggested_price_per_reservation_eur"
  .ok
    { apartmentId := apartmentId
      targetDate := ← item.item "target_date"
      totalCostEur := totalCostEur
      avgMarketPriceEur := avgMarketPriceEur
      propertyReferencePriceEur := propertyReferencePriceEur
      propertyAttributeFactor := propertyAttributeFactor
      suggestedPriceEur := suggestedPriceEur
      effectiveMargin := ← floatAt t (← item.item "output") "effective_margin"
      status := priceStatus suggestedPriceEur totalCostEur targetMargin propertyReferencePriceEur
      minStayReco := ← unlessNone (intOf t) recommendedMinStay
      costPerReservationEur := ← unlessNone (floatOf t) costPerReservationEur
      suggestedPricePerReservationEur := ← unlessNone (floatOf t) suggestedPricePerReservationEur }

end

/-! ## The row of a decision -/

/-- What the row of a decision should say. -/
def PriceDecisionRecord.displayRow (r : PriceDecisionRecord) (apartmentId : String) : DisplayRow :=
  { apartmentId := apartmentId
    targetDate := .str (isoformat r.targetDate)
    totalCostEur := r.costInputs.fixedAndAllocatedCostsEur + r.costInputs.perBookingCostEur
    avgMarketPriceEur := r.marketInputs.avgNightlyRateEur
    propertyReferencePriceEur := r.calculation.propertyReferencePriceEur
    propertyAttributeFactor := r.calculation.propertyAttributeFactor
    suggestedPriceEur := r.output.suggestedPriceEur
    effectiveMargin := r.output.effectiveMargin
    status := priceStatus r.output.suggestedPriceEur
      (r.costInputs.fixedAndAllocatedCostsEur + r.costInputs.perBookingCostEur) r.calculation.targetMargin
      r.calculation.propertyReferencePriceEur
    minStayReco := r.calculation.minimumStayRecommendation.recommendedMinStay.map fun n : ℕ+ => (n : ℤ)
    costPerReservationEur := r.calculation.minimumStayRecommendation.costPerReservationEur
    suggestedPricePerReservationEur := r.calculation.minimumStayRecommendation.suggestedPricePerReservationEur }

/-- The decimals of two numbers add up to the decimal of their sum. -/
def NumberText.AddsUp (t : NumberText) (x y : ℚ) : Prop := t.float (t.readFloat x + t.readFloat y) = x + y

section
variable {t : NumberText}

theorem floatOf_received {x : ℚ} (h : t.Survives (.float x)) : floatOf t ((Value.float x).received t) = .ok x :=
  congrArg Except.ok (h _ (List.mem_singleton_self _)).2

theorem unlessNone_floatOf {o : Option ℚ} (h : t.Survives (.ofOption .float o)) :
    unlessNone (floatOf t) ((Value.ofOption .float o).received t) = .ok o := by
  cases o with
  | none => rfl
  | some x => exact congrArg (Except.map some) (floatOf_received h)

theorem unlessNone_intOf (o : Option ℕ+) :
    unlessNone (intOf t) ((Value.ofOption (fun n : ℕ+ => .int n) o).received t) =
      .ok (o.map fun n : ℕ+ => (n : ℤ)) := by
  cases o with
  | none => rfl
  | some n =>
    have htruncate : Lakehouse.truncate ((n : ℤ) : ℚ) = n := by simp [Lakehouse.truncate]
    exact congrArg (fun k => Except.ok (some k)) htruncate

theorem get_received {entries : List (String × Value)} {key : String} {v : Value} (h : entries.lookup key = some v)
    (default : Value) : ((Value.dict entries).received t).get key default = .ok (v.received t) := by
  have hitem := item_received (t := t) h
  rw [Value.received, Value.item] at hitem
  rw [Value.received, Value.get]
  split at hitem
  · rename_i w hw
    rw [hw, Option.getD_some, hitem]
  · cases hitem

theorem survives_lookup {entries : List (String × Value)} {v : Value} (h : t.Survives (.dict entries)) (key : String)
    (hkey : entries.lookup key = some v) : t.Survives v := by
  obtain ⟨front, back, hsplit, -⟩ := List.lookup_eq_some_iff.mp hkey
  exact survives_dict.mp h (key, v) (by simp [hsplit])

theorem floatAt_received {entries : List (String × Value)} {key : String} {x : ℚ} (h : t.Survives (.dict entries))
    (hkey : entries.lookup key = some (.float x)) : floatAt t ((Value.dict entries).received t) key = .ok x := by
  rw [floatAt, item_received hkey]
  exact floatOf_received (survives_lookup h _ hkey)

theorem totalCost_received {c : CostInputs} (hsum : t.AddsUp c.fixedAndAllocatedCostsEur c.perBookingCostEur) :
    totalCost t (c.modelDump.received t) = .ok (c.fixedAndAllocatedCostsEur + c.perBookingCostEur) := by
  have hperNight : (c.modelDump.received t).item "fixed_and_allocated_costs_eur" =
      .ok ((Value.float c.fixedAndAllocatedCostsEur).received t) := item_received rfl
  have hperBooking : (c.modelDump.received t).item "per_booking_cost_eur" =
      .ok ((Value.float c.perBookingCostEur).received t) := item_received rfl
  rw [totalCost, hperNight, hperBooking]
  exact congrArg Except.ok hsum

theorem toDisplayRow_received {clock : Instant → ℤ} {r : PriceDecisionRecord} (h : t.Survives (r.modelDump clock))
    (hsum : t.AddsUp r.costInputs.fixedAndAllocatedCostsEur r.costInputs.perBookingCostEur) (apartmentId : String) :
    toDisplayRow t apartmentId ((r.modelDump clock).received t) = .ok (r.displayRow apartmentId) := by
  let stay := r.calculation.minimumStayRecommendation
  have hfield {v : Value} (key : String) (hv : (r.fields clock).lookup key = some v) :
      ((r.modelDump clock).received t).item key = .ok (v.received t) := item_received hv
  have hmarketFields : t.Survives (r.marketInputs.modelDump clock) := survives_lookup h "market_inputs" rfl
  have hcalculationFields : t.Survives (r.calculation.modelDump clock) := survives_lookup h "calculation" rfl
  have houtputFields : t.Survives r.output.modelDump := survives_lookup h "output" rfl
  have hstayFields : t.Survives stay.modelDump :=
    survives_lookup hcalculationFields "minimum_stay_recommendation" rfl
  have hrate : floatAt t ((r.marketInputs.modelDump clock).received t) "avg_nightly_rate_eur" =
      .ok r.marketInputs.avgNightlyRateEur := floatAt_received hmarketFields rfl
  have hprice : floatAt t (r.output.modelDump.received t) "suggested_price_eur" = .ok r.output.suggestedPriceEur :=
    floatAt_received houtputFields rfl
  have heffective : floatAt t (r.output.modelDump.received t) "effective_margin" = .ok r.output.effectiveMargin :=
    floatAt_received houtputFields rfl
  have hmargin : floatAt t ((r.calculation.modelDump clock).received t) "target_margin" =
      .ok r.calculation.targetMargin := floatAt_received hcalculationFields rfl
  have hproperty : floatAt t ((r.calculation.modelDump clock).received t) "property_reference_price_eur" =
      .ok r.calculation.propertyReferencePriceEur := floatAt_received hcalculationFields rfl
  have hfactor : floatAt t ((r.calculation.modelDump clock).received t) "property_attribute_factor" =
      .ok r.calculation.propertyAttributeFactor := floatAt_received hcalculationFields rfl
  have hstay : ((r.calculation.modelDump clock).received t).get "minimum_stay_recommendation" (.dict []) =
      .ok (stay.modelDump.received t) := get_received rfl _
  have hnights : (stay.modelDump.received t).get "recommended_min_stay" =
      .ok ((Value.ofOption (fun n : ℕ+ => .int n) stay.recommendedMinStay).received t) := get_received rfl _
  have hcost : (stay.modelDump.received t).get "cost_per_reservation_eur" =
      .ok ((Value.ofOption .float stay.costPerReservationEur).received t) := get_received rfl _
  have htotal : (stay.modelDump.received t).get "suggested_price_per_reservation_eur" =
      .ok ((Value.ofOption .float stay.suggestedPricePerReservationEur).received t) := get_received rfl _
  have hcostRead : unlessNone (floatOf t) ((Value.ofOption .float stay.costPerReservationEur).received t) =
      .ok stay.costPerReservationEur :=
    unlessNone_floatOf (survives_lookup hstayFields "cost_per_reservation_eur" rfl)
  have htotalRead : unlessNone (floatOf t)
      ((Value.ofOption .float stay.suggestedPricePerReservationEur).received t) =
      .ok stay.suggestedPricePerReservationEur :=
    unlessNone_floatOf (survives_lookup hstayFields "suggested_price_per_reservation_eur" rfl)
  simp only [toDisplayRow, hfield "cost_inputs" rfl, hfield "market_inputs" rfl, hfield "calculation" rfl,
    hfield "output" rfl, hfield "target_date" rfl, ok_bind, totalCost_received hsum, hrate, hprice, heffective, hmargin,
    hproperty, hfactor, hstay, hnights, hcost, htotal, unlessNone_intOf, hcostRead, htotalRead]
  rfl

end

/-! ## The floor and the profit floor -/

def PriceArgs.totalCost (a : PriceArgs) : ℚ := a.fixedAndAllocatedCostsPerNightEur + a.perBookingCostEur

/-- One night, costs in whole cents, rates and a margin that leave a part of the price, and a netting within the
part of the costs that the rates take. -/
structure CostsCovered (a : PriceArgs) : Prop where
  oneNight : a.stayLength = 1
  cents : pyRound a.totalCost 2 = a.totalCost
  cost : 0 < a.totalCost
  p : 0 ≤ a.p
  targetMargin : 0 ≤ a.targetMargin
  rates : a.p + a.targetMargin < 1
  netting : 0 ≤ a.nettingEur
  netting_le : a.nettingEur ≤ a.p * a.totalCost

section
variable {a : PriceArgs} (h : CostsCovered a)
include h

theorem CostsCovered.profit_le_floor : a.totalCost * (1 + a.targetMargin) ≤ (priceTerms a).profitableFloorEur := by
  have hpos : 0 < denominator a := by
    have hrates := h.rates
    unfold denominator
    linarith
  have hrecover : toRecover a = a.totalCost - a.nettingEur := by
    rw [toRecover, h.oneNight, PNat.one_coe, Nat.cast_one, div_one, PriceArgs.totalCost]
  have hmargin : (1 + a.targetMargin) * denominator a ≤ 1 - a.p := by
    have hp := mul_nonneg h.p h.targetMargin
    have hm := mul_self_nonneg a.targetMargin
    unfold denominator
    linarith
  rw [priceTerms_floor, le_div_iff₀ hpos, hrecover]
  calc a.totalCost * (1 + a.targetMargin) * denominator a
    _ = a.totalCost * ((1 + a.targetMargin) * denominator a) := by ring
    _ ≤ a.totalCost * (1 - a.p) := mul_le_mul_of_nonneg_left hmargin h.cost.le
    _ ≤ a.totalCost - a.nettingEur := by linarith [h.netting_le]

theorem CostsCovered.profit_le_suggested :
    a.totalCost * (1 + a.targetMargin) ≤ (priceTerms a).guardrails.suggestedPriceEur := by
  rw [priceTerms_suggested]
  exact h.profit_le_floor.trans (le_max_left _ _)

theorem CostsCovered.cost_le_price : a.totalCost ≤ (decidePrice a).suggestedPriceEur := by
  have hcost : a.totalCost ≤ (priceTerms a).guardrails.suggestedPriceEur :=
    (le_mul_of_one_le_right h.cost.le (by linarith [h.targetMargin])).trans h.profit_le_suggested
  calc a.totalCost
    _ = pyRound a.totalCost 2 := h.cents.symm
    _ ≤ (decidePrice a).suggestedPriceEur := pyRound_mono hcost 2

theorem CostsCovered.profit_le_price :
    a.totalCost * (1 + a.targetMargin) ≤ (decidePrice a).suggestedPriceEur + 1 / 200 := by
  have hcent := (abs_le.mp (decidePrice_published a).suggested).1
  linarith [h.profit_le_suggested]

end

theorem decidePrice_rule (a : PriceArgs) : ruleCondition (priceTerms a).profitableFloorEur
    (priceTerms a).marketReferencePriceEur (priceTerms a).propertyReferencePriceEur (decidePrice a).ruleApplied :=
  ruleCondition_applyGuardrails _ _ _

theorem MarketSide.market_le_property {a : PriceArgs} (h : MarketSide a) :
    (priceTerms a).marketReferencePriceEur ≤ (priceTerms a).propertyReferencePriceEur :=
  mul_le_of_le_one_right h.property_nonneg (by linarith [h.discount])

theorem rule_of_above {a : PriceArgs} (h : MarketSide a)
    (habove : (decidePrice a).propertyReferencePriceEur < (decidePrice a).suggestedPriceEur) :
    (decidePrice a).ruleApplied = .minimumProfitablePrice := by
  refine ruleCondition_unique _ h.market_le_property (decidePrice_rule a) ?_
  by_contra hfloor
  have hprice : (priceTerms a).guardrails.suggestedPriceEur ≤ (priceTerms a).propertyReferencePriceEur := by
    rw [priceTerms_suggested]
    exact max_le (not_lt.mp hfloor) h.market_le_property
  exact absurd (pyRound_mono hprice 2) (not_le.mpr habove)

theorem price_of_rule {a : PriceArgs} (h : MarketSide a)
    (hrule : (decidePrice a).ruleApplied = .minimumProfitablePrice) :
    (decidePrice a).suggestedPriceEur = (decidePrice a).minimumPriceEur := by
  have hfloor := decidePrice_rule a
  rw [hrule] at hfloor
  have hsuggested : (priceTerms a).guardrails.suggestedPriceEur = (priceTerms a).profitableFloorEur := by
    rw [priceTerms_suggested]
    exact max_eq_left (h.market_le_property.trans hfloor.le)
  exact congrArg (pyRound · 2) hsuggested

/-! ## Agreement -/

/-- The status of the dashboard is one that the engine's decision allows. -/
structure StatusAgrees (r : PriceDecisionRecord) (status : PriceStatus) : Prop where
  covered : status ≠ .priceBelowCost
  belowProfit : status = .priceBelowProfit →
    (r.costInputs.fixedAndAllocatedCostsEur + r.costInputs.perBookingCostEur) * (1 + r.calculation.targetMargin) ≤
      r.output.suggestedPriceEur + 1 / 200
  aboveMarket : status = .priceAboveMarket → r.calculation.ruleApplied = .minimumProfitablePrice
  floorAbove : r.calculation.ruleApplied = .minimumProfitablePrice →
    r.calculation.propertyReferencePriceEur < r.calculation.minimumPriceEur →
      status = .priceAboveMarket ∨ status = .priceBelowProfit

theorem priceStatus_agrees {a : PriceArgs} (h : CostsCovered a) (hmarket : MarketSide a) {r : PriceDecisionRecord}
    (hcosts : r.costInputs.fixedAndAllocatedCostsEur + r.costInputs.perBookingCostEur = a.totalCost)
    (hmargin : r.calculation.targetMargin = a.targetMargin)
    (hprice : r.output.suggestedPriceEur = (decidePrice a).suggestedPriceEur)
    (hproperty : r.calculation.propertyReferencePriceEur = (decidePrice a).propertyReferencePriceEur)
    (hminimum : r.calculation.minimumPriceEur = (decidePrice a).minimumPriceEur)
    (hrule : r.calculation.ruleApplied = (decidePrice a).ruleApplied) (apartmentId : String) :
    StatusAgrees r (r.displayRow apartmentId).status := by
  have hcovered := not_lt.mpr h.cost_le_price
  change StatusAgrees r (priceStatus _ _ _ _)
  rw [hprice, hcosts, hmargin, hproperty, priceStatus, if_neg hcovered]
  constructor
  · split_ifs <;> decide
  · intro _
    rw [hcosts, hmargin, hprice]
    exact h.profit_le_price
  · intro hstatus
    rw [hrule]
    refine rule_of_above hmarket ?_
    split_ifs at hstatus with _ habove
    exact habove
  · rw [hrule, hproperty, hminimum]
    intro hprofitable habove
    rw [← price_of_rule hmarket hprofitable] at habove
    split_ifs
    · exact .inr rfl
    · exact .inl rfl

def flatNight : NightSnapshot := { blended := some (snapshotOf (flatMarket none 0 0)) }

def survivesBuilt (cost : CostAggregate) : Bool :=
  match buildPriceDecision "1" 0 cost flatNight 719200 none with
  | .ok (d, _) => (d.modelDump fun _ => 0).leaves.all fun v => ordinaryNumbers.ReadsBack v
  | .error _ => false

end PriceEngine
