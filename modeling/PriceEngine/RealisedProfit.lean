import Mathlib.Tactic.FieldSimp
import Mathlib.Tactic.LinearCombination
import PriceEngine.BookingsCreated
import PriceEngine.DecisionDump
import PriceEngine.DynamoDb
import PriceEngine.ManualOverrides
import PriceEngine.Reproducibility

/-!
# The profit of a booking

The pulse job reads three numbers of the stored decision and prices a booking
with them again: what the percentage costs leave of the revenue, less the
costs of its nights and the costs of a booking. This is the engine's own
break-even, less the netting for each night (`resolveProfit_eq`), and the
item holds the three numbers as the sink wrote them (`readCostInputs_item`).
-/

namespace PriceEngine

/-! ## Items -/

variable {t : NumberText}

theorem pythonToDynamodb_dict {entries : List (String × Value)} {a : AttributeValue} :
    pythonToDynamodb t (.dict entries) = .ok a ↔
      ∃ item, entriesToDynamodb t entries = .ok item ∧ a = .M item := by
  rw [pythonToDynamodb]
  cases entriesToDynamodb t entries with
  | error e => exact ⟨fun h => (nomatch h), fun ⟨_, h, _⟩ => (nomatch h)⟩
  | ok item =>
    refine ⟨fun h => ⟨item, rfl, (Except.ok.inj h).symm⟩, fun ⟨_, h, ha⟩ => ?_⟩
    rw [ha, ← Except.ok.inj h]
    rfl

theorem toDynamodbItem_dict {entries : List (String × Value)} {item : List (String × AttributeValue)} :
    toDynamodbItem t (.dict entries) = .ok item ↔ entriesToDynamodb t entries = .ok item := by
  unfold toDynamodbItem
  rw [pythonToDynamodb]
  cases entriesToDynamodb t entries <;> rfl

namespace MarketPulse

/-! ## Reading the item -/

/-- `attributes[key]`. -/
def subscript (attributes : List (String × AttributeValue)) (key : String) : Except PyError AttributeValue :=
  match attributes.lookup key with
  | some a => .ok a
  | none => .error (.keyError key)

/-- `float(attributes[key]["N"])`. -/
def readFloat (t : NumberText) (attributes : List (String × AttributeValue)) (key : String) :
    Except PyError ℚ := do
  match ← subscript attributes key with
  | .N text =>
    match t.floatOfText text with
    | some x => .ok x
    | none => .error .valueError
  | _ => .error (.keyError "N")

def readCostInputs (t : NumberText) (item : List (String × AttributeValue)) : Except PyError CostInputs := do
  match ← subscript item "cost_inputs" with
  | .M costInputs =>
    let fixedAndAllocatedCostsEur ← readFloat t costInputs "fixed_and_allocated_costs_eur"
    let perBookingCostEur ← readFloat t costInputs "per_booking_cost_eur"
    let p ← readFloat t costInputs "p"
    .ok ⟨fixedAndAllocatedCostsEur, perBookingCostEur, p⟩
  | _ => .error (.keyError "M")

/-- What `get_item` comes to; an item that cannot be read raises. -/
def lookupItem (t : NumberText) : Option (List (String × AttributeValue)) → Lookup
  | none => .notFound
  | some item =>
    match readCostInputs t item with
    | .ok costInputs => .item costInputs
    | .error _ => .failed

theorem readFloat_written {entries : List (String × Value)} {item : List (String × AttributeValue)}
    (h : entriesToDynamodb t entries = .ok item) {key : String} {x : ℚ}
    (hv : entries.lookup key = some (.float x)) (ht : t.floatOfText (t.strFloat x) = some x) :
    readFloat t item key = .ok x := by
  obtain ⟨a, ha, hlookup⟩ := lookup_entriesToDynamodb h hv
  cases ha
  simp only [readFloat, subscript, hlookup, ok_bind, ht]

/-- The text of each of the three numbers is read as the number. -/
def ReadsCosts (t : NumberText) (c : PriceEngine.CostInputs) : Prop :=
  ∀ x ∈ [c.fixedAndAllocatedCostsEur, c.perBookingCostEur, c.p], t.floatOfText (t.strFloat x) = some x

theorem readCostInputs_item {clock : Instant → ℤ} {r : PriceDecisionRecord}
    {item : List (String × AttributeValue)} (hitem : toDynamodbItem t (r.modelDump clock) = .ok item)
    (ht : ReadsCosts t r.costInputs) :
    readCostInputs t item =
      .ok ⟨r.costInputs.fixedAndAllocatedCostsEur, r.costInputs.perBookingCostEur, r.costInputs.p⟩ := by
  have hcosts : (r.fields clock).lookup "cost_inputs" = some r.costInputs.modelDump := rfl
  obtain ⟨a, ha, hlookup⟩ := lookup_entriesToDynamodb (toDynamodbItem_dict.mp hitem) hcosts
  obtain ⟨costInputs, hwritten, rfl⟩ := pythonToDynamodb_dict.mp ha
  simp only [ReadsCosts, List.forall_mem_cons] at ht
  have hfixed := readFloat_written hwritten
    (rfl : List.lookup "fixed_and_allocated_costs_eur" _ = some (Value.float _)) ht.1
  have hbooking := readFloat_written hwritten
    (rfl : List.lookup "per_booking_cost_eur" _ = some (Value.float _)) ht.2.1
  have hp := readFloat_written hwritten (rfl : List.lookup "p" _ = some (Value.float _)) ht.2.2.1
  simp only [readCostInputs, subscript, hlookup, ok_bind, hfixed, hbooking, hp]

/-! ## The engine's break-even -/

/-- The break-even of a stay of `n` nights at the costs of a night, before it is rounded. -/
def breakEvenAt (cost : CostAggregate) (market : MarketSnapshot) (days : ℤ) (n : ℕ+) : ℚ :=
  (priceTerms (losArgs (nightArgs cost market days) n)).breakEvenRevenueEur

theorem breakEvenAt_eq {cost : CostAggregate} (hp : sumOfRates (allPercentageCosts cost) < 1)
    (market : MarketSnapshot) (days : ℤ) (n : ℕ+) :
    breakEvenAt cost market days n = (fixedAndAllocatedCostsPerNightEur cost +
      cost.perBookingCostEur / (n : ℕ) - nettingEur cost) / (1 - sumOfRates (allPercentageCosts cost)) :=
  priceTerms_breakEven hp

theorem resolveProfit_eq {cost : CostAggregate} {market : MarketSnapshot} {days : ℤ} {n : ℕ+} {booking : Booking}
    (hp : sumOfRates (allPercentageCosts cost) < 1) (hn : booking.checkOut - booking.checkIn = (n : ℕ)) :
    resolveProfit booking
        ⟨fixedAndAllocatedCostsPerNightEur cost, cost.perBookingCostEur, sumOfRates (allPercentageCosts cost)⟩ =
      (1 - sumOfRates (allPercentageCosts cost)) * (booking.revenueEur - n * breakEvenAt cost market days n) -
        n * nettingEur cost := by
  have hpos : 0 < 1 - sumOfRates (allPercentageCosts cost) := sub_pos.mpr hp
  have hnights : ((n : ℕ) : ℚ) ≠ 0 := Nat.cast_ne_zero.mpr n.pos.ne'
  have hber : (1 - sumOfRates (allPercentageCosts cost)) * breakEvenAt cost market days n =
      fixedAndAllocatedCostsPerNightEur cost + cost.perBookingCostEur / (n : ℕ) - nettingEur cost := by
    rw [breakEvenAt_eq hp]
    exact mul_div_cancel₀ _ hpos.ne'
  have hstay : (n : ℕ) * (fixedAndAllocatedCostsPerNightEur cost + cost.perBookingCostEur / (n : ℕ) -
      nettingEur cost) = fixedAndAllocatedCostsPerNightEur cost * (n : ℕ) + cost.perBookingCostEur -
        (n : ℕ) * nettingEur cost := by
    field_simp
  simp only [resolveProfit, hn]
  push_cast
  linear_combination (n : ℕ) * hber + hstay

/-- Sold at the rounded floor, a night brings what it has to recover, up to half a cent. -/
theorem breakEven_le_of_floor {num p m x : ℚ} (hp : 0 ≤ p) (hm : 0 ≤ m) (hr : p + m < 1)
    (hfloor : 0 ≤ pyRound (num / (1 - p - m)) 2) (hx : pyRound (num / (1 - p - m)) 2 ≤ x) :
    -(1 / 200) ≤ (1 - p) * (x - num / (1 - p)) := by
  have hpos : 0 < 1 - p := by linarith
  rcases le_total num 0 with hneg | hnum
  · have hber := div_nonpos_of_nonpos_of_nonneg hneg hpos.le
    have := mul_nonneg hpos.le (sub_nonneg.mpr (hber.trans (hfloor.trans hx)))
    linarith
  · have hround := (abs_le.mp (abs_pyRound_sub_le (num / (1 - p - m)) 2)).1
    have hcent : (1 / 2 / 10 ^ 2 : ℚ) = 1 / 200 := by norm_num
    have hmargin : num / (1 - p) ≤ num / (1 - p - m) :=
      div_le_div_of_nonneg_left hnum (by linarith) (by linarith)
    have hgap : -(1 / 200) ≤ x - num / (1 - p) := by linarith
    have hscaled := mul_le_mul_of_nonneg_left hgap hpos.le
    linarith

/-! ## The stored decision -/

/-- What the override stage makes of a decision. -/
def StoredFrom (d stored : PriceDecision) : Prop :=
  stored = d ∨ ∃ assignment, applyManualOverride d assignment = .ok stored

theorem StoredFrom.frame {d stored : PriceDecision} (h : StoredFrom d stored) :
    stored.costInputs = d.costInputs ∧ stored.calculation.losFloorMatrix = d.calculation.losFloorMatrix ∧
      stored.calculation.targetMargin = d.calculation.targetMargin := by
  rcases h with rfl | ⟨assignment, h⟩
  · exact ⟨rfl, rfl, rfl⟩
  · unfold applyManualOverride at h
    split at h
    · cases h
      exact ⟨rfl, rfl, rfl⟩
    · cases h

/-- The costs of a decision, the rows of its floor matrix and its margin, as the aggregate determines them. -/
structure PricedFrom (cost : CostAggregate) (stored : PriceDecision) : Prop where
  perNight : stored.costInputs.fixedAndAllocatedCostsEur = fixedAndAllocatedCostsPerNightEur cost
  perBooking : stored.costInputs.perBookingCostEur = cost.perBookingCostEur
  p : stored.costInputs.p = sumOfRates (allPercentageCosts cost)
  targetMargin : stored.calculation.targetMargin = cost.targetMargin
  floor : ∀ row ∈ stored.calculation.losFloorMatrix, row.minimumPriceEur = losFloor cost row.stayLength

theorem buildPriceDecision_pricedFrom {decisionId : String} {decidedAt : Instant} {cost : CostAggregate}
    {night : NightSnapshot} {targetDate : Date} {since since' : Option Date} {d stored : PriceDecision}
    (h : buildPriceDecision decisionId decidedAt cost night targetDate since = .ok (d, since'))
    (hstored : StoredFrom d stored) : PricedFrom cost stored := by
  obtain ⟨market, minimumStay, channels, -, -, -, hd, -⟩ := buildPriceDecision_eq_ok.mp h
  obtain ⟨hcosts, hmatrix, hmargin⟩ := hstored.frame
  rw [hd] at hcosts hmatrix hmargin
  refine ⟨by rw [hcosts]; rfl, by rw [hcosts]; rfl, by rw [hcosts]; rfl, hmargin, ?_⟩
  intro row hrow
  rw [hmatrix] at hrow
  obtain ⟨n, -, rfl⟩ := List.mem_map.mp hrow
  exact losRow_minimum cost _ market n

section
variable {cost : CostAggregate} {stored : PriceDecision} (h : PricedFrom cost stored)
include h

theorem PricedFrom.p_nonneg : 0 ≤ sumOfRates (allPercentageCosts cost) := by
  obtain ⟨-, hcost, -⟩ := PriceDecisionRecord.valid_iff.mp stored.valid
  rw [← h.p]
  exact (CostInputs.fieldChecks_iff.mp hcost).2.2.2.2.2.2.1

theorem PricedFrom.targetMargin_nonneg : 0 ≤ cost.targetMargin := by
  obtain ⟨-, -, -, -, -, -, -, hcalculation, -⟩ := PriceDecisionRecord.valid_iff.mp stored.valid
  rw [← h.targetMargin]
  exact (Calculation.fieldChecks_iff.mp hcalculation).1

theorem PricedFrom.floor_nonneg {row : LosFloorCandidate} (hrow : row ∈ stored.calculation.losFloorMatrix) :
    0 ≤ losFloor cost row.stayLength := by
  obtain ⟨-, -, -, hlos, -⟩ := PriceDecisionRecord.valid_iff.mp stored.valid
  rw [← h.floor row hrow]
  exact (LosFloorCandidate.fieldChecks_iff.mp (hlos row hrow)).1

end

/-- The profit of a booking is the engine's, less the netting for each of its nights. -/
theorem realised_profit_agrees {decisionId : String} {decidedAt : Instant} {cost : CostAggregate}
    {night : NightSnapshot} {targetDate : Date} {since since' : Option Date} {d stored : PriceDecision}
    (hd : buildPriceDecision decisionId decidedAt cost night targetDate since = .ok (d, since'))
    (hstored : StoredFrom d stored) (hr : stored.costInputs.p + stored.calculation.targetMargin < 1)
    (hk : 0 ≤ nettingEur cost) {t : NumberText} (ht : ReadsCosts t stored.costInputs) {clock : Instant → ℤ}
    {item : List (String × AttributeValue)} (hitem : toDynamodbItem t (stored.modelDump clock) = .ok item)
    {booking : Booking} {n : ℕ+} (hn : booking.checkOut - booking.checkIn = (n : ℕ)) (market : MarketSnapshot)
    (days : ℤ) :
    ∃ profit, (enrich booking (lookupItem t (some item))).profitEur = some profit ∧
      profit = (1 - stored.costInputs.p) * (booking.revenueEur - n * breakEvenAt cost market days n) -
        n * nettingEur cost ∧
      (nettingEur cost = 0 → (0 ≤ profit ↔ breakEvenAt cost market days n ≤ booking.revenueEur / n)) ∧
      profit ≤ (1 - stored.costInputs.p) * (booking.revenueEur - n * breakEvenAt cost market days n) ∧
      ∀ row ∈ stored.calculation.losFloorMatrix, row.stayLength = n →
        row.minimumPriceEur ≤ booking.revenueEur / n → -(n / 200) - n * nettingEur cost ≤ profit := by
  have hpriced := buildPriceDecision_pricedFrom hd hstored
  have hm := hpriced.targetMargin_nonneg
  rw [hpriced.p, hpriced.targetMargin] at hr
  have hpos : 0 < 1 - sumOfRates (allPercentageCosts cost) := by linarith
  have hnights : (0 : ℚ) < (n : ℕ) := Nat.cast_pos.mpr n.pos
  rw [hpriced.p]
  refine ⟨_, ?_, rfl, fun hzero => ?_, ?_, fun row hrow hstay hfloor => ?_⟩
  · rw [lookupItem, readCostInputs_item hitem ht, hpriced.perNight, hpriced.perBooking, hpriced.p, enrich,
      resolveProfit_eq (by linarith) hn]
  · rw [hzero, mul_zero, sub_zero, mul_nonneg_iff_of_pos_left hpos, sub_nonneg, le_div_iff₀ hnights, mul_comm]
  · have := mul_nonneg hnights.le hk
    linarith
  · have hnonneg := hpriced.floor_nonneg hrow
    rw [hpriced.floor row hrow] at hfloor
    rw [hstay] at hnonneg hfloor
    have hnight := breakEven_le_of_floor hpriced.p_nonneg hm hr hnonneg hfloor
    rw [← breakEvenAt_eq (by linarith) market days n] at hnight
    have hstayed := mul_le_mul_of_nonneg_left hnight hnights.le
    have hrevenue : (n : ℕ) * (booking.revenueEur / (n : ℕ)) = booking.revenueEur :=
      mul_div_cancel₀ _ hnights.ne'
    linear_combination hstayed + (1 - sumOfRates (allPercentageCosts cost)) * hrevenue

def twoNights : Booking :=
  ⟨"b-1", "a", toordinal 1970 1 21, toordinal 1970 1 23, 500, .confirmed, 0⟩

theorem twoNights_profit : ∃ d since item profit,
    buildPriceDecision "1" 0 (septemberCost pricedSeptember) (septemberInput pricedSeptember).night
      (toordinal 1970 1 21) none = .ok (d, since) ∧
    toDynamodbItem ordinaryNumbers (d.modelDump fun _ => 0) = .ok item ∧
    (enrich twoNights (lookupItem ordinaryNumbers (some item))).profitEur = some profit ∧
    profit ≤ (1 - d.costInputs.p) * (500 - 2 * breakEvenAt (septemberCost pricedSeptember)
      ⟨"Madrid", 100, none, none, 0⟩ 20 2) := by
  have hwritten : ((buildPriceDecision "1" 0 (septemberCost pricedSeptember)
      (septemberInput pricedSeptember).night (toordinal 1970 1 21) none).toOption.bind fun r =>
        (toDynamodbItem ordinaryNumbers (r.1.modelDump fun _ => 0)).toOption).isSome := by
    decide +kernel
  obtain ⟨item, hitem⟩ := Option.isSome_iff_exists.mp hwritten
  obtain ⟨⟨d, since⟩, hd, hitem⟩ := ok_of_bind hitem
  have hitem := toOption_eq_some.mp hitem
  have hpriced := buildPriceDecision_pricedFrom hd (Or.inl rfl)
  have hr : d.costInputs.p + d.calculation.targetMargin < 1 := by
    rw [hpriced.p, hpriced.targetMargin]
    decide +kernel
  have hk : 0 ≤ nettingEur (septemberCost pricedSeptember) := by decide +kernel
  have ht : ReadsCosts ordinaryNumbers d.costInputs := by
    simp only [ReadsCosts, hpriced.perNight, hpriced.perBooking, hpriced.p]
    decide +kernel
  have hn : twoNights.checkOut - twoNights.checkIn = ((2 : ℕ+) : ℕ) := by decide +kernel
  obtain ⟨profit, hprofit, -, -, hle, -⟩ :=
    realised_profit_agrees hd (Or.inl rfl) hr hk ht hitem hn ⟨"Madrid", 100, none, none, 0⟩ 20
  exact ⟨d, since, item, profit, hd, hitem, hprofit, hle⟩

end MarketPulse

end PriceEngine
