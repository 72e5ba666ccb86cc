import Mathlib.Algebra.Order.Field.Rat
import PriceEngine.Aggregates
import PriceEngine.Models

/-!
# The market pulse

Every five minutes a segment's snapshots are reduced to an average rate,
weighted by sample size, and the lowest and highest of the rates. Flink may
add the snapshots to several accumulators, in any order, and merge these in
any tree; `aggregateFunction_summarises` says that each accumulator holds the sums
and extremes of its snapshots, so only the snapshots decide the row.
-/

namespace PriceEngine.MarketPulse

def weight (value : MarketPrice) : ℚ := value.marketContext.sampleSize

theorem weight_pos (value : MarketPrice) : 0 < weight value := Nat.cast_pos.mpr value.marketContext.sampleSize_pos

/-! ## Accumulators -/

structure Accumulator where
  weightedSum : ℚ
  weightTotal : ℚ
  minPrice : WithTop ℚ
  maxPrice : WithBot ℚ
  count : ℕ
  deriving DecidableEq

def createAccumulator : Accumulator := ⟨0, 0, ⊤, ⊥, 0⟩

def add (value : MarketPrice) (accumulator : Accumulator) : Accumulator :=
  let rate := value.avgNightlyRate
  let weight := value.marketContext.sampleSize
  { weightedSum := accumulator.weightedSum + rate * weight
    weightTotal := accumulator.weightTotal + weight
    minPrice := min accumulator.minPrice rate
    maxPrice := max accumulator.maxPrice rate
    count := accumulator.count + 1 }

def merge (accA accB : Accumulator) : Accumulator :=
  { weightedSum := accA.weightedSum + accB.weightedSum
    weightTotal := accA.weightTotal + accB.weightTotal
    minPrice := min accA.minPrice accB.minPrice
    maxPrice := max accA.maxPrice accB.maxPrice
    count := accA.count + accB.count }

structure Result where
  avgPriceEur : ℚ
  minPriceEur : WithTop ℚ
  maxPriceEur : WithBot ℚ
  sampleCount : ℕ
  deriving DecidableEq

inductive ArithmeticError where
  | zeroDivisionError
  deriving DecidableEq

def getResult (accumulator : Accumulator) : Except ArithmeticError Result :=
  if accumulator.weightTotal = 0 then .error .zeroDivisionError
  else .ok
    { avgPriceEur := accumulator.weightedSum / accumulator.weightTotal
      minPriceEur := accumulator.minPrice
      maxPriceEur := accumulator.maxPrice
      sampleCount := accumulator.count }

def aggregateFunction : Aggregate MarketPrice Accumulator := ⟨createAccumulator, add, merge⟩

theorem merge_createAccumulator (acc : Accumulator) : merge acc createAccumulator = acc := by
  simp [merge, createAccumulator]

theorem createAccumulator_merge (acc : Accumulator) : merge createAccumulator acc = acc := by
  simp [merge, createAccumulator]

/-! ## What an accumulator holds -/

def summary (events : Multiset MarketPrice) : Accumulator :=
  { weightedSum := (events.map fun e => e.avgNightlyRate * weight e).sum
    weightTotal := (events.map weight).sum
    minPrice := (events.map fun e => (e.avgNightlyRate : WithTop ℚ)).inf
    maxPrice := (events.map fun e => (e.avgNightlyRate : WithBot ℚ)).sup
    count := events.card }

theorem aggregateFunction_summarises : aggregateFunction.Summarises summary where
  create := rfl
  add event s := by
    simp only [aggregateFunction, add, summary, Multiset.map_cons, Multiset.sum_cons, Multiset.inf_cons,
      Multiset.sup_cons, Multiset.card_cons, weight]
    rw [add_comm, add_comm _ (event.marketContext.sampleSize : ℚ), min_comm, max_comm]
  merge s t := by
    simp only [aggregateFunction, merge, summary, Multiset.map_add, Multiset.sum_add, Multiset.inf_add,
      Multiset.sup_add, Multiset.card_add]

section
variable {events : Multiset MarketPrice} (hne : events ≠ 0)
include hne

theorem exists_minPrice :
    ∃ e ∈ events, (summary events).minPrice = e.avgNightlyRate ∧
      ∀ e' ∈ events, e.avgNightlyRate ≤ e'.avgNightlyRate := by
  have hmap : events.map (fun e => (e.avgNightlyRate : WithTop ℚ)) ≠ 0 := fun h => hne (Multiset.map_eq_zero.mp h)
  obtain ⟨x, hx, hmin⟩ := exists_mem_inf_eq hmap
  obtain ⟨e, he, rfl⟩ := Multiset.mem_map.mp hx
  refine ⟨e, he, hmin, fun e' he' => ?_⟩
  have hle := Multiset.inf_le (Multiset.mem_map_of_mem (fun e : MarketPrice => (e.avgNightlyRate : WithTop ℚ)) he')
  rw [hmin] at hle
  exact WithTop.coe_le_coe.mp hle

theorem exists_maxPrice :
    ∃ e ∈ events, (summary events).maxPrice = e.avgNightlyRate ∧
      ∀ e' ∈ events, e'.avgNightlyRate ≤ e.avgNightlyRate := by
  have hmap : events.map (fun e => (e.avgNightlyRate : WithBot ℚ)) ≠ 0 := fun h => hne (Multiset.map_eq_zero.mp h)
  obtain ⟨x, hx, hmax⟩ := exists_mem_sup_eq hmap
  obtain ⟨e, he, rfl⟩ := Multiset.mem_map.mp hx
  refine ⟨e, he, hmax, fun e' he' => ?_⟩
  have hle := Multiset.le_sup (Multiset.mem_map_of_mem (fun e : MarketPrice => (e.avgNightlyRate : WithBot ℚ)) he')
  rw [hmax] at hle
  exact WithBot.coe_le_coe.mp hle

theorem getResult_summary :
    getResult (summary events) =
      .ok ⟨weightedMean MarketPrice.avgNightlyRate weight events, (summary events).minPrice,
        (summary events).maxPrice, events.card⟩ :=
  if_neg (totalWeight_pos (fun e _ => weight_pos e) hne).ne'

end

/-! ## The row of a window -/

/-- The row depends on the snapshots alone; its average lies between its extremes. -/
theorem market_pulse_of_events {plan : Plan MarketPrice} (hne : plan.events ≠ 0) :
    (∀ acc, merge acc createAccumulator = acc ∧ merge createAccumulator acc = acc) ∧
    (∀ plan' : Plan MarketPrice, plan'.events = plan.events →
      getResult (aggregateFunction.eval plan') = getResult (aggregateFunction.eval plan)) ∧
    ∃ minPrice maxPrice avgPrice : ℚ,
      getResult (aggregateFunction.eval plan) = .ok ⟨avgPrice, minPrice, maxPrice, plan.events.card⟩ ∧
      avgPrice = (plan.events.map fun e => e.avgNightlyRate * (e.marketContext.sampleSize : ℚ)).sum /
        (plan.events.map fun e => (e.marketContext.sampleSize : ℚ)).sum ∧
      0 < (plan.events.map fun e => (e.marketContext.sampleSize : ℚ)).sum ∧
      IsLeast {rate | ∃ e ∈ plan.events, e.avgNightlyRate = rate} minPrice ∧
      IsGreatest {rate | ∃ e ∈ plan.events, e.avgNightlyRate = rate} maxPrice ∧
      minPrice ≤ avgPrice ∧ avgPrice ≤ maxPrice ∧
      (avgPrice = minPrice ↔ ∀ e ∈ plan.events, e.avgNightlyRate = minPrice) := by
  have heval := aggregateFunction_summarises.eval_eq
  refine ⟨fun acc => ⟨merge_createAccumulator acc, createAccumulator_merge acc⟩, fun plan' h => ?_, ?_⟩
  · rw [heval, heval, h]
  · obtain ⟨low, hlow, hmin, hleast⟩ := exists_minPrice hne
    obtain ⟨high, hhigh, hmax, hgreatest⟩ := exists_maxPrice hne
    have hweight : ∀ e ∈ plan.events, 0 < weight e := fun e _ => weight_pos e
    refine ⟨low.avgNightlyRate, high.avgNightlyRate, weightedMean MarketPrice.avgNightlyRate weight plan.events,
      ?_, rfl, totalWeight_pos hweight hne, ⟨⟨low, hlow, rfl⟩, ?_⟩, ⟨⟨high, hhigh, rfl⟩, ?_⟩,
      le_weightedMean hweight hne hleast, weightedMean_le hweight hne hgreatest,
      weightedMean_eq_iff hweight hne hleast⟩
    · rw [heval, getResult_summary hne, hmin, hmax]
    · rintro _ ⟨e, he, rfl⟩
      exact hleast e he
    · rintro _ ⟨e, he, rfl⟩
      exact hgreatest e he

def smallSample : MarketPrice where
  marketArea := { city := "Madrid", neighborhood := some "Centro" }
  propertyProfile := { type := .studio, bedrooms := 0 }
  targetDate := 739863
  avgNightlyRate := 84
  marketContext :=
    { occupancyRate := some (3 / 5)
      sampleSize := 11
      occupancyRate_mem := by intro r h; cases h; norm_num
      sampleSize_pos := by decide }
  collectedAt := 0
  avgNightlyRate_nonneg := by decide +kernel

def largeSample : MarketPrice where
  __ := smallSample
  avgNightlyRate := 117
  marketContext := { smallSample.marketContext with sampleSize := 22, sampleSize_pos := by decide }
  avgNightlyRate_nonneg := by decide +kernel

/-- Two accumulators of one snapshot each, and one that got none. -/
def threeAccumulators : Plan MarketPrice :=
  .merge (.merge (.add largeSample .create) .create) (.add smallSample .create)

theorem threeAccumulators_row :
    ∃ minPrice maxPrice avgPrice : ℚ,
      getResult (aggregateFunction.eval threeAccumulators) = .ok ⟨avgPrice, minPrice, maxPrice, 2⟩ ∧
      minPrice ≤ avgPrice ∧ avgPrice ≤ maxPrice := by
  have hne : threeAccumulators.events ≠ 0 := Multiset.card_pos.mp (by decide)
  obtain ⟨-, -, minPrice, maxPrice, avgPrice, hrow, -, -, -, -, hlow, hhigh, -⟩ := market_pulse_of_events hne
  exact ⟨minPrice, maxPrice, avgPrice, hrow, hlow, hhigh⟩

example : getResult (aggregateFunction.eval threeAccumulators) = .ok ⟨106, 84, 117, 2⟩ := by decide +kernel

end PriceEngine.MarketPulse
