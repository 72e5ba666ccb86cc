import PriceEngine.Decision
import PriceEngine.EngineSound

/-!
# When a decision can be built

`buildPriceDecision` returns exactly when the night is known, every channel
has a commission and the record passes the schema. For a well-formed cost
aggregate whose rates and margin leave a part of the price, all of that comes
down to the floors: none of them may be negative (`FloorsNonneg`).
-/

namespace PriceEngine

/-! ## Floors -/

theorem minimumPrice_nonneg_iff {a : PriceArgs} (h : 0 < denominator a) :
    0 ≤ (decidePrice a).minimumPriceEur ↔ -(denominator a / 200) ≤ toRecover a := by
  have e : (decidePrice a).minimumPriceEur = pyRound (toRecover a / denominator a) 2 :=
    congrArg (pyRound · 2) (priceTerms_floor a)
  rw [e, pyRound_nonneg_iff, le_div_iff₀ h]
  constructor <;> intro h' <;> linarith

theorem breakEven_nonneg {a : PriceArgs} (hm : 0 ≤ a.targetMargin) (h : 0 < denominator a)
    (hr : -(denominator a / 200) ≤ toRecover a) : 0 ≤ (decidePrice a).breakEvenRevenueEur := by
  have hp : 0 < 1 - a.p := by unfold denominator at h; linarith
  have e : (decidePrice a).breakEvenRevenueEur = pyRound (toRecover a / (1 - a.p)) 2 :=
    congrArg (pyRound · 2) (priceTerms_breakEven (by linarith))
  rw [e, pyRound_nonneg_iff, le_div_iff₀ hp]
  unfold denominator at hr
  linarith

theorem toRecover_losArgs_anti {a : PriceArgs} (hb : 0 ≤ a.perBookingCostEur) {n m : ℕ+} (h : n ≤ m) :
    toRecover (losArgs a m) ≤ toRecover (losArgs a n) := by
  have hn : (0 : ℚ) < (n : ℕ) := Nat.cast_pos.mpr n.pos
  have hnm : ((n : ℕ) : ℚ) ≤ (m : ℕ) := Nat.cast_le.mpr h
  have := div_le_div_of_nonneg_left hb hn hnm
  simp only [toRecover, losArgs]
  linarith

theorem losRow_minimum_anti {a : PriceArgs} (hb : 0 ≤ a.perBookingCostEur) (hd : 0 < denominator a)
    {n m : ℕ+} (h : n ≤ m) : (losRow a m).minimumPriceEur ≤ (losRow a n).minimumPriceEur := by
  refine pyRound_mono ?_ 2
  rw [priceTerms_floor, priceTerms_floor]
  exact div_le_div_of_nonneg_right (toRecover_losArgs_anti hb h) hd.le

/-! ## References -/

structure MarketSide (a : PriceArgs) : Prop where
  marketRate : 0 ≤ a.avgNightlyRateEur
  factor : 0 ≤ a.propertyAttributeFactor
  discount : 0 ≤ a.competitivenessDiscount
  discount_le : a.competitivenessDiscount ≤ 1

section
variable {a : PriceArgs} (h : MarketSide a)
include h

theorem MarketSide.property_nonneg : 0 ≤ (priceTerms a).propertyReferencePriceEur :=
  priceTerms_property_nonneg h.marketRate h.factor

theorem MarketSide.market_nonneg : 0 ≤ (priceTerms a).marketReferencePriceEur :=
  mul_nonneg h.property_nonneg (by have := h.discount_le; linarith)

theorem MarketSide.suggested_nonneg : 0 ≤ (decidePrice a).suggestedPriceEur := by
  refine pyRound_nonneg ?_ 2
  rw [priceTerms_suggested]
  exact h.market_nonneg.trans (le_max_right _ _)

end

/-! ## Minimum stay -/

theorem losMatrix_sorted (a : PriceArgs) :
    (decidePriceLosMatrix a).insertionSort (fun c c' => c.stayLength ≤ c'.stayLength) =
      losRow a 1 :: [2, 3, 7, 14].map (losRow a) := by
  have hcons : decidePriceLosMatrix a = losRow a 1 :: [2, 3, 7, 14].map (losRow a) := rfl
  rw [← hcons]
  apply List.Pairwise.insertionSort_eq
  refine List.pairwise_map.mpr ?_
  change losCandidates.Pairwise fun n m => n ≤ m
  decide

theorem losRow_one {a : PriceArgs} (hone : a.stayLength = 1) :
    (losRow a 1).ruleApplied = (decidePrice a).ruleApplied := by
  simp only [losRow, decidePrice, losArgs, priceTerms, hone]
  rfl

theorem recommendFor_ok {a : PriceArgs} (hs : MarketSide a) (hc : 0 ≤ a.fixedAndAllocatedCostsPerNightEur)
    (hb : 0 ≤ a.perBookingCostEur) (hd : 0 < denominator a) :
    ∃ m, recommendFor a = .ok m ∧ (∀ r ∈ m.floorReliefEur, 0 ≤ r) ∧
      (∀ r ∈ m.costPerReservationEur, 0 ≤ r) ∧ ∀ r ∈ m.suggestedPricePerReservationEur, 0 ≤ r := by
  have hcost : ∀ n, 0 ≤ reservationCostEur n a.fixedAndAllocatedCostsPerNightEur a.perBookingCostEur :=
    fun n => pyRound_nonneg (add_nonneg (mul_nonneg (Nat.cast_nonneg _) hc) hb) 2
  have hsugg : ∀ n : ℕ+, 0 ≤ pyRound ((losRow a n).suggestedPriceEur * (n : ℕ)) 2 := fun n =>
    pyRound_nonneg (mul_nonneg (MarketSide.suggested_nonneg (a := losArgs a n) { hs with })
      (Nat.cast_nonneg _)) 2
  unfold recommendFor recommendMinimumStay
  rw [losMatrix_sorted]
  dsimp only
  split
  · refine ⟨_, rfl, ?_, ?_, ?_⟩ <;> (intro r h; cases h)
    · exact le_rfl
    · exact hcost 1
    · exact hsugg 1
  · split
    · rename_i candidate hfind
      obtain ⟨n, hn, rfl⟩ := List.mem_map.mp (List.mem_of_find?_eq_some hfind)
      refine ⟨_, rfl, ?_, ?_, ?_⟩ <;> (intro r h; cases h)
      · exact pyRound_nonneg (sub_nonneg.mpr (losRow_minimum_anti hb hd one_le)) 2
      · exact hcost n
      · exact hsugg n
    · refine ⟨_, rfl, ?_, ?_, ?_⟩ <;> (intro r h; cases h)

/-! ## The returned decision -/

theorem assertBlended_eq_ok {night : NightSnapshot} {market : MarketSnapshot} :
    assertBlended night = .ok market ↔ night.blended = some market := by
  unfold assertBlended
  cases night.blended with
  | none => exact ⟨fun h => (nomatch h), fun h => (nomatch h)⟩
  | some m => rw [Except.ok.injEq, Option.some.injEq]

theorem buildPriceDecision_eq_ok {decisionId : String} {decidedAt : Instant} {cost : CostAggregate}
    {night : NightSnapshot} {targetDate : Date} {since since' : Option Date} {d : PriceDecision} :
    buildPriceDecision decisionId decidedAt cost night targetDate since = .ok (d, since') ↔
      ∃ market minimumStay channels, night.blended = some market ∧
        recommendFor (nightArgs cost market (targetDate - Instant.date decidedAt)) = .ok minimumStay ∧
        decidePriceByChannel (nightChannelArgs cost night (targetDate - Instant.date decidedAt)) =
          .ok channels ∧
        d.toPriceDecisionRecord =
          decisionRecord decisionId decidedAt cost market targetDate since minimumStay channels ∧
        since' = newFloorBreachSince d.calculation.ruleApplied (Instant.date decidedAt) since := by
  unfold buildPriceDecision
  refine ⟨?_, ?_⟩
  · intro h
    obtain ⟨market, hm, h⟩ := bind_eq_ok.mp h
    obtain ⟨minimumStay, hs, h⟩ := bind_eq_ok.mp h
    obtain ⟨channels, hc, h⟩ := bind_eq_ok.mp h
    obtain ⟨d', hd, h⟩ := bind_eq_ok.mp h
    obtain ⟨rfl, rfl⟩ := Prod.mk.inj (Except.ok.inj h)
    exact ⟨market, minimumStay, channels, assertBlended_eq_ok.mp hm, hs, hc, validate_eq_ok.mp hd, rfl⟩
  · intro hex
    obtain ⟨market, minimumStay, channels, hb, hs, hc, hd, rfl⟩ := hex
    refine bind_eq_ok.mpr ⟨market, assertBlended_eq_ok.mpr hb, ?_⟩
    refine bind_eq_ok.mpr ⟨minimumStay, hs, ?_⟩
    refine bind_eq_ok.mpr ⟨channels, hc, ?_⟩
    exact bind_eq_ok.mpr ⟨d, validate_eq_ok.mpr hd, rfl⟩

/-! ## Well-formed inputs -/

/-- What the cost stages promise of an aggregate, netting apart. -/
structure CostAggregate.WellFormed (c : CostAggregate) : Prop where
  totalMonthly : 0 ≤ c.totalMonthlyCostEur
  availableDays : 1 ≤ c.availableDays
  fixed : 0 ≤ c.fixedCostEur
  variable' : 0 ≤ c.variableCostEur
  perBooking : 0 ≤ c.perBookingCostEur
  breakdown : ∀ b ∈ c.costBreakdown, 0 ≤ b.amountEur
  targetMargin : 0 ≤ c.targetMargin
  discount : 0 ≤ c.competitivenessDiscount
  discount_le : c.competitivenessDiscount ≤ 1
  factor : 0 ≤ c.propertyAttributeFactor
  commission : 0 ≤ c.commissionPct
  commission_le : c.commissionPct ≤ 1
  rates : ∀ pc ∈ c.percentageCosts, 0 ≤ pc.rate
  version : 1 ≤ c.pricingStrategyVersion

structure MarketSnapshot.Valid (m : MarketSnapshot) : Prop where
  rate : 0 ≤ m.avgNightlyRateEur
  occupancy : ∀ r ∈ m.occupancyRate, 0 ≤ r ∧ r ≤ 1
  sample : ∀ n ∈ m.sampleSize, 1 ≤ n

structure NightSnapshot.Valid (n : NightSnapshot) : Prop where
  blended : ∀ m ∈ n.blended, m.Valid
  channels : n.channels.All fun _ m => m.Valid

/-- What a rate nets out of the floor: the rate on the sub-total its base excludes. -/
def nettedBy (cost : CostAggregate) (rate : ℚ) (base : RevenueBase) : ℚ :=
  pyRound (rate * nettedRevenueBaseAmount base cost.otaRelatedCostEur cost.cleaningCostEur
    cost.laundryCostEur cost.bookingScopeCostEur) 2

/-- The floor published for a stay of `n` nights; neither the night nor its market enters it. -/
def losFloor (cost : CostAggregate) (n : ℕ+) : ℚ :=
  pyRound ((fixedAndAllocatedCostsPerNightEur cost + cost.perBookingCostEur / (n : ℕ) - nettingEur cost) /
    (1 - sumOfRates (allPercentageCosts cost) - cost.targetMargin)) 2

def channelFloor (cost : CostAggregate) (commission : ℚ) : ℚ :=
  pyRound ((fixedAndAllocatedCostsPerNightEur cost + cost.perBookingCostEur -
      nettedBy cost commission cost.commissionBase) /
    (1 - (sumOfRates cost.percentageCosts + commission) - cost.targetMargin)) 2

/-- Every channel of the night has a commission, and no floor of the night is negative. -/
structure FloorsNonneg (cost : CostAggregate) (night : NightSnapshot) : Prop where
  los : 0 ≤ losFloor cost 14
  channels : ∀ platform ∈ night.channels.keys, ∃ commission,
    channelCommissionPct platform = some commission ∧ 0 ≤ channelFloor cost commission

theorem forall_mem_flatMap {α : Type*} {l : List α} {f : α → List FieldCheck} :
    (∀ c ∈ l.flatMap f, c.holds = true) ↔ ∀ a ∈ l, ∀ c ∈ f a, c.holds = true := by
  simp only [List.mem_flatMap]
  exact ⟨fun h a ha c hc => h c ⟨a, ha, hc⟩, fun h c ⟨a, ha, hc⟩ => h a ha c hc⟩

theorem PriceDecisionRecord.valid_iff {r : PriceDecisionRecord} :
    r.Valid ↔
      (∀ b ∈ r.costInputs.costBreakdown, ∀ c ∈ b.fieldChecks, c.holds = true) ∧
      (∀ c ∈ r.costInputs.fieldChecks, c.holds = true) ∧
      (∀ c ∈ r.marketInputs.fieldChecks, c.holds = true) ∧
      (∀ b ∈ r.calculation.losFloorMatrix, ∀ c ∈ b.fieldChecks, c.holds = true) ∧
      (∀ m ∈ r.calculation.manualOverride, ∀ c ∈ m.fieldChecks, c.holds = true) ∧
      (∀ c ∈ r.calculation.minimumStayRecommendation.fieldChecks, c.holds = true) ∧
      (∀ b ∈ r.calculation.channelPriceMatrix, ∀ c ∈ b.fieldChecks, c.holds = true) ∧
      (∀ c ∈ r.calculation.fieldChecks, c.holds = true) ∧
      (∀ c ∈ r.output.fieldChecks, c.holds = true) := by
  simp only [PriceDecisionRecord.Valid, PriceDecisionRecord.fieldChecks, List.forall_mem_append,
    forall_mem_flatMap, Option.mem_toList, Option.mem_def, and_assoc]

section
variable {cost : CostAggregate} (hc : cost.WellFormed) {market : MarketSnapshot} (hm : market.Valid)
include hc

theorem CostAggregate.WellFormed.perNight_nonneg : 0 ≤ fixedAndAllocatedCostsPerNightEur cost :=
  pyRound_nonneg (add_nonneg hc.fixed hc.variable') 2

theorem CostAggregate.WellFormed.allRates_nonneg : ∀ pc ∈ allPercentageCosts cost, 0 ≤ pc.rate := by
  intro pc hpc
  rcases List.mem_append.mp hpc with h | h
  · exact hc.rates pc h
  · rw [List.mem_singleton.mp h]
    exact hc.commission

theorem CostAggregate.WellFormed.p_nonneg : 0 ≤ sumOfRates (allPercentageCosts cost) := by
  refine pyRound_nonneg (List.sum_nonneg fun r hr => ?_) 4
  obtain ⟨pc, hpc, rfl⟩ := List.mem_map.mp hr
  exact hc.allRates_nonneg pc hpc

include hm

theorem nightArgs_marketSide (days : ℤ) : MarketSide (nightArgs cost market days) :=
  ⟨hm.rate, hc.factor, hc.discount, hc.discount_le⟩

omit hm

theorem channelPriceArgs_marketSide (night : NightSnapshot) (days : ℤ) {rate : ℚ} (hr : 0 ≤ rate)
    (commission : ℚ) :
    MarketSide (channelPriceArgs (nightChannelArgs cost night days) rate commission) :=
  ⟨hr, hc.factor, hc.discount, hc.discount_le⟩

end

section
variable (cost : CostAggregate) (days : ℤ)

theorem losRow_minimum (market : MarketSnapshot) (n : ℕ+) :
    (losRow (nightArgs cost market days) n).minimumPriceEur = losFloor cost n :=
  congrArg (pyRound · 2) (priceTerms_floor (losArgs (nightArgs cost market days) n))

theorem channelRow_minimum (night : NightSnapshot) (platform : Platform) (rate commission : ℚ) :
    (channelRow (nightChannelArgs cost night days) platform rate commission).minimumPriceEur =
      channelFloor cost commission := by
  refine (congrArg (pyRound · 2) (priceTerms_floor _)).trans ?_
  simp only [toRecover, channelPriceArgs, nightChannelArgs, PNat.one_coe, Nat.cast_one, div_one]
  rfl

end

/-! ## The schema's bounds -/

theorem decisionComponents_nonempty (a : PriceArgs) : (decidePrice a).decisionComponents ≠ [] := by
  simp [decidePrice]

theorem ConceptAmount.fieldChecks_iff {c : ConceptAmount} :
    (∀ x ∈ c.fieldChecks, x.holds = true) ↔ 0 ≤ c.amountEur := by
  simp [ConceptAmount.fieldChecks]

theorem CostInputs.fieldChecks_iff {c : CostInputs} :
    (∀ x ∈ c.fieldChecks, x.holds = true) ↔
      0 ≤ c.totalMonthlyCostEur ∧ 1 ≤ c.availableDays ∧ 0 ≤ c.fixedCostEur ∧ 0 ≤ c.variableCostEur ∧
      0 ≤ c.fixedAndAllocatedCostsEur ∧ 0 ≤ c.perBookingCostEur ∧ 0 ≤ c.p ∧ c.p ≤ 1 := by
  simp [CostInputs.fieldChecks]

theorem MarketInputs.fieldChecks_iff {m : MarketInputs} :
    (∀ x ∈ m.fieldChecks, x.holds = true) ↔
      0 ≤ m.avgNightlyRateEur ∧ (∀ r ∈ m.occupancyRate, 0 ≤ r ∧ r ≤ 1) ∧
      (∀ n ∈ m.sampleSize, 1 ≤ n) ∧ 0 ≤ m.dataAgeSeconds := by
  simp [MarketInputs.fieldChecks, Option.all_eq_true]

theorem LosFloorCandidate.fieldChecks_iff {c : LosFloorCandidate} :
    (∀ x ∈ c.fieldChecks, x.holds = true) ↔
      0 ≤ c.minimumPriceEur ∧ 0 ≤ c.suggestedPriceEur ∧ c.decisionComponents ≠ [] := by
  simp [LosFloorCandidate.fieldChecks]

theorem MinimumStayFields.fieldChecks_iff {m : MinimumStayFields} :
    (∀ x ∈ m.fieldChecks, x.holds = true) ↔
      (∀ r ∈ m.floorReliefEur, 0 ≤ r) ∧ (∀ r ∈ m.costPerReservationEur, 0 ≤ r) ∧
      ∀ r ∈ m.suggestedPricePerReservationEur, 0 ≤ r := by
  simp [MinimumStayFields.fieldChecks, Option.all_eq_true]

theorem ChannelPriceCandidate.fieldChecks_iff {c : ChannelPriceCandidate} :
    (∀ x ∈ c.fieldChecks, x.holds = true) ↔
      c.platform ≠ .mixed ∧ 0 ≤ c.avgNightlyRateEur ∧ (0 ≤ c.commissionPct ∧ c.commissionPct ≤ 1) ∧
      0 ≤ c.marketReferencePriceEur ∧ 0 ≤ c.minimumPriceEur ∧ 0 ≤ c.suggestedPriceEur ∧
      c.decisionComponents ≠ [] := by
  simp [ChannelPriceCandidate.fieldChecks]

theorem Calculation.fieldChecks_iff {c : Calculation} :
    (∀ x ∈ c.fieldChecks, x.holds = true) ↔
      0 ≤ c.targetMargin ∧ 0 ≤ c.minimumPriceEur ∧ 0 ≤ c.breakEvenRevenueEur ∧
      0 ≤ c.profitableFloorEur ∧ (0 ≤ c.commissionPct ∧ c.commissionPct ≤ 1) ∧
      (0 ≤ c.competitivenessDiscount ∧ c.competitivenessDiscount ≤ 1) ∧
      0 ≤ c.propertyAttributeFactor ∧ 0 ≤ c.propertyReferencePriceEur ∧
      0 ≤ c.marketReferencePriceEur ∧ c.losFloorMatrix ≠ [] ∧ c.decisionComponents ≠ [] ∧
      0 ≤ c.floorBreachDays ∧ 1 ≤ c.pricingStrategyVersion := by
  simp [Calculation.fieldChecks]

theorem Output.fieldChecks_iff {o : Output} :
    (∀ x ∈ o.fieldChecks, x.holds = true) ↔ 0 ≤ o.suggestedPriceEur := by
  simp [Output.fieldChecks]

theorem channelCommissionPct_mem {platform : Platform} {commission : ℚ}
    (h : channelCommissionPct platform = some commission) :
    platform ≠ .mixed ∧ 0 ≤ commission ∧ commission ≤ 1 := by
  cases platform <;> simp only [channelCommissionPct, Option.some.injEq, reduceCtorEq] at h <;>
    subst h <;> refine ⟨by decide, ?_, ?_⟩ <;> norm_num

section
variable {cost : CostAggregate} {night : NightSnapshot} {market : MarketSnapshot} (hc : cost.WellFormed)
  (hr : sumOfRates (allPercentageCosts cost) + cost.targetMargin < 1)
  (hn : night.Valid) (hb : night.blended = some market) (h : FloorsNonneg cost night) (days : ℤ)

include hr in
theorem nightArgs_denominator_pos : 0 < denominator (nightArgs cost market days) := by
  simp only [denominator, nightArgs]
  linarith

include hc hr hn hb h

theorem losRow_valid {n : ℕ+} (hn14 : n ≤ 14) :
    ∀ c ∈ (losRow (nightArgs cost market days) n).fieldChecks, c.holds = true := by
  have hs := nightArgs_marketSide hc (hn.blended market hb) days
  have h14 := losRow_minimum cost days market 14 ▸ h.los
  exact LosFloorCandidate.fieldChecks_iff.mpr
    ⟨h14.trans (losRow_minimum_anti hc.perBooking (nightArgs_denominator_pos hr days) hn14),
      MarketSide.suggested_nonneg (a := losArgs (nightArgs cost market days) n) { hs with },
      decisionComponents_nonempty _⟩

omit hr hb in
theorem channelRows_ok :
    ∃ channels, decidePriceByChannel (nightChannelArgs cost night days) = .ok channels ∧
      ∀ row ∈ channels, ∀ c ∈ row.fieldChecks, c.holds = true := by
  have hall : ∃ channels, decidePriceByChannel (nightChannelArgs cost night days) = .ok channels := by
    refine mapM_isOk.mpr fun ⟨platform, rate⟩ hm => ?_
    have hk : platform ∈ night.channels.keys := by
      rw [← Dict.keys_mapValues (·.avgNightlyRateEur)]
      exact List.mem_map_of_mem hm
    obtain ⟨commission, hcom, -⟩ := h.channels platform hk
    exact ⟨channelRow (nightChannelArgs cost night days) platform rate commission, by
      simp only [nightChannelArgs, hcom]⟩
  obtain ⟨channels, hok⟩ := hall
  refine ⟨channels, hok, fun row hrow => ?_⟩
  obtain ⟨platform, rate, commission, hm, hcom, rfl⟩ := (mem_byChannel hok).mp hrow
  have hget : (night.channels.mapValues (·.avgNightlyRateEur)).get? platform = some rate :=
    Dict.mem_entries.mp hm
  rw [Dict.get?_mapValues] at hget
  obtain ⟨snapshot, hsnap, rfl⟩ := Option.map_eq_some_iff.mp hget
  obtain ⟨commission', hcom', hfloor⟩ := h.channels platform (Dict.mem_keys.mpr ⟨snapshot, hsnap⟩)
  obtain rfl : commission' = commission := Option.some.inj (hcom'.symm.trans hcom)
  have hmem := channelCommissionPct_mem hcom'
  have hrate := (hn.channels platform snapshot hsnap).rate
  have hs := channelPriceArgs_marketSide hc night days hrate commission'
  refine ChannelPriceCandidate.fieldChecks_iff.mpr ⟨hmem.1, hrate, hmem.2,
    pyRound_nonneg hs.market_nonneg 2, ?_, hs.suggested_nonneg, decisionComponents_nonempty _⟩
  rw [channelRow_minimum]
  exact hfloor

omit days

theorem decisionRecord_valid (decisionId : String) {decidedAt : Instant}
    (targetDate : Date) {since : Option Date} (hsince : ∀ d ∈ since, d ≤ Instant.date decidedAt)
    {minimumStay : MinimumStayRecommendation}
    (hstay : (∀ r ∈ minimumStay.floorReliefEur, 0 ≤ r) ∧
      (∀ r ∈ minimumStay.costPerReservationEur, 0 ≤ r) ∧
      ∀ r ∈ minimumStay.suggestedPricePerReservationEur, 0 ≤ r)
    {channels : List ChannelPriceCandidate}
    (hchannels : ∀ row ∈ channels, ∀ c ∈ row.fieldChecks, c.holds = true) :
    (decisionRecord decisionId decidedAt cost market targetDate since minimumStay channels).Valid := by
  have hmv := hn.blended market hb
  have hs := nightArgs_marketSide hc hmv (targetDate - Instant.date decidedAt)
  have hrow : ∀ n ≤ (14 : ℕ+), _ := fun n hn14 =>
    losRow_valid hc hr hn hb h (targetDate - Instant.date decidedAt) hn14
  -- the row of one night is the candidate itself
  have hmin : 0 ≤ (decidePrice (nightArgs cost market (targetDate - Instant.date decidedAt))).minimumPriceEur :=
    (LosFloorCandidate.fieldChecks_iff.mp (hrow 1 (by decide))).1
  have hd : 0 < denominator (nightArgs cost market (targetDate - Instant.date decidedAt)) :=
    nightArgs_denominator_pos hr _
  have hber := breakEven_nonneg hc.targetMargin hd ((minimumPrice_nonneg_iff hd).mp hmin)
  have hp : sumOfRates (allPercentageCosts cost) ≤ 1 := by
    have := hc.targetMargin
    linarith
  have hbreach : 0 ≤ floorBreachDays (Instant.date decidedAt)
      (newFloorBreachSince (decidePrice (nightArgs cost market (targetDate - Instant.date decidedAt))).ruleApplied
        (Instant.date decidedAt) since) := by
    unfold newFloorBreachSince
    split
    · cases since with
      | none => exact (sub_self _).ge
      | some d => exact sub_nonneg.mpr (hsince d rfl)
    · exact le_rfl
  refine PriceDecisionRecord.valid_iff.mpr ⟨?_, ?_, ?_, ?_, (fun _ hm => nomatch hm), ?_, hchannels, ?_, ?_⟩
  · exact fun b hbm => ConceptAmount.fieldChecks_iff.mpr (hc.breakdown b hbm)
  · exact CostInputs.fieldChecks_iff.mpr ⟨hc.totalMonthly, hc.availableDays, hc.fixed, hc.variable',
      hc.perNight_nonneg, hc.perBooking, hc.p_nonneg, hp⟩
  · exact MarketInputs.fieldChecks_iff.mpr ⟨hmv.rate, hmv.occupancy, hmv.sample, le_max_left _ _⟩
  · intro row hm
    obtain ⟨n, hn', rfl⟩ := mem_losMatrix.mp hm
    have hle : ∀ n ∈ losCandidates, n ≤ 14 := by decide
    exact hrow n (hle n hn')
  · exact MinimumStayFields.fieldChecks_iff.mpr hstay
  · exact Calculation.fieldChecks_iff.mpr ⟨hc.targetMargin, hmin, hber, hmin,
      ⟨hc.commission, hc.commission_le⟩, ⟨hc.discount, hc.discount_le⟩, hc.factor,
      pyRound_nonneg hs.property_nonneg 2, pyRound_nonneg hs.market_nonneg 2, List.cons_ne_nil _ _,
      List.append_ne_nil_of_left_ne_nil (decisionComponents_nonempty _) _, hbreach, hc.version⟩
  · exact Output.fieldChecks_iff.mpr hs.suggested_nonneg

theorem buildPriceDecision_ok (decisionId : String) (decidedAt : Instant) (targetDate : Date)
    {since : Option Date} (hsince : ∀ d ∈ since, d ≤ Instant.date decidedAt) :
    ∃ r, buildPriceDecision decisionId decidedAt cost night targetDate since = .ok r := by
  obtain ⟨minimumStay, hstay, hbounds⟩ :=
    recommendFor_ok (nightArgs_marketSide hc (hn.blended market hb) (targetDate - Instant.date decidedAt))
      hc.perNight_nonneg hc.perBooking (nightArgs_denominator_pos hr _)
  obtain ⟨channels, hchannels, hrows⟩ :=
    channelRows_ok hc hn h (targetDate - Instant.date decidedAt)
  have hvalid := decisionRecord_valid hc hr hn hb h decisionId targetDate hsince hbounds hrows
  exact ⟨(⟨_, hvalid⟩, _), buildPriceDecision_eq_ok.mpr
    ⟨market, minimumStay, channels, hb, hstay, hchannels, rfl, rfl⟩⟩

end

theorem floorsNonneg_of_build {cost : CostAggregate} {night : NightSnapshot} {decisionId : String}
    {decidedAt : Instant} {targetDate : Date} {since : Option Date} {r : PriceDecision × Option Date}
    (h : buildPriceDecision decisionId decidedAt cost night targetDate since = .ok r) :
    FloorsNonneg cost night := by
  obtain ⟨d, since'⟩ := r
  obtain ⟨market, minimumStay, channels, hb, -, hchannels, hd, -⟩ := buildPriceDecision_eq_ok.mp h
  have hv := PriceDecisionRecord.valid_iff.mp (hd ▸ d.valid)
  refine ⟨?_, fun platform hk => ?_⟩
  · have hrow := hv.2.2.2.1 _ (mem_losMatrix.mpr ⟨14, by decide, rfl⟩)
    rw [← losRow_minimum cost (targetDate - Instant.date decidedAt) market]
    exact (LosFloorCandidate.fieldChecks_iff.mp hrow).1
  · rw [← Dict.keys_mapValues (·.avgNightlyRateEur)] at hk
    obtain ⟨⟨_, rate⟩, hm, rfl⟩ := List.mem_map.mp hk
    obtain ⟨y, hy⟩ := mapM_isOk.mp ⟨channels, hchannels⟩ _ hm
    dsimp only at hy
    split at hy
    · cases hy
    · rename_i commission hcom
      have hrow := (mem_byChannel hchannels).mpr ⟨_, rate, commission, hm, hcom, rfl⟩
      have hmin := (ChannelPriceCandidate.fieldChecks_iff.mp (hv.2.2.2.2.2.2.1 _ hrow)).2.2.2.2.1
      rw [channelRow_minimum] at hmin
      exact ⟨commission, hcom, hmin⟩

/-- On a well-formed aggregate whose rates leave a part of the price, the floors alone decide whether a
known night can be priced. -/
theorem buildPriceDecision_isOk_iff {cost : CostAggregate} {night : NightSnapshot} {market : MarketSnapshot}
    (hc : cost.WellFormed) (hr : sumOfRates (allPercentageCosts cost) + cost.targetMargin < 1)
    (hn : night.Valid) (hb : night.blended = some market) (decisionId : String) (decidedAt : Instant)
    (targetDate : Date) {since : Option Date} (hsince : ∀ d ∈ since, d ≤ Instant.date decidedAt) :
    (∃ r, buildPriceDecision decisionId decidedAt cost night targetDate since = .ok r) ↔
      FloorsNonneg cost night :=
  ⟨fun ⟨_, h⟩ => floorsNonneg_of_build h,
    fun h => buildPriceDecision_ok hc hr hn hb h decisionId decidedAt targetDate hsince⟩

end PriceEngine
