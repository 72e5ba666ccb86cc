import PriceEngine.EngineSound

/-!
# Pricing is monotone in its inputs

The rules are ordered by how far the floor decides: `RuleApplied.level` is
highest where the market does. A higher floor lowers the level, a higher
reference raises it (`applyGuardrails_level`), and the suggested price is the
larger of the two; so no branch boundary lets a higher cost lower the price.
-/

namespace PriceEngine

/-! ## Rules in order -/

/-- How much of the price the market decides. -/
def RuleApplied.level : RuleApplied → ℕ
  | .minimumProfitablePrice => 0
  | .minimumFloor => 1
  | .marketCompetitive => 2

theorem applyGuardrails_level {floor floor' market market' property property' : ℚ} (hfloor : floor' ≤ floor)
    (hmarket : market ≤ market') (hproperty : property ≤ property') :
    (applyGuardrails floor market property).ruleApplied.level ≤
      (applyGuardrails floor' market' property').ruleApplied.level := by
  unfold applyGuardrails
  by_cases hm : floor ≤ market
  · rw [if_pos hm, if_pos ((hfloor.trans hm).trans hmarket)]
  · rw [if_neg hm]
    by_cases hp : floor ≤ property
    · rw [if_pos hp]
      have hp' : floor' ≤ property' := (hfloor.trans hp).trans hproperty
      split_ifs
      · exact Nat.le_succ 1
      · exact le_rfl
    · rw [if_neg hp]
      exact Nat.zero_le _

/-! ## Two candidates -/

/-- The inputs the engine prices: market amounts are not negative, the discount is a part of the price
and the netting a part of the costs. -/
structure MonotoneDomain (a : PriceArgs) : Prop where
  rates : a.p + a.targetMargin < 1
  marketRate : 0 ≤ a.avgNightlyRateEur
  factor : 0 ≤ a.propertyAttributeFactor
  discount : 0 ≤ a.competitivenessDiscount
  discount_le : a.competitivenessDiscount ≤ 1
  netting : 0 ≤ a.nettingEur
  netting_le : a.nettingEur ≤ a.fixedAndAllocatedCostsPerNightEur + a.perBookingCostEur / (a.stayLength : ℕ)

structure SameMarketSide (a a' : PriceArgs) : Prop where
  marketRate : a'.avgNightlyRateEur = a.avgNightlyRateEur
  discount : a'.competitivenessDiscount = a.competitivenessDiscount
  factor : a'.propertyAttributeFactor = a.propertyAttributeFactor
  window : a'.daysToArrival = a.daysToArrival

structure SameCostSide (a a' : PriceArgs) : Prop where
  cost : a'.fixedAndAllocatedCostsPerNightEur = a.fixedAndAllocatedCostsPerNightEur
  perBooking : a'.perBookingCostEur = a.perBookingCostEur
  p : a'.p = a.p
  targetMargin : a'.targetMargin = a.targetMargin
  netting : a'.nettingEur = a.nettingEur

structure CostsRaised (a a' : PriceArgs) : Prop extends SameMarketSide a a' where
  cost : a.fixedAndAllocatedCostsPerNightEur ≤ a'.fixedAndAllocatedCostsPerNightEur
  perBooking : a.perBookingCostEur ≤ a'.perBookingCostEur
  p : a.p ≤ a'.p
  targetMargin : a.targetMargin ≤ a'.targetMargin
  netting : a'.nettingEur ≤ a.nettingEur

structure MarketRaised (a a' : PriceArgs) : Prop extends SameCostSide a a' where
  marketRate : a.avgNightlyRateEur ≤ a'.avgNightlyRateEur
  factor : a.propertyAttributeFactor ≤ a'.propertyAttributeFactor
  window : bookingWindowFactor a.daysToArrival ≤ bookingWindowFactor a'.daysToArrival
  discount : a'.competitivenessDiscount = a.competitivenessDiscount

structure DiscountRaised (a a' : PriceArgs) : Prop extends SameCostSide a a' where
  marketRate : a'.avgNightlyRateEur = a.avgNightlyRateEur
  factor : a'.propertyAttributeFactor = a.propertyAttributeFactor
  window : a'.daysToArrival = a.daysToArrival
  discount : a.competitivenessDiscount ≤ a'.competitivenessDiscount

theorem toRecover_mono {a a' : PriceArgs} (hstay : a'.stayLength = a.stayLength)
    (hc : a.fixedAndAllocatedCostsPerNightEur ≤ a'.fixedAndAllocatedCostsPerNightEur)
    (hb : a.perBookingCostEur ≤ a'.perBookingCostEur) (hk : a'.nettingEur ≤ a.nettingEur) :
    toRecover a ≤ toRecover a' := by
  have hn : (0 : ℚ) ≤ (a.stayLength : ℕ) := Nat.cast_nonneg _
  have hnight := div_le_div_of_nonneg_right hb hn
  unfold toRecover
  rw [hstay]
  linarith

theorem floor_mono {a a' : PriceArgs} (hcost : toRecover a ≤ toRecover a') (hnonneg : 0 ≤ toRecover a')
    (hpart : denominator a' ≤ denominator a) (hpos : 0 < denominator a') :
    (priceTerms a).profitableFloorEur ≤ (priceTerms a').profitableFloorEur := by
  rw [priceTerms_floor, priceTerms_floor]
  exact div_le_div₀ hnonneg hcost hpos hpart

theorem priceTerms_property (a : PriceArgs) : (priceTerms a).propertyReferencePriceEur =
    a.avgNightlyRateEur * a.propertyAttributeFactor *
      (performanceLayer * inventoryLayer * bookingWindowFactor a.daysToArrival) := rfl

theorem priceTerms_market (a : PriceArgs) : (priceTerms a).marketReferencePriceEur =
    (priceTerms a).propertyReferencePriceEur * (1 - a.competitivenessDiscount) := rfl

theorem decidePrice_ruleApplied (a : PriceArgs) : (decidePrice a).ruleApplied =
    (applyGuardrails (priceTerms a).profitableFloorEur (priceTerms a).marketReferencePriceEur
      (priceTerms a).propertyReferencePriceEur).ruleApplied := rfl

theorem suggested_mono {a a' : PriceArgs}
    (hfloor : (priceTerms a).profitableFloorEur ≤ (priceTerms a').profitableFloorEur)
    (hmarket : (priceTerms a).marketReferencePriceEur ≤ (priceTerms a').marketReferencePriceEur) :
    (priceTerms a).guardrails.suggestedPriceEur ≤ (priceTerms a').guardrails.suggestedPriceEur := by
  rw [priceTerms_suggested, priceTerms_suggested]
  exact max_le_max hfloor hmarket

section
variable {a a' : PriceArgs}

theorem SameMarketSide.property (h : SameMarketSide a a') :
    (priceTerms a').propertyReferencePriceEur = (priceTerms a).propertyReferencePriceEur := by
  rw [priceTerms_property, priceTerms_property, h.marketRate, h.factor, h.window]

theorem SameMarketSide.market (h : SameMarketSide a a') :
    (priceTerms a').marketReferencePriceEur = (priceTerms a).marketReferencePriceEur := by
  rw [priceTerms_market, priceTerms_market, h.property, h.discount]

theorem SameCostSide.floor (h : SameCostSide a a') (hstay : a'.stayLength = a.stayLength) :
    (priceTerms a').profitableFloorEur = (priceTerms a).profitableFloorEur ∧
      (priceTerms a').breakEvenRevenueEur = (priceTerms a).breakEvenRevenueEur := by
  simp only [priceTerms, h.cost, h.perBooking, h.p, h.targetMargin, h.netting, hstay, and_self]

theorem MonotoneDomain.property_nonneg (h : MonotoneDomain a) : 0 ≤ (priceTerms a).propertyReferencePriceEur :=
  priceTerms_property_nonneg h.marketRate h.factor

theorem MonotoneDomain.toRecover_nonneg (h : MonotoneDomain a) : 0 ≤ toRecover a := by
  have := h.netting_le
  unfold toRecover
  linarith

theorem MarketRaised.property (h : MarketRaised a a') (hd : MonotoneDomain a) :
    (priceTerms a).propertyReferencePriceEur ≤ (priceTerms a').propertyReferencePriceEur := by
  have hneutral : (0 : ℚ) ≤ performanceLayer * inventoryLayer := by decide +kernel
  rw [priceTerms_property, priceTerms_property]
  have hstructural : a.avgNightlyRateEur * a.propertyAttributeFactor ≤
      a'.avgNightlyRateEur * a'.propertyAttributeFactor :=
    mul_le_mul h.marketRate h.factor hd.factor (hd.marketRate.trans h.marketRate)
  refine mul_le_mul hstructural (mul_le_mul_of_nonneg_left h.window hneutral) ?_ ?_
  · exact mul_nonneg hneutral (bookingWindowFactor_pos _).le
  · exact (mul_nonneg hd.marketRate hd.factor).trans hstructural

theorem MarketRaised.market (h : MarketRaised a a') (hd : MonotoneDomain a) :
    (priceTerms a).marketReferencePriceEur ≤ (priceTerms a').marketReferencePriceEur := by
  rw [priceTerms_market, priceTerms_market, h.discount]
  exact mul_le_mul_of_nonneg_right (h.property hd) (sub_nonneg.mpr hd.discount_le)

theorem DiscountRaised.market (h : DiscountRaised a a') (hd : MonotoneDomain a) :
    (priceTerms a').marketReferencePriceEur ≤ (priceTerms a).marketReferencePriceEur := by
  have hproperty : (priceTerms a').propertyReferencePriceEur = (priceTerms a).propertyReferencePriceEur := by
    rw [priceTerms_property, priceTerms_property, h.marketRate, h.factor, h.window]
  rw [priceTerms_market, priceTerms_market, hproperty]
  exact mul_le_mul_of_nonneg_left (sub_le_sub_left h.discount 1) hd.property_nonneg

end

/-! ## The law -/

/-- Floor and suggested price of the second candidate are at least those of the first, unrounded and
published. -/
structure PriceRaised (a a' : PriceArgs) : Prop where
  floor : (priceTerms a).profitableFloorEur ≤ (priceTerms a').profitableFloorEur
  suggested : (priceTerms a).guardrails.suggestedPriceEur ≤ (priceTerms a').guardrails.suggestedPriceEur
  publishedFloor : (decidePrice a).minimumPriceEur ≤ (decidePrice a').minimumPriceEur
  publishedSuggested : (decidePrice a).suggestedPriceEur ≤ (decidePrice a').suggestedPriceEur

theorem priceRaised_of {a a' : PriceArgs}
    (hfloor : (priceTerms a).profitableFloorEur ≤ (priceTerms a').profitableFloorEur)
    (hmarket : (priceTerms a).marketReferencePriceEur ≤ (priceTerms a').marketReferencePriceEur) :
    PriceRaised a a' :=
  ⟨hfloor, suggested_mono hfloor hmarket, pyRound_mono hfloor 2, pyRound_mono (suggested_mono hfloor hmarket) 2⟩

structure SameFloor (a a' : PriceArgs) : Prop where
  floor : (priceTerms a').profitableFloorEur = (priceTerms a).profitableFloorEur
  breakEven : (priceTerms a').breakEvenRevenueEur = (priceTerms a).breakEvenRevenueEur
  policy : (decidePrice a').floorPolicy = (decidePrice a).floorPolicy
  publishedFloor : (decidePrice a').minimumPriceEur = (decidePrice a).minimumPriceEur
  publishedBreakEven : (decidePrice a').breakEvenRevenueEur = (decidePrice a).breakEvenRevenueEur

theorem sameFloor_of {a a' : PriceArgs} (h : SameCostSide a a') (hstay : a'.stayLength = a.stayLength) :
    SameFloor a a' := by
  obtain ⟨hfloor, hbreakEven⟩ := h.floor hstay
  exact ⟨hfloor, hbreakEven, congrArg floorPolicyFor h.targetMargin, congrArg (pyRound · 2) hfloor,
    congrArg (pyRound · 2) hbreakEven⟩

/-- No input moves the price against its own direction. -/
theorem pricing_monotone {a a' : PriceArgs} (h : MonotoneDomain a) (h' : MonotoneDomain a')
    (hstay : a'.stayLength = a.stayLength) :
    (CostsRaised a a' → PriceRaised a a' ∧
      (decidePrice a').ruleApplied.level ≤ (decidePrice a).ruleApplied.level) ∧
    (MarketRaised a a' → SameFloor a a' ∧ PriceRaised a a' ∧
      (decidePrice a).ruleApplied.level ≤ (decidePrice a').ruleApplied.level) ∧
    (DiscountRaised a a' → PriceRaised a' a) ∧
    ∀ days days', SameFloor { a with daysToArrival := days } { a with daysToArrival := days' } := by
  refine ⟨fun hraised => ?_, fun hraised => ?_, fun hraised => ?_, fun days days' => ?_⟩
  · have hpart : denominator a' ≤ denominator a := by
      have := hraised.p
      have := hraised.targetMargin
      unfold denominator
      linarith
    have hpos : 0 < denominator a' := by
      have := h'.rates
      unfold denominator
      linarith
    have hfloor := floor_mono (toRecover_mono hstay hraised.cost hraised.perBooking hraised.netting)
      h'.toRecover_nonneg hpart hpos
    have hmarket := hraised.toSameMarketSide.market
    refine ⟨priceRaised_of hfloor hmarket.ge, ?_⟩
    rw [decidePrice_ruleApplied, decidePrice_ruleApplied]
    exact applyGuardrails_level hfloor hmarket.le hraised.toSameMarketSide.property.le
  · have hsame := sameFloor_of hraised.toSameCostSide hstay
    refine ⟨hsame, priceRaised_of hsame.floor.ge (hraised.market h), ?_⟩
    rw [decidePrice_ruleApplied, decidePrice_ruleApplied]
    exact applyGuardrails_level hsame.floor.le (hraised.market h) (hraised.property h)
  · exact priceRaised_of (sameFloor_of hraised.toSameCostSide hstay).floor.le (hraised.market h)
  · exact sameFloor_of ⟨rfl, rfl, rfl, rfl, rfl⟩ rfl

def dearerNight : PriceArgs :=
  { standardNight with
    fixedAndAllocatedCostsPerNightEur := 70
    p := 20 / 100
    nettingEur := 1 }

theorem dearerNight_raised : PriceRaised standardNight dearerNight := by
  have h : MonotoneDomain standardNight := by constructor <;> decide +kernel
  have h' : MonotoneDomain dearerNight := by constructor <;> decide +kernel
  have hraised : CostsRaised standardNight dearerNight :=
    { toSameMarketSide := ⟨rfl, rfl, rfl, rfl⟩
      cost := by decide +kernel
      perBooking := le_rfl
      p := by decide +kernel
      targetMargin := le_rfl
      netting := by decide +kernel }
  exact ((pricing_monotone h h' rfl).1 hraised).1

end PriceEngine
