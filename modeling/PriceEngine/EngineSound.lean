import PriceEngine.Engine
import PriceEngine.Run

/-!
# What the engine's prices guarantee

The suggested price is the larger of the floor and the market reference, and
the floor recovers the costs together with the percentage rates and the margin
as long as these leave a part of the price (`p + m < 1`). Beyond that domain
the floor falls to zero or below and every candidate is labelled competitive.
-/

namespace PriceEngine

/-! ## Layers -/

theorem bookingWindowFactor_pos (daysToArrival : ℤ) : 0 < bookingWindowFactor daysToArrival := by
  have h : ∀ adjustment ∈ bookingWindowTiers.map (·.2.1), 0 < pyRound (1 + adjustment) 4 := by
    decide +kernel
  unfold bookingWindowFactor
  dsimp only
  cases hf : bookingWindowTiers.find? fun tier => tier.1 ≤ max daysToArrival 0 with
  | none => exact one_pos
  | some tier => exact h _ (List.mem_map_of_mem (List.mem_of_find?_eq_some hf))

theorem applyGuardrails_suggested (floor market property : ℚ) :
    (applyGuardrails floor market property).suggestedPriceEur = max floor market := by
  unfold applyGuardrails
  split_ifs with hm hp
  · exact (max_eq_right hm).symm
  · exact (max_eq_left (le_of_not_ge hm)).symm
  · exact (max_eq_left (le_of_not_ge hm)).symm

def ruleCondition (floor market property : ℚ) : RuleApplied → Prop
  | .marketCompetitive => floor ≤ market
  | .minimumFloor => market < floor ∧ floor ≤ property
  | .minimumProfitablePrice => property < floor

theorem ruleCondition_applyGuardrails (floor market property : ℚ) :
    ruleCondition floor market property (applyGuardrails floor market property).ruleApplied := by
  unfold applyGuardrails
  split_ifs with hm hp
  · exact hm
  · exact ⟨lt_of_not_ge hm, hp⟩
  · exact lt_of_not_ge hp

theorem ruleCondition_unique (floor : ℚ) {market property : ℚ} (h : market ≤ property) {r r' : RuleApplied}
    (hr : ruleCondition floor market property r) (hr' : ruleCondition floor market property r') :
    r = r' := by
  cases r <;> cases r' <;> simp only [ruleCondition] at hr hr' <;> first | rfl | (exfalso; linarith)

/-! ## The floor -/

/-- The amount a price has to recover after the percentage rates: cost per night less netting. -/
def toRecover (a : PriceArgs) : ℚ :=
  a.fixedAndAllocatedCostsPerNightEur + a.perBookingCostEur / (a.stayLength : ℕ) - a.nettingEur

def denominator (a : PriceArgs) : ℚ := 1 - a.p - a.targetMargin

theorem priceTerms_floor (a : PriceArgs) :
    (priceTerms a).profitableFloorEur = toRecover a / denominator a := by
  unfold priceTerms
  dsimp only
  split_ifs with h
  · rfl
  · rw [not_not] at h
    rw [denominator, h, div_zero]

theorem priceTerms_breakEven {a : PriceArgs} (h : a.p < 1) :
    (priceTerms a).breakEvenRevenueEur = toRecover a / (1 - a.p) :=
  if_pos h.ne

theorem priceTerms_suggested (a : PriceArgs) :
    (priceTerms a).guardrails.suggestedPriceEur =
      max (priceTerms a).profitableFloorEur (priceTerms a).marketReferencePriceEur :=
  applyGuardrails_suggested _ _ _

theorem perBooking_nonneg {a : PriceArgs} (h : 0 ≤ a.perBookingCostEur) :
    0 ≤ a.perBookingCostEur / (a.stayLength : ℕ) :=
  div_nonneg h (Nat.cast_nonneg _)

theorem priceTerms_property_nonneg {a : PriceArgs} (hr : 0 ≤ a.avgNightlyRateEur)
    (hf : 0 ≤ a.propertyAttributeFactor) : 0 ≤ (priceTerms a).propertyReferencePriceEur :=
  mul_nonneg (mul_nonneg hr hf) (mul_nonneg (by decide +kernel) (bookingWindowFactor_pos _).le)

/-! ## The profit guarantee -/

/-- The candidates the engine prices at a profit: the rates and the margin leave a part of the price. -/
structure Priceable (a : PriceArgs) : Prop where
  cost : 0 ≤ a.fixedAndAllocatedCostsPerNightEur
  perBooking : 0 ≤ a.perBookingCostEur
  p : 0 ≤ a.p
  targetMargin : 0 ≤ a.targetMargin
  rates : a.p + a.targetMargin < 1
  netting : 0 ≤ a.nettingEur
  netting_le : a.nettingEur ≤ a.fixedAndAllocatedCostsPerNightEur
  marketRate : 0 ≤ a.avgNightlyRateEur
  factor : 0 < a.propertyAttributeFactor
  discount : 0 ≤ a.competitivenessDiscount
  discount_le : a.competitivenessDiscount ≤ 1

structure ProfitGuaranteed (a : PriceArgs) (t : PriceTerms) : Prop where
  suggested_eq_max :
    t.guardrails.suggestedPriceEur = max t.profitableFloorEur t.marketReferencePriceEur
  recovers : a.fixedAndAllocatedCostsPerNightEur + a.perBookingCostEur / (a.stayLength : ℕ) - a.nettingEur ≤
    t.guardrails.suggestedPriceEur * (1 - a.p - a.targetMargin)
  breakEven_le_floor : t.breakEvenRevenueEur ≤ t.profitableFloorEur
  floor_le_suggested : t.profitableFloorEur ≤ t.guardrails.suggestedPriceEur
  rule_iff : ∀ rule, t.guardrails.ruleApplied = rule ↔
    ruleCondition t.profitableFloorEur t.marketReferencePriceEur t.propertyReferencePriceEur rule
  exactly_one : ∃! rule,
    ruleCondition t.profitableFloorEur t.marketReferencePriceEur t.propertyReferencePriceEur rule

section
variable {a : PriceArgs} (h : Priceable a)
include h

theorem Priceable.denominator_pos : 0 < denominator a := by
  have := h.rates
  unfold denominator
  linarith

theorem Priceable.toRecover_nonneg : 0 ≤ toRecover a := by
  have := perBooking_nonneg h.perBooking
  have := h.netting_le
  unfold toRecover
  linarith

theorem Priceable.property_nonneg : 0 ≤ (priceTerms a).propertyReferencePriceEur :=
  priceTerms_property_nonneg h.marketRate h.factor.le

theorem Priceable.market_le_property :
    (priceTerms a).marketReferencePriceEur ≤ (priceTerms a).propertyReferencePriceEur := by
  refine mul_le_of_le_one_right h.property_nonneg ?_
  have := h.discount
  linarith

theorem Priceable.breakEven_le_floor :
    (priceTerms a).breakEvenRevenueEur ≤ (priceTerms a).profitableFloorEur := by
  have hm := h.targetMargin
  have hr := h.rates
  rw [priceTerms_breakEven (by linarith), priceTerms_floor]
  refine div_le_div_of_nonneg_left h.toRecover_nonneg h.denominator_pos ?_
  unfold denominator
  linarith

theorem Priceable.recovers :
    toRecover a ≤ (priceTerms a).guardrails.suggestedPriceEur * denominator a := by
  have hle : (priceTerms a).profitableFloorEur ≤ (priceTerms a).guardrails.suggestedPriceEur := by
    rw [priceTerms_suggested]; exact le_max_left _ _
  calc toRecover a = (priceTerms a).profitableFloorEur * denominator a := by
        rw [priceTerms_floor, div_mul_cancel₀ _ h.denominator_pos.ne']
    _ ≤ (priceTerms a).guardrails.suggestedPriceEur * denominator a :=
        mul_le_mul_of_nonneg_right hle h.denominator_pos.le

theorem Priceable.profitGuaranteed : ProfitGuaranteed a (priceTerms a) := by
  have hrule := ruleCondition_applyGuardrails (priceTerms a).profitableFloorEur
    (priceTerms a).marketReferencePriceEur (priceTerms a).propertyReferencePriceEur
  refine ⟨priceTerms_suggested a, h.recovers, h.breakEven_le_floor, ?_, fun rule => ⟨?_, ?_⟩,
    ⟨_, hrule, fun r hr => ruleCondition_unique _ h.market_le_property hr hrule⟩⟩
  · rw [priceTerms_suggested]; exact le_max_left _ _
  · rintro rfl; exact hrule
  · exact fun hr => ruleCondition_unique _ h.market_le_property hrule hr

end

/-! ## Published amounts -/

def HalfCent (published exact : ℚ) : Prop := |published - exact| ≤ 1 / 200

theorem halfCent_pyRound (x : ℚ) : HalfCent (pyRound x 2) x := by
  have := abs_pyRound_sub_le x 2
  unfold HalfCent
  norm_num at this ⊢
  exact this

structure PublishedPrice (c : PriceCalculation) (t : PriceTerms) : Prop where
  minimum : HalfCent c.minimumPriceEur t.profitableFloorEur
  breakEven : HalfCent c.breakEvenRevenueEur t.breakEvenRevenueEur
  floor : HalfCent c.profitableFloorEur t.profitableFloorEur
  property : HalfCent c.propertyReferencePriceEur t.propertyReferencePriceEur
  market : HalfCent c.marketReferencePriceEur t.marketReferencePriceEur
  suggested : HalfCent c.suggestedPriceEur t.guardrails.suggestedPriceEur
  belowMarket : HalfCent c.belowMarketBy
    (t.propertyReferencePriceEur - t.guardrails.suggestedPriceEur)
  rule : c.ruleApplied = t.guardrails.ruleApplied

theorem decidePrice_published (a : PriceArgs) : PublishedPrice (decidePrice a) (priceTerms a) := by
  refine ⟨?_, ?_, ?_, ?_, ?_, ?_, ?_, rfl⟩ <;> exact halfCent_pyRound _

structure PublishedLosRow (c : LosFloorCandidate) (t : PriceTerms) : Prop where
  minimum : HalfCent c.minimumPriceEur t.profitableFloorEur
  suggested : HalfCent c.suggestedPriceEur t.guardrails.suggestedPriceEur
  rule : c.ruleApplied = t.guardrails.ruleApplied

structure PublishedChannelRow (c : ChannelPriceCandidate) (t : PriceTerms) : Prop where
  market : HalfCent c.marketReferencePriceEur t.marketReferencePriceEur
  minimum : HalfCent c.minimumPriceEur t.profitableFloorEur
  suggested : HalfCent c.suggestedPriceEur t.guardrails.suggestedPriceEur
  rule : c.ruleApplied = t.guardrails.ruleApplied

theorem mem_losMatrix {a : PriceArgs} {stayLengths : List ℕ+} {row : LosFloorCandidate} :
    row ∈ decidePriceLosMatrix a stayLengths ↔ ∃ n ∈ stayLengths, row = losRow a n := by
  simp only [decidePriceLosMatrix, List.mem_map, eq_comm]

theorem mem_byChannel {a : ChannelArgs} {rows : List ChannelPriceCandidate}
    (h : decidePriceByChannel a = .ok rows) {row : ChannelPriceCandidate} :
    row ∈ rows ↔ ∃ platform rate commission, (platform, rate) ∈ a.channelRatesEur.entries ∧
      a.channelCommissionPct platform = some commission ∧ row = channelRow a platform rate commission := by
  rw [mem_mapM h]
  refine ⟨?_, ?_⟩
  · intro ⟨⟨platform, rate⟩, hm, hrow⟩
    dsimp only at hrow
    split at hrow
    · cases hrow
    · exact ⟨platform, rate, _, hm, ‹_›, (Except.ok.inj hrow).symm⟩
  · intro hex
    obtain ⟨platform, rate, commission, hm, hc, rfl⟩ := hex
    exact ⟨(platform, rate), hm, by dsimp only; rw [hc]⟩

/-- Every candidate of the three entry points is priced at a profit and published to the cent. -/
theorem engine_profit_guaranteed :
    (∀ a, Priceable a →
      ProfitGuaranteed a (priceTerms a) ∧ PublishedPrice (decidePrice a) (priceTerms a)) ∧
    (∀ a stayLengths, Priceable a → ∀ row ∈ decidePriceLosMatrix a stayLengths,
      row.stayLength ∈ stayLengths ∧
      ProfitGuaranteed (losArgs a row.stayLength) (priceTerms (losArgs a row.stayLength)) ∧
      PublishedLosRow row (priceTerms (losArgs a row.stayLength))) ∧
    (∀ a rows, decidePriceByChannel a = .ok rows → ∀ row ∈ rows,
      Priceable (channelPriceArgs a row.avgNightlyRateEur row.commissionPct) →
      (row.platform, row.avgNightlyRateEur) ∈ a.channelRatesEur.entries ∧
      a.channelCommissionPct row.platform = some row.commissionPct ∧
      ProfitGuaranteed (channelPriceArgs a row.avgNightlyRateEur row.commissionPct)
        (priceTerms (channelPriceArgs a row.avgNightlyRateEur row.commissionPct)) ∧
      PublishedChannelRow row
        (priceTerms (channelPriceArgs a row.avgNightlyRateEur row.commissionPct))) := by
  refine ⟨fun a h => ⟨h.profitGuaranteed, decidePrice_published a⟩, fun a stayLengths h row hrow => ?_,
    fun a rows hok row hrow h => ?_⟩
  · obtain ⟨n, hn, rfl⟩ := mem_losMatrix.mp hrow
    have hp := decidePrice_published (losArgs a n)
    exact ⟨hn, Priceable.profitGuaranteed { h with }, hp.minimum, hp.suggested, hp.rule⟩
  · obtain ⟨platform, rate, commission, hm, hc, rfl⟩ := (mem_byChannel hok).mp hrow
    have hp := decidePrice_published (channelPriceArgs a rate commission)
    exact ⟨hm, hc, h.profitGuaranteed, hp.market, hp.minimum, hp.suggested, hp.rule⟩

def standardNight : PriceArgs :=
  { fixedAndAllocatedCostsPerNightEur := 40
    perBookingCostEur := 30
    p := 15 / 100
    targetMargin := 20 / 100
    avgNightlyRateEur := 120
    competitivenessDiscount := 5 / 100
    nettingEur := 2
    daysToArrival := 20 }

theorem standardNight_priceable : Priceable standardNight := by
  constructor <;> decide +kernel

def standardChannels : ChannelArgs :=
  { channelRatesEur := Dict.empty.put .airbnb 118
    fixedAndAllocatedCostsPerNightEur := 40
    perBookingCostEur := 30
    targetMargin := 20 / 100
    competitivenessDiscount := 5 / 100
    pOther := 3 / 100 }

theorem standardChannels_rows :
    decidePriceByChannel standardChannels = .ok [channelRow standardChannels .airbnb 118 (12 / 100)] :=
  rfl

theorem standardNight_profit_guaranteed :
    ProfitGuaranteed standardNight (priceTerms standardNight) ∧
    (∀ row ∈ decidePriceLosMatrix standardNight losCandidates, row.stayLength ∈ losCandidates) ∧
    ProfitGuaranteed (channelPriceArgs standardChannels 118 (12 / 100))
      (priceTerms (channelPriceArgs standardChannels 118 (12 / 100))) := by
  refine ⟨(engine_profit_guaranteed.1 _ standardNight_priceable).1, fun row hrow =>
    (engine_profit_guaranteed.2.1 _ _ standardNight_priceable row hrow).1, ?_⟩
  exact (engine_profit_guaranteed.2.2 _ _ standardChannels_rows _ (List.mem_cons_self ..)
    (by constructor <;> decide +kernel)).2.2.1

/-! ## Competitive prices -/

/-- Candidates over the whole domain of the rates, which nothing keeps below 1 in total. -/
structure Chargeable (a : PriceArgs) : Prop where
  cost : 0 < a.fixedAndAllocatedCostsPerNightEur
  perBooking : 0 ≤ a.perBookingCostEur
  p : 0 ≤ a.p
  targetMargin : 0 ≤ a.targetMargin
  targetMargin_lt : a.targetMargin < 1
  netting : 0 ≤ a.nettingEur
  netting_le : a.nettingEur ≤ a.fixedAndAllocatedCostsPerNightEur
  marketRate : 0 ≤ a.avgNightlyRateEur
  discount : 0 ≤ a.competitivenessDiscount
  discount_lt : a.competitivenessDiscount < 1

/-- A reported rule and floor are safe: a competitive price recovers the costs, and where no finite
price reaches the margin neither a competitive price nor a floor of zero or below is reported. -/
def NeverLoses (a : PriceArgs) (ruleApplied : RuleApplied) (minimumPriceEur : ℚ) : Prop :=
  (ruleApplied = .marketCompetitive →
    a.fixedAndAllocatedCostsPerNightEur + a.perBookingCostEur / (a.stayLength : ℕ) - a.nettingEur ≤
      (priceTerms a).guardrails.suggestedPriceEur * (1 - a.p)) ∧
  (1 ≤ a.p + a.targetMargin → ruleApplied ≠ .marketCompetitive ∧ 0 < minimumPriceEur)

theorem Chargeable.toRecover_nonneg {a : PriceArgs} (h : Chargeable a) : 0 ≤ toRecover a := by
  have := perBooking_nonneg h.perBooking
  have := h.netting_le
  unfold toRecover
  linarith

/-- With `p + m ≥ 1` the floor is reported as zero or below. -/
theorem Chargeable.minimumPrice_nonpos {a : PriceArgs} (h : Chargeable a)
    (hr : 1 ≤ a.p + a.targetMargin) : (decidePrice a).minimumPriceEur ≤ 0 := by
  have hd : denominator a ≤ 0 := by unfold denominator; linarith
  have hf : (priceTerms a).profitableFloorEur ≤ 0 := by
    rw [priceTerms_floor]
    exact div_nonpos_of_nonneg_of_nonpos h.toRecover_nonneg hd
  have := pyRound_mono hf 2
  rwa [pyRound_zero] at this

theorem Chargeable.competitive_recovers {a : PriceArgs} (h : Chargeable a)
    (hr : a.p + a.targetMargin < 1) :
    toRecover a ≤ (priceTerms a).guardrails.suggestedPriceEur * (1 - a.p) := by
  have hd : 0 < denominator a := by unfold denominator; linarith
  have hle : (priceTerms a).profitableFloorEur ≤ (priceTerms a).guardrails.suggestedPriceEur := by
    rw [priceTerms_suggested]; exact le_max_left _ _
  have hfloor : 0 ≤ (priceTerms a).profitableFloorEur := by
    rw [priceTerms_floor]; exact div_nonneg h.toRecover_nonneg hd.le
  calc toRecover a = (priceTerms a).profitableFloorEur * denominator a := by
        rw [priceTerms_floor, div_mul_cancel₀ _ hd.ne']
    _ ≤ (priceTerms a).profitableFloorEur * (1 - a.p) := by
        refine mul_le_mul_of_nonneg_left ?_ hfloor
        have := h.targetMargin
        unfold denominator
        linarith
    _ ≤ (priceTerms a).guardrails.suggestedPriceEur * (1 - a.p) := by
        refine mul_le_mul_of_nonneg_right hle ?_
        have := h.targetMargin
        linarith

theorem Chargeable.neverLoses_iff {a : PriceArgs} (h : Chargeable a) :
    NeverLoses a (decidePrice a).ruleApplied (decidePrice a).minimumPriceEur ↔
      a.p + a.targetMargin < 1 := by
  refine ⟨fun hn => ?_, fun hr => ⟨fun _ => h.competitive_recovers hr, fun hr' => ?_⟩⟩
  · by_contra hr
    have hr := not_lt.mp hr
    exact absurd (hn.2 hr).2 (not_lt.mpr (h.minimumPrice_nonpos hr))
  · exact absurd hr (not_lt.mpr hr')

/-- No entry point sells at a loss as competitive exactly when the rates and the margin leave a part
of the price: `p + m < 1`, with each channel's own commission in `p`. -/
theorem neverLoses_iff_rates_lt_one {a : PriceArgs} (h : Chargeable a) (stayLengths : List ℕ+)
    {c : ChannelArgs} {rows : List ChannelPriceCandidate} (hok : decidePriceByChannel c = .ok rows)
    (hc : ∀ row ∈ rows, Chargeable (channelPriceArgs c row.avgNightlyRateEur row.commissionPct)) :
    (NeverLoses a (decidePrice a).ruleApplied (decidePrice a).minimumPriceEur ↔
      a.p + a.targetMargin < 1) ∧
    ((∀ row ∈ decidePriceLosMatrix a stayLengths,
        NeverLoses (losArgs a row.stayLength) row.ruleApplied row.minimumPriceEur) ↔
      stayLengths = [] ∨ a.p + a.targetMargin < 1) ∧
    ((∀ row ∈ rows, NeverLoses (channelPriceArgs c row.avgNightlyRateEur row.commissionPct)
        row.ruleApplied row.minimumPriceEur) ↔
      ∀ platform ∈ c.channelRatesEur.keys, ∀ commission,
        c.channelCommissionPct platform = some commission →
        c.pOther + commission + c.targetMargin < 1) := by
  have hrow : ∀ n, NeverLoses (losArgs a n) (losRow a n).ruleApplied (losRow a n).minimumPriceEur ↔
      a.p + a.targetMargin < 1 := fun n => Chargeable.neverLoses_iff (a := losArgs a n) { h with }
  refine ⟨h.neverLoses_iff, ⟨fun hall => ?_, ?_⟩, ⟨fun hall platform hp commission hcom => ?_,
    fun hall row hm => ?_⟩⟩
  · cases stayLengths with
    | nil => exact Or.inl rfl
    | cons n ns => exact Or.inr ((hrow n).mp (hall _ (List.mem_cons_self ..)))
  · rintro (rfl | hr) row hm
    · cases hm
    · obtain ⟨n, -, rfl⟩ := mem_losMatrix.mp hm
      exact (hrow n).mpr hr
  · obtain ⟨⟨_, rate⟩, hm, rfl⟩ := List.mem_map.mp hp
    have hchannel := (mem_byChannel hok).mpr ⟨_, rate, commission, hm, hcom, rfl⟩
    exact (Chargeable.neverLoses_iff (hc _ hchannel)).mp (hall _ hchannel)
  · obtain ⟨platform, rate, commission, he, hcom, rfl⟩ := (mem_byChannel hok).mp hm
    exact (Chargeable.neverLoses_iff (hc _ hm)).mpr (hall platform (List.mem_map_of_mem he) commission hcom)

def overchargedNight : PriceArgs :=
  { fixedAndAllocatedCostsPerNightEur := 100
    perBookingCostEur := 0
    p := 90 / 100
    targetMargin := 20 / 100
    avgNightlyRateEur := 120
    competitivenessDiscount := 5 / 100 }

/-- Rates of 90 % and a margin of 20 %: sold as competitive for 114 EUR, of which 11.40 EUR remain
against a cost of 100 EUR. -/
theorem overchargedNight_loses :
    ¬ ∀ a, Chargeable a → NeverLoses a (decidePrice a).ruleApplied (decidePrice a).minimumPriceEur := by
  intro h
  have hn := h overchargedNight (by constructor <;> decide +kernel)
  exact absurd (hn.1 (by decide +kernel)) (by decide +kernel)

theorem standardNight_never_loses :
    NeverLoses standardNight (decidePrice standardNight).ruleApplied
      (decidePrice standardNight).minimumPriceEur ∧
    (∀ row ∈ decidePriceLosMatrix standardNight losCandidates,
      NeverLoses (losArgs standardNight row.stayLength) row.ruleApplied row.minimumPriceEur) ∧
    (∀ row ∈ [channelRow standardChannels .airbnb 118 (12 / 100)],
      NeverLoses (channelPriceArgs standardChannels row.avgNightlyRateEur row.commissionPct)
        row.ruleApplied row.minimumPriceEur) := by
  have h : Chargeable standardNight := by constructor <;> decide +kernel
  have hc : ∀ row ∈ [channelRow standardChannels .airbnb 118 (12 / 100)],
      Chargeable (channelPriceArgs standardChannels row.avgNightlyRateEur row.commissionPct) := by
    intro row hrow
    rw [List.mem_singleton.mp hrow]
    constructor <;> decide +kernel
  obtain ⟨hnight, hlos, hchannel⟩ :=
    neverLoses_iff_rates_lt_one h losCandidates standardChannels_rows hc
  refine ⟨hnight.mpr (by decide +kernel), hlos.mpr (Or.inr (by decide +kernel)),
    hchannel.mpr fun platform hp commission hcom => ?_⟩
  obtain rfl : platform = .airbnb := by
    simpa [standardChannels, Dict.keys, Dict.put, Dict.empty, Dict.get?] using hp
  obtain rfl := Option.some.inj hcom
  decide +kernel

end PriceEngine
