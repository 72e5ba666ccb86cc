import PriceEngine.StageBSound

/-!
# The rows of the channel matrix and the decision itself

A channel at the rate of the blended market and with the commission of the
owner is priced by the same engine at the same rates. The decision nets the
base of every percentage cost out of its floor, and the row of the channel that
of the commission alone.
-/

namespace PriceEngine

/-! ## The two paths -/

/-- The row is that of the decision, field by field, and the two subtract the same netting. -/
structure MatchesTopLevel (cost : CostAggregate) (d : PriceDecisionRecord) (row : ChannelPriceCandidate) : Prop where
  minimum : row.minimumPriceEur = d.calculation.minimumPriceEur
  market : row.marketReferencePriceEur = d.calculation.marketReferencePriceEur
  rule : row.ruleApplied = d.calculation.ruleApplied
  suggested : row.suggestedPriceEur = d.output.suggestedPriceEur
  margin : row.effectiveMargin = d.output.effectiveMargin
  netting : nettedBy cost row.commissionPct cost.commissionBase = nettingEur cost

/-- What the percentage costs other than the commission net out of the floor. -/
def othersNetting (cost : CostAggregate) : ℚ :=
  (cost.percentageCosts.map fun pc => pyRound (pc.rate * netOf cost pc) 2).sum

theorem nettingEur_eq (cost : CostAggregate) :
    nettingEur cost = othersNetting cost + nettedBy cost cost.commissionPct cost.commissionBase := by
  have hall : ((allPercentageCosts cost).map fun pc => pyRound (pc.rate * netOf cost pc) 2).sum =
      othersNetting cost + nettedBy cost cost.commissionPct cost.commissionBase := by
    rw [allPercentageCosts, List.map_append, List.sum_append, List.map_singleton, List.sum_singleton]
    rfl
  rw [nettingEur, ← hall]
  refine pyRound_sum_eq_self fun x hx => ?_
  obtain ⟨pc, -, rfl⟩ := List.mem_map.mp hx
  exact pyRound_pyRound _ 2

theorem othersNetting_eq_zero_iff {cost : CostAggregate}
    (h : ∀ pc ∈ cost.percentageCosts, 0 ≤ pc.rate * netOf cost pc) :
    othersNetting cost = 0 ↔ ∀ pc ∈ cost.percentageCosts, pc.rate * netOf cost pc ≤ 1 / 200 := by
  constructor
  · intro hzero pc hpc
    have hnonneg : ∀ x ∈ cost.percentageCosts.map fun pc => pyRound (pc.rate * netOf cost pc) 2, 0 ≤ x :=
      List.forall_mem_map.mpr fun pc hpc => pyRound_nonneg (h pc hpc) 2
    have hle := List.single_le_sum hnonneg _ (List.mem_map_of_mem hpc)
    have hround : pyRound (pc.rate * netOf cost pc) 2 = 0 :=
      le_antisymm (hle.trans hzero.le) (pyRound_nonneg (h pc hpc) 2)
    exact (pyRound_eq_zero_iff (h pc hpc)).mp hround
  · intro hsmall
    exact List.sum_eq_zero (List.forall_mem_map.mpr fun pc hpc => (pyRound_eq_zero_iff (h pc hpc)).mpr (hsmall pc hpc))

/-- The commission of a channel is an even number of hundredths of a percent, so it can be added before or after the
rounding. -/
theorem sumOfRates_commission {cost : CostAggregate} {platform : Platform}
    (h : channelCommissionPct platform = some cost.commissionPct) :
    sumOfRates (allPercentageCosts cost) = sumOfRates cost.percentageCosts + cost.commissionPct := by
  have heven : ∃ k : ℤ, cost.commissionPct = (2 * k : ℤ) / 10 ^ 4 := by
    cases platform with
    | airbnb => exact ⟨600, by rw [← Option.some.inj h]; norm_num⟩
    | booking => exact ⟨750, by rw [← Option.some.inj h]; norm_num⟩
    | vrbo => exact ⟨400, by rw [← Option.some.inj h]; norm_num⟩
    | mixed => cases h
  obtain ⟨k, hk⟩ := heven
  have hall : ((allPercentageCosts cost).map (·.rate)).sum =
      (cost.percentageCosts.map (·.rate)).sum + cost.commissionPct := by
    rw [allPercentageCosts, List.map_append, List.sum_append, List.map_singleton, List.sum_singleton]
  rw [sumOfRates, sumOfRates, hall, hk, pyRound_add_even]

def PriceCalculation.priced (c : PriceCalculation) : ℚ × ℚ × RuleApplied × ℚ × ℚ :=
  (c.minimumPriceEur, c.marketReferencePriceEur, c.ruleApplied, c.suggestedPriceEur, c.effectiveMargin)

theorem priced_congr {a b : PriceArgs} (h : priceTerms a = priceTerms b) :
    (decidePrice a).priced = (decidePrice b).priced := by
  simp only [PriceCalculation.priced, decidePrice, h]

section
variable {cost : CostAggregate} {night : NightSnapshot} {market : MarketSnapshot} {days : ℤ} {platform : Platform}

theorem channel_terms (hcommission : channelCommissionPct platform = some cost.commissionPct)
    (hothers : othersNetting cost = 0) :
    priceTerms (channelPriceArgs (nightChannelArgs cost night days) market.avgNightlyRateEur cost.commissionPct) =
      priceTerms (nightArgs cost market days) := by
  have hargs : channelPriceArgs (nightChannelArgs cost night days) market.avgNightlyRateEur cost.commissionPct =
      { nightArgs cost market days with propertyDecisionComponents := [], commissionDecisionComponents := [] } := by
    simp only [channelPriceArgs, nightArgs, nettingEur_eq, hothers, zero_add, sumOfRates_commission hcommission]
    rfl
  rw [hargs]
  rfl

end

section
variable {decisionId : String} {decidedAt : Instant} {cost : CostAggregate} {night : NightSnapshot}
variable {targetDate : Date} {since since' : Option Date} {d : PriceDecision}
variable (h : buildPriceDecision decisionId decidedAt cost night targetDate since = .ok (d, since'))
include h

/-- The rows are those of the channels of the night, and the decision is priced at the blended rate. -/
theorem decision_priced : ∃ market, night.blended = some market ∧ d.calculation.commissionPct = cost.commissionPct ∧
    d.marketInputs.avgNightlyRateEur = market.avgNightlyRateEur ∧
    (d.calculation.minimumPriceEur, d.calculation.marketReferencePriceEur, d.calculation.ruleApplied,
      d.output.suggestedPriceEur, d.output.effectiveMargin) =
        (decidePrice (nightArgs cost market d.calculation.daysToArrival)).priced ∧
    ∀ row, row ∈ d.calculation.channelPriceMatrix ↔ ∃ platform rate commission,
      (platform, rate) ∈ night.channelRatesEur.entries ∧ channelCommissionPct platform = some commission ∧
        row = channelRow (nightChannelArgs cost night d.calculation.daysToArrival) platform rate commission := by
  obtain ⟨market, minimumStay, channels, hblended, -, hchannels, hd, -⟩ := buildPriceDecision_eq_ok.mp h
  rw [hd]
  exact ⟨market, hblended, rfl, rfl, rfl, fun row => mem_byChannel hchannels⟩

/-- A channel at the rate of the market and with the commission of the owner is priced as the decision is exactly
if the other percentage costs net nothing, each of them no more than half a cent. -/
theorem channel_row_matches_iff {row : ChannelPriceCandidate} (hrow : row ∈ d.calculation.channelPriceMatrix)
    (hrate : row.avgNightlyRateEur = d.marketInputs.avgNightlyRateEur)
    (hcommission : row.commissionPct = d.calculation.commissionPct) :
    (MatchesTopLevel cost d.toPriceDecisionRecord row ↔ othersNetting cost = 0) ∧
    ((∀ pc ∈ cost.percentageCosts, 0 ≤ pc.rate * netOf cost pc) →
      (othersNetting cost = 0 ↔ ∀ pc ∈ cost.percentageCosts, pc.rate * netOf cost pc ≤ 1 / 200)) := by
  obtain ⟨market, -, hown, hmarket, htop, hrows⟩ := decision_priced h
  obtain ⟨platform, rate, commission, -, hplatform, rfl⟩ := (hrows row).mp hrow
  obtain rfl : commission = cost.commissionPct := Eq.trans hcommission hown
  obtain rfl : rate = market.avgNightlyRateEur := Eq.trans hrate hmarket
  refine ⟨⟨fun hmatches => ?_, fun hothers => ?_⟩, othersNetting_eq_zero_iff⟩
  · have hnetting := hmatches.netting
    rw [nettingEur_eq] at hnetting
    exact right_eq_add.mp hnetting
  · have hterms := @channel_terms cost night market d.calculation.daysToArrival platform hplatform hothers
    have hpriced := htop.trans (priced_congr hterms).symm
    simp only [PriceCalculation.priced, Prod.mk.injEq] at hpriced
    obtain ⟨hminimum, hmarket, hrule, hsuggested, hmargin⟩ := hpriced
    refine ⟨hminimum.symm, hmarket.symm, hrule.symm, hsuggested.symm, hmargin.symm, ?_⟩
    rw [nettingEur_eq, hothers, zero_add]
    rfl

end

/-! ## A fee on revenue after OTA costs -/

def sharedCost (percentageCosts : List PercentageCostComponent) : CostAggregate :=
  { flatCost "BCN-001" 0 with
    commissionPct := 12 / 100
    otaRelatedCostEur := 10
    percentageCosts := percentageCosts }

def airbnbNight : NightSnapshot :=
  { blended := some (snapshotOf (flatMarket none 0 0))
    channels := Dict.empty.put .airbnb (snapshotOf (flatMarket (some .airbnb) 0 0)) }

theorem airbnb_row (percentageCosts : List PercentageCostComponent)
    (hok : (buildPriceDecision "1" 0 (sharedCost percentageCosts) airbnbNight 719200 none).isOk) :
    ∃ d since' row, buildPriceDecision "1" 0 (sharedCost percentageCosts) airbnbNight 719200 none = .ok (d, since') ∧
      row ∈ d.calculation.channelPriceMatrix ∧ row.avgNightlyRateEur = d.marketInputs.avgNightlyRateEur ∧
      row.commissionPct = d.calculation.commissionPct := by
  cases hbuild : buildPriceDecision "1" 0 (sharedCost percentageCosts) airbnbNight 719200 none with
  | error e => rw [hbuild] at hok; cases hok
  | ok built =>
    obtain ⟨market, hblended, hown, hmarket, -, hrows⟩ := decision_priced hbuild
    obtain rfl := Option.some.inj hblended
    refine ⟨built.1, built.2, _, rfl, (hrows _).mpr ⟨.airbnb, 120, 12 / 100, List.mem_cons_self, rfl, rfl⟩, ?_, ?_⟩
    · exact hmarket.symm
    · exact hown.symm

theorem airbnb_matches : ∃ d since' row, buildPriceDecision "1" 0 (sharedCost []) airbnbNight 719200 none =
    .ok (d, since') ∧ row ∈ d.calculation.channelPriceMatrix ∧
      MatchesTopLevel (sharedCost []) d.toPriceDecisionRecord row := by
  obtain ⟨d, since', row, hbuild, hrow, hrate, hcommission⟩ := airbnb_row [] (by decide +kernel)
  exact ⟨d, since', row, hbuild, hrow, (channel_row_matches_iff hbuild hrow hrate hcommission).1.mpr rfl⟩

/-- A fee of 15 % nets 1.50 a night out of the floor of the decision, and nothing out of that of the channel. -/
theorem fee_netted_once : ¬ ∀ (decisionId : String) (decidedAt : Instant) (cost : CostAggregate) (night : NightSnapshot)
    (targetDate : Date) (since since' : Option Date) (d : PriceDecision),
    buildPriceDecision decisionId decidedAt cost night targetDate since = .ok (d, since') →
    ∀ row ∈ d.calculation.channelPriceMatrix, row.avgNightlyRateEur = d.marketInputs.avgNightlyRateEur →
      row.commissionPct = d.calculation.commissionPct → MatchesTopLevel cost d.toPriceDecisionRecord row := by
  intro hall
  obtain ⟨d, since', row, hbuild, hrow, hrate, hcommission⟩ :=
    airbnb_row [⟨.otaFee, 15 / 100, some .revenueMinusOta⟩] (by decide +kernel)
  have hnetting := (hall _ _ _ _ _ _ _ _ hbuild row hrow hrate hcommission).netting
  rw [nettingEur_eq, hcommission, (decision_priced hbuild).choose_spec.2.1] at hnetting
  have hothers := right_eq_add.mp hnetting
  revert hothers
  decide +kernel

end PriceEngine
