import PriceEngine.MinimumStay
import PriceEngine.Reproducibility

/-!
# The explanation adds up

The components of a decision are its property attributes, the netted bases, the
booking window, the rule and the minimum stay, in this order; `explaining`
picks one kind. The impacts of each kind make up the figure they explain: the
factor less one, the netting, the factor of the window, the gap between the two
published prices that decided the rule, and what a longer stay relieves.
-/

namespace PriceEngine

/-! ## The attributes -/

theorem ratingImpact_bounds {rating : ℚ} (hge : 1 ≤ rating) (hle : rating ≤ 5) :
    -(3 / 10) ≤ pyRound ((rating - ratingBaseline) * ratingWeight) 4 ∧
      pyRound ((rating - ratingBaseline) * ratingWeight) 4 ≤ 1 / 10 := by
  have hlow : -(3 / 10) ≤ (rating - ratingBaseline) * ratingWeight := by
    unfold ratingBaseline ratingWeight
    linarith
  have hhigh : (rating - ratingBaseline) * ratingWeight ≤ 1 / 10 := by
    unfold ratingBaseline ratingWeight
    linarith
  have hlow' : pyRound (-(3 / 10)) 4 = -(3 / 10) := by decide +kernel
  have hhigh' : pyRound (1 / 10) 4 = 1 / 10 := by decide +kernel
  exact ⟨hlow' ▸ pyRound_mono hlow 4, hhigh' ▸ pyRound_mono hhigh 4⟩

/-- Within the ratings the clamp of the factor never acts, and its parts have four decimals. -/
theorem propertyAttributeFactor_eq (tier : QualityTier) {rating : ℚ} (hge : 1 ≤ rating) (hle : rating ≤ 5)
    (hasView hasParking : Bool) : propertyAttributeFactor tier rating hasView hasParking =
      1 + totalImpact (propertyAttributeComponents tier rating hasView hasParking) := by
  have hsum : totalImpact (propertyAttributeComponents tier rating hasView hasParking) =
      qualityTierAdjustments tier + (pyRound ((rating - ratingBaseline) * ratingWeight) 4 +
        ((if hasView then viewAdjustment else 0) + (if hasParking then parkingAdjustment else 0))) := by
    simp [totalImpact, propertyAttributeComponents]
  obtain ⟨hlow, hhigh⟩ := ratingImpact_bounds hge hle
  have htier : -(15 / 100) ≤ qualityTierAdjustments tier ∧ qualityTierAdjustments tier ≤ 30 / 100 ∧
      pyRound (qualityTierAdjustments tier) 4 = qualityTierAdjustments tier := by
    cases tier <;> decide +kernel
  have hextras : ∀ view parking : Bool, 0 ≤ (if view then viewAdjustment else 0) +
      (if parking then parkingAdjustment else 0) ∧ (if view then viewAdjustment else 0) +
      (if parking then parkingAdjustment else 0) ≤ 9 / 100 ∧
      pyRound ((if view then viewAdjustment else 0) + (if parking then parkingAdjustment else 0)) 4 =
        (if view then viewAdjustment else 0) + (if parking then parkingAdjustment else 0) := by
    decide +kernel
  obtain ⟨hzero, hnine, hround⟩ := hextras hasView hasParking
  change pyRound (min (max (1 + totalImpact _) minFactor) maxFactor) 4 = _
  rw [hsum]
  have hmin : minFactor = 1 / 2 := by decide +kernel
  have hmax : maxFactor = 2 := rfl
  rw [max_eq_left (by rw [hmin]; linarith [htier.1]), min_eq_left (by rw [hmax]; linarith [htier.2.1])]
  refine pyRound_add_eq_self (by decide +kernel) (pyRound_add_eq_self htier.2.2 ?_)
  exact pyRound_add_eq_self (pyRound_pyRound _ _) hround

/-! ## The netted bases -/

/-- One component for each base that is netted, with the rounded amount as its impact. -/
theorem nettingComponents_impacts (cost : CostAggregate) : (nettingComponents cost).map (·.impact) =
    ((allPercentageCosts cost).filter fun pc => 0 < netOf cost pc).map
      fun pc => -pyRound (pc.rate * netOf cost pc) 2 := by
  unfold nettingComponents
  induction allPercentageCosts cost with
  | nil => rfl
  | cons pc pcs ih =>
    by_cases hnet : netOf cost pc ≤ 0
    · have hnone : revenueBaseNettingComponent (pc.revenueBase.getD .totalRevenue) pc.rate (netOf cost pc) = none :=
        if_pos hnet
      simp only [List.filterMap_cons, hnone]
      rw [List.filter_cons_of_neg (by simpa using hnet), ih]
    · have hsome : revenueBaseNettingComponent (pc.revenueBase.getD .totalRevenue) pc.rate (netOf cost pc) =
          some _ := if_neg hnet
      simp only [List.filterMap_cons, hsome]
      rw [List.filter_cons_of_pos (by simpa using hnet), List.map_cons, List.map_cons, ih]

theorem totalImpact_netting {cost : CostAggregate} (h : cost.Auditable) :
    totalImpact (nettingComponents cost) = -nettingEur cost := by
  have hall : (nettingComponents cost).filter isNetting = nettingComponents cost := by
    refine List.filter_eq_self.mpr fun c hc => ?_
    obtain ⟨pc, -, hpc⟩ := List.mem_filterMap.mp hc
    have hexplains := revenueBaseNettingComponent_explains c hpc
    unfold isNetting
    cases hcode : c.code <;> rw [hcode] at hexplains <;> first | rfl | cases hexplains
  have hpublished := published_nettingComponents h
  rw [publishedNettingEur, hall] at hpublished
  rw [← hpublished, neg_neg]
  rfl

/-! ## The booking window -/

theorem bookingWindow_explained (days : ℤ) :
    (bookingWindowComponent days = none ↔ bookingWindowFactor days = 1) ∧
    ∀ c ∈ bookingWindowComponent days, c.impact = bookingWindowFactor days - 1 := by
  have htiers : ∀ tier ∈ bookingWindowTiers, (tier.2.1 = 0 ↔ pyRound (1 + tier.2.1) 4 = 1) ∧
      tier.2.1 = pyRound (1 + tier.2.1) 4 - 1 ∧ (tier.2.1 ≠ 0 → tier.2.2.code ≠ none) := by
    decide +kernel
  unfold bookingWindowComponent bookingWindowFactor
  dsimp only
  cases hfind : bookingWindowTiers.find? fun tier => tier.1 ≤ max days 0 with
  | none => exact ⟨⟨fun _ => rfl, fun _ => rfl⟩, fun c hc => nomatch hc⟩
  | some tier =>
    obtain ⟨hneutral, himpact, hcode⟩ := htiers tier (List.mem_of_find?_eq_some hfind)
    obtain ⟨threshold, adjustment, window⟩ := tier
    dsimp only at hneutral himpact hcode ⊢
    by_cases hzero : adjustment = 0
    · rw [if_pos hzero]
      exact ⟨⟨fun _ => hneutral.mp hzero, fun _ => rfl⟩, fun c hc => nomatch hc⟩
    · rw [if_neg hzero]
      refine ⟨⟨fun hnone => ?_, fun hone => absurd (hneutral.mpr hone) hzero⟩, fun c hc => ?_⟩
      · exact absurd (Option.map_eq_none_iff.mp hnone) (hcode hzero)
      · obtain ⟨code, -, rfl⟩ := Option.map_eq_some_iff.mp hc
        exact himpact

/-! ## The rule -/

/-- The difference of the two published prices that decided the rule. -/
def decidingGap (rule : RuleApplied) (minimum market property : ℚ) : ℚ :=
  match rule with
  | .marketCompetitive => market - minimum
  | .minimumFloor => minimum - market
  | .minimumProfitablePrice => minimum - property

theorem ruleComponent_gap (a : PriceArgs) : (priceTerms a).guardrails.ruleComponent.impact =
    decidingGap (decidePrice a).ruleApplied (decidePrice a).minimumPriceEur (decidePrice a).marketReferencePriceEur
      (decidePrice a).propertyReferencePriceEur := by
  have himpact : ∀ rule (x y z : ℚ), (ruleDecisionComponent rule (pyRound x 2) (pyRound y 2) (pyRound z 2)).impact =
      decidingGap rule (pyRound x 2) (pyRound y 2) (pyRound z 2) := by
    intro rule x y z
    cases rule <;> exact pyRound_sub_eq_self (pyRound_pyRound _ _) (pyRound_pyRound _ _)
  exact himpact _ _ _ _

theorem ruleComponent_code (a : PriceArgs) :
    (priceTerms a).guardrails.ruleComponent.code = ruleCode (decidePrice a).ruleApplied :=
  ruleDecisionComponent_code _ _ _ _

/-! ## The minimum stay -/

/-- The relief of the recommended length, or the gap that the longest row leaves. -/
theorem recommendFor_explained {a : PriceArgs} {m : MinimumStayRecommendation} (h : recommendFor a = .ok m) :
    (m.decisionComponent = none ↔ (losRow a 1).ruleApplied ≠ .minimumProfitablePrice) ∧
    ∀ c ∈ m.decisionComponent,
      (c.code = .minimumStayRecommended ∧ m.floorReliefEur = some c.impact) ∨
      (c.code = .minimumStayNotViable ∧ m.floorReliefEur = none ∧
        c.impact = (losRow a 14).minimumPriceEur - (decidePrice a).propertyReferencePriceEur) := by
  unfold recommendFor recommendMinimumStay at h
  rw [losMatrix_sorted] at h
  dsimp only at h
  split at h
  · rename_i hrule
    rw [← Except.ok.inj h]
    exact ⟨⟨fun _ => hrule, fun _ => rfl⟩, fun c hc => nomatch hc⟩
  · rename_i hrule
    split at h
    · rw [← Except.ok.inj h]
      refine ⟨⟨fun hnone => (nomatch hnone), fun hother => absurd hother hrule⟩, fun c hc => Or.inl ?_⟩
      rw [← Option.some.inj hc]
      exact ⟨rfl, rfl⟩
    · rw [← Except.ok.inj h]
      refine ⟨⟨fun hnone => (nomatch hnone), fun hother => absurd hother hrule⟩, fun c hc => Or.inr ?_⟩
      rw [← Option.some.inj hc]
      exact ⟨rfl, rfl, pyRound_sub_eq_self (pyRound_pyRound _ _) (pyRound_pyRound _ _)⟩

/-! ## The decision -/

/-- What Stage A writes for the attributes of an apartment rated from 1 to 5, and its netted sub-totals;
the percentage costs and the commission are any. -/
structure FromStageA (cost : CostAggregate) (profile : PropertyPricingProfile) : Prop where
  rating_ge : 1 ≤ profile.rating
  rating_le : profile.rating ≤ 5
  factor : cost.propertyAttributeFactor =
    propertyAttributeFactor profile.qualityTier profile.rating profile.hasView profile.hasParking
  components : cost.propertyDecisionComponents =
    propertyAttributeComponents profile.qualityTier profile.rating profile.hasView profile.hasParking
  ota : 0 ≤ cost.otaRelatedCostEur
  cleaning : 0 ≤ cost.cleaningCostEur
  laundry : 0 ≤ cost.laundryCostEur
  bookingScope : 0 ≤ cost.bookingScopeCostEur

theorem FromStageA.auditable {cost : CostAggregate} {profile : PropertyPricingProfile}
    (h : FromStageA cost profile) : cost.Auditable where
  ota := h.ota
  cleaning := h.cleaning
  laundry := h.laundry
  bookingScope := h.bookingScope
  attributes := fun c hc => by
    rw [h.components] at hc
    exact isNetting_eq_false (propertyAttributeComponents_explain _ _ _ _ c hc) (by decide)

theorem enrichedAggregates_fromStageA {cost : CostAggregate} {profile : PropertyPricingProfile}
    (h : FromStageA cost profile) (bookings : List BookingRow) (company : CompanyCostEnrichment)
    (owner : OwnerContractEnrichment) : ∀ c ∈ enrichedAggregates bookings company owner cost, FromStageA c profile := by
  intro c hc
  obtain ⟨hota, hcleaning, hlaundry, hbooking, hfactor, hcomponents⟩ := enrichedAggregates_keep hc
  exact
    { rating_ge := h.rating_ge
      rating_le := h.rating_le
      factor := hfactor.trans h.factor
      components := hcomponents.trans h.components
      ota := hota ▸ h.ota
      cleaning := hcleaning ▸ h.cleaning
      laundry := hlaundry ▸ h.laundry
      bookingScope := hbooking ▸ h.bookingScope }

/-- What the cost stages hand to Stage B is of this form, whatever they add to it. -/
theorem PricingInput.Admissible.fromStageA {i : PricingInput} (h : i.Admissible) (hge : 1 ≤ i.profile.rating)
    (hle : i.profile.rating ≤ 5) {cost : CostAggregate} (hr : i.Reaches cost) : FromStageA cost i.profile := by
  obtain ⟨aggregation, ha, hc⟩ := hr
  obtain ⟨first, -, rfl⟩ := aggregateCost_eq_some ha
  have hlines := fun line (hl : line ∈ i.lines.filter fun line =>
    line.billingPeriodEnd == first.billingPeriodEnd) => h.lines line (List.mem_of_mem_filter hl)
  refine enrichedAggregates_fromStageA ?_ i.bookings i.company i.owner cost hc
  exact
    { rating_ge := hge
      rating_le := hle
      factor := rfl
      components := rfl
      ota := aggregatePeriod_netted hlines _
      cleaning := aggregatePeriod_netted hlines _
      laundry := aggregatePeriod_netted hlines _
      bookingScope := aggregatePeriod_netted hlines _ }

structure Explained (cost : CostAggregate) (d : PriceDecisionRecord) : Prop where
  property : totalImpact (explaining .property d.calculation.decisionComponents) =
    d.calculation.propertyAttributeFactor - 1
  netting : totalImpact (explaining .netting d.calculation.decisionComponents) = -nettingEur cost
  nettingBases : (explaining .netting d.calculation.decisionComponents).map (·.impact) =
    ((allPercentageCosts cost).filter fun pc => 0 < netOf cost pc).map fun pc => -pyRound (pc.rate * netOf cost pc) 2
  rule : ∃ c, explaining .rule d.calculation.decisionComponents = [c] ∧
    c.code = ruleCode d.calculation.ruleApplied ∧
    c.impact = decidingGap d.calculation.ruleApplied d.calculation.minimumPriceEur
      d.calculation.marketReferencePriceEur d.calculation.propertyReferencePriceEur
  window : explaining .window d.calculation.decisionComponents = [] ↔
    bookingWindowFactor d.calculation.daysToArrival = 1
  windowImpact : ∀ c ∈ explaining .window d.calculation.decisionComponents,
    explaining .window d.calculation.decisionComponents = [c] ∧
    c.impact = bookingWindowFactor d.calculation.daysToArrival - 1
  minimumStay : ∃ night ∈ d.calculation.losFloorMatrix, night.stayLength = 1 ∧
    (explaining .minimumStay d.calculation.decisionComponents ≠ [] ↔ night.ruleApplied = .minimumProfitablePrice)
  minimumStayImpact : ∀ c ∈ explaining .minimumStay d.calculation.decisionComponents,
    explaining .minimumStay d.calculation.decisionComponents = [c] ∧
    (d.calculation.minimumStayRecommendation.floorReliefEur = some c.impact ∨
      ∃ longest ∈ d.calculation.losFloorMatrix,
        (∀ row ∈ d.calculation.losFloorMatrix, row.stayLength ≤ longest.stayLength) ∧
        c.impact = longest.minimumPriceEur - d.calculation.propertyReferencePriceEur)

/-- Each kind picks its own part of the list. -/
theorem explaining_parts {property netting : List DecisionComponent} {window stay : Option DecisionComponent}
    {rule : DecisionComponent} (hproperty : ∀ c ∈ property, c.code.explains = .property)
    (hnetting : ∀ c ∈ netting, c.code.explains = .netting) (hwindow : ∀ c ∈ window, c.code.explains = .window)
    (hrule : rule.code.explains = .rule) (hstay : ∀ c ∈ stay, c.code.explains = .minimumStay) :
    let components := property ++ netting ++ window.toList ++ [rule] ++ stay.toList
    explaining .property components = property ∧ explaining .netting components = netting ∧
      explaining .window components = window.toList ∧ explaining .rule components = [rule] ∧
      explaining .minimumStay components = stay.toList := by
  have hwindow' : ∀ c ∈ window.toList, c.code.explains = .window := fun c hc => hwindow c (Option.mem_toList.mp hc)
  have hrule' : ∀ c ∈ [rule], c.code.explains = .rule := List.forall_mem_singleton.mpr hrule
  have hstay' : ∀ c ∈ stay.toList, c.code.explains = .minimumStay := fun c hc => hstay c (Option.mem_toList.mp hc)
  intro components
  refine ⟨?_, ?_, ?_, ?_, ?_⟩ <;>
    simp only [components, explaining_append, explaining_eq_ite hproperty, explaining_eq_ite hnetting,
      explaining_eq_ite hwindow', explaining_eq_ite hrule', explaining_eq_ite hstay', if_true, reduceCtorEq,
      if_false, List.append_nil, List.nil_append]

theorem nettingComponents_explain (cost : CostAggregate) : ∀ c ∈ nettingComponents cost, c.code.explains = .netting := by
  intro c hc
  obtain ⟨pc, -, hpc⟩ := List.mem_filterMap.mp hc
  exact revenueBaseNettingComponent_explains c hpc

theorem toList_eq_singleton {α : Type*} {o : Option α} {x : α} (h : x ∈ o.toList) : o.toList = [x] := by
  rw [Option.mem_toList] at h
  rw [h]
  rfl

/-- Every component of a decision accounts for the figure it explains. -/
theorem decision_explained {decisionId : String} {decidedAt : Instant} {cost : CostAggregate}
    {night : NightSnapshot} {targetDate : Date} {since since' : Option Date} {d : PriceDecision}
    {profile : PropertyPricingProfile} (hcost : FromStageA cost profile)
    (h : buildPriceDecision decisionId decidedAt cost night targetDate since = .ok (d, since')) :
    Explained cost d.toPriceDecisionRecord := by
  obtain ⟨market, m, channels, -, hstay, -, hd, -⟩ := buildPriceDecision_eq_ok.mp h
  let days := targetDate - Instant.date decidedAt
  let a := nightArgs cost market days
  have hattributes := propertyAttributeComponents_explain profile.qualityTier profile.rating profile.hasView
    profile.hasParking
  rw [← hcost.components] at hattributes
  have hrule : (priceTerms a).guardrails.ruleComponent.code.explains = .rule := applyGuardrails_explains _ _ _
  obtain ⟨hp, hn, hw, hr, hs⟩ := explaining_parts hattributes (nettingComponents_explain cost)
    (@bookingWindowComponent_explains days) hrule (recommendMinimumStay_explains hstay)
  obtain ⟨hpresent, himpact⟩ := recommendFor_explained hstay
  obtain ⟨hneutral, hwindowImpact⟩ := bookingWindow_explained days
  have hparts : (decisionRecord decisionId decidedAt cost market targetDate since m channels).calculation.decisionComponents =
      cost.propertyDecisionComponents ++ nettingComponents cost ++ (bookingWindowComponent days).toList ++
        [(priceTerms a).guardrails.ruleComponent] ++ m.decisionComponent.toList := rfl
  rw [hd]
  constructor
  · rw [hparts, hp, hcost.components]
    change _ = cost.propertyAttributeFactor - 1
    rw [hcost.factor, propertyAttributeFactor_eq _ hcost.rating_ge hcost.rating_le]
    ring
  · rw [hparts, hn, totalImpact_netting hcost.auditable]
  · rw [hparts, hn, nettingComponents_impacts]
  · exact ⟨_, by rw [hparts, hr], ruleComponent_code a, ruleComponent_gap a⟩
  · rw [hparts, hw, Option.toList_eq_nil_iff]
    exact hneutral
  · intro c hc
    rw [hparts, hw] at hc ⊢
    exact ⟨toList_eq_singleton hc, hwindowImpact c (Option.mem_toList.mp hc)⟩
  · refine ⟨losRow a 1, mem_losMatrix.mpr ⟨1, by decide, rfl⟩, rfl, ?_⟩
    rw [hparts, hs, ne_eq, Option.toList_eq_nil_iff, hpresent, not_not]
  · intro c hc
    rw [hparts, hs] at hc ⊢
    refine ⟨toList_eq_singleton hc, ?_⟩
    rcases himpact c (Option.mem_toList.mp hc) with ⟨-, hrelief⟩ | ⟨-, -, hgap⟩
    · exact Or.inl hrelief
    · refine Or.inr ⟨losRow a 14, mem_losMatrix.mpr ⟨14, by decide, rfl⟩, fun row hrow => ?_, hgap⟩
      obtain ⟨n, hmem, rfl⟩ := mem_losMatrix.mp hrow
      have hlongest : ∀ n ∈ losCandidates, n ≤ 14 := by decide
      exact hlongest n hmem

theorem pricedSeptember_explained : ∃ d since,
    buildPriceDecision "1" 0 (septemberCost pricedSeptember) (septemberInput pricedSeptember).night
      (toordinal 1970 1 21) none = .ok (d, since) ∧
    Explained (septemberCost pricedSeptember) d.toPriceDecisionRecord := by
  have hbuilt : (buildPriceDecision "1" 0 (septemberCost pricedSeptember)
      (septemberInput pricedSeptember).night (toordinal 1970 1 21) none).toOption.isSome := by
    decide +kernel
  have hauditable := pricedSeptember_auditable
  have hcost : FromStageA (septemberCost pricedSeptember) (septemberInput pricedSeptember).profile :=
    { rating_ge := by decide +kernel
      rating_le := by decide +kernel
      factor := rfl
      components := rfl
      ota := hauditable.ota
      cleaning := hauditable.cleaning
      laundry := hauditable.laundry
      bookingScope := hauditable.bookingScope }
  obtain ⟨⟨d, since⟩, hd⟩ := Option.isSome_iff_exists.mp hbuilt
  exact ⟨d, since, toOption_eq_some.mp hd, decision_explained hcost (toOption_eq_some.mp hd)⟩

end PriceEngine
