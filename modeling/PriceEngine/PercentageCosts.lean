import PriceEngine.CostSound
import PriceEngine.Grouping
import PriceEngine.Recomputation

/-!
# The percentage of a night's price

Stage A takes one rate for each concept, that of the first line, though several
cost definitions may share a concept; and Stage A2 adds the owner's commission
without asking whether a line of the period refers to the owner's definition.
So the percentage of the price is the sum over the applicable definitions up to
those two differences (`p_balance`).
-/

namespace PriceEngine

/-! ## Applicable definitions -/

def CostDefinitionRow.pct (row : CostDefinitionRow) : ℚ := row.rate.getD 0

def CostDefinitionResolution.definitionOf (table : CostDefinitionResolution) (v : PaymentLine) :
    Option CostDefinitionRow :=
  if (table.processElement v).isEmpty then none else table.definitions.get? v.costDefinitionId

/-- The definitions of the percentage lines of a period, line by line. -/
def percentageDefinitions (table : CostDefinitionResolution) (periodEnd : Date) (values : List PaymentLine) :
    List CostDefinitionRow :=
  ((values.filter fun v => v.billingPeriodEnd == periodEnd).filterMap table.definitionOf).filter fun d =>
    percentageCalculationBases.contains d.calculationBase

/-- The observed definitions that are the owner's, by their id: A2's row of it may be a newer one. -/
def observedOwner (observed : List CostDefinitionRow) (owner : CostDefinitionRow) : List CostDefinitionRow :=
  observed.dedup.filter fun d => d.costDefinitionId == owner.costDefinitionId

/-- The definitions that apply to the period, each once: those of its lines, and the owner's. -/
def applicableDefinitions (observed : List CostDefinitionRow) (owner : CostDefinitionRow) :
    List CostDefinitionRow :=
  (observed.dedup.filter fun d => !(d.costDefinitionId == owner.costDefinitionId)) ++ [owner]

theorem sum_applicable (observed : List CostDefinitionRow) (owner : CostDefinitionRow) :
    ((applicableDefinitions observed owner).map (·.pct)).sum + ((observedOwner observed owner).map (·.pct)).sum =
      (observed.dedup.map (·.pct)).sum + owner.pct := by
  have hsplit := List.filter_append_perm (fun d => d.costDefinitionId == owner.costDefinitionId) observed.dedup
  have hsum := (hsplit.map (·.pct)).sum_eq
  rw [List.map_append, List.sum_append] at hsum
  rw [applicableDefinitions, List.map_append, List.sum_append, List.map_singleton, List.sum_singleton, ← hsum,
    observedOwner]
  ring

/-! ## What Stage A makes of them -/

theorem definitionOf_cases (table : CostDefinitionResolution) (v : PaymentLine) :
    (table.processElement v = [] ∧ table.definitionOf v = none) ∨
    ∃ d line, table.processElement v = [line] ∧ table.definitionOf v = some d ∧
      line.billingPeriodEnd = v.billingPeriodEnd ∧ line.concept = d.concept ∧ line.rate = d.rate ∧
      line.calculationBase = d.calculationBase := by
  unfold CostDefinitionResolution.definitionOf CostDefinitionResolution.processElement
  cases table.definitions.get? v.costDefinitionId with
  | none => exact Or.inl ⟨rfl, rfl⟩
  | some d =>
    cases table.allocations.get? v.costDefinitionId with
    | none => exact Or.inl ⟨rfl, rfl⟩
    | some allocation => exact Or.inr ⟨d, _, rfl, rfl, rfl, rfl, rfl, rfl⟩

theorem percentageLines_eq (table : CostDefinitionResolution) (periodEnd : Date) (values : List PaymentLine) :
    (((values.flatMap table.processElement).filter fun line => line.billingPeriodEnd == periodEnd).filter
      isPercentage).map (fun line => (line.concept, line.rate)) =
    (percentageDefinitions table periodEnd values).map fun d => (d.concept, d.rate) := by
  induction values with
  | nil => rfl
  | cons v values ih =>
    unfold percentageDefinitions at ih ⊢
    rw [List.flatMap_cons, List.filter_append, List.filter_append, List.map_append, ih]
    rcases definitionOf_cases table v with ⟨hline, hd⟩ | ⟨d, line, hline, hd, hend, hconcept, hrate, hbase⟩
    · by_cases hp : v.billingPeriodEnd = periodEnd <;> simp [hline, hd, hp]
    · by_cases hp : v.billingPeriodEnd = periodEnd
      · by_cases hb : d.calculationBase ∈ percentageCalculationBases <;>
          simp [hline, hd, hp, hend, isPercentage, hbase, hb, hconcept, hrate]
      · simp [hline, hend, hp]

/-- The rates of Stage A's percentage costs are those of the definitions that come first for their concept. -/
theorem percentageCosts_sum {lines : List EnrichedPaymentLine} {definitions : List CostDefinitionRow}
    (h : lines.map (fun line => (line.concept, line.rate)) = definitions.map fun d => (d.concept, d.rate)) :
    ((percentageCostsOf lines).map (·.rate)).sum =
      (((groupKeys (·.concept) definitions).filterMap (firstWith (·.concept) · definitions)).map (·.pct)).sum := by
  have hkeys : conceptsOf lines = groupKeys (·.concept) definitions := by
    have := congrArg (List.map Prod.fst) h
    rw [List.map_map, List.map_map] at this
    exact congrArg List.eraseDups this
  have hfirst : ∀ concept, (firstOf concept lines).bind (·.rate) =
      (firstWith (·.concept) concept definitions).bind (·.rate) := by
    intro concept
    have := congrArg (List.find? fun x : Concept × Option ℚ => x.1 == concept) h
    rw [List.find?_map, List.find?_map] at this
    have := congrArg (fun o : Option (Concept × Option ℚ) => o.bind Prod.snd) this
    simpa [Option.bind_map, firstOf, firstWith, Function.comp_def] using this
  unfold percentageCostsOf
  rw [List.map_map, hkeys]
  have hmem : ∀ concept ∈ groupKeys (·.concept) definitions,
      ∃ d, firstWith (·.concept) concept definitions = some d := fun concept hc =>
    Option.isSome_iff_exists.mp (firstWith_isSome.mpr (mem_groupKeys.mp hc))
  generalize groupKeys (·.concept) definitions = concepts at hmem ⊢
  induction concepts with
  | nil => rfl
  | cons concept concepts ih =>
    obtain ⟨d, hd⟩ := hmem concept (List.mem_cons_self ..)
    rw [List.filterMap_cons_some (f := (firstWith (·.concept) · definitions)) hd, List.map_cons, List.map_cons,
      List.sum_cons, List.sum_cons, ih fun c hc => hmem c (List.mem_cons_of_mem _ hc)]
    simp only [Function.comp_apply, hfirst, hd]
    rfl

/-! ## What reaches Stage B -/

theorem enrichedAggregates_kept {bookings : List BookingRow} {company : CompanyCostEnrichment}
    {stage : OwnerContractEnrichment} {cost c : CostAggregate}
    (h : c ∈ enrichedAggregates bookings company stage cost) : ∃ owner,
    (stage.ownerContracts.get? cost.apartmentId).bind
      (fun assignment => stage.costDefinitions.get? assignment.costDefinitionId) = some owner ∧
    c.percentageCosts = cost.percentageCosts ∧ c.commissionPct = owner.pct := by
  obtain ⟨owner, howner, rfl⟩ := enrichedAggregates_eq h
  obtain ⟨_, _, _, hkept⟩ := recomputedCost_kept company bookings cost
  rw [hkept]
  exact ⟨owner, howner, rfl, rfl⟩

/-- The rates of a table are as its column holds them, with four decimals. -/
def FourDecimals (d : CostDefinitionRow) : Prop := pyRound d.pct 4 = d.pct

instance (d : CostDefinitionRow) : Decidable (FourDecimals d) :=
  inferInstanceAs (Decidable (pyRound d.pct 4 = d.pct))

section
variable {table : CostDefinitionResolution} (htable : table.definitions.All fun _ d => FourDecimals d)
  {values : List PaymentLine}
include htable

theorem percentageDefinitions_decimals {periodEnd : Date} {d : CostDefinitionRow}
    (hd : d ∈ percentageDefinitions table periodEnd values) : FourDecimals d := by
  obtain ⟨hd, -⟩ := List.mem_filter.mp hd
  obtain ⟨v, -, hv⟩ := List.mem_filterMap.mp hd
  unfold CostDefinitionResolution.definitionOf at hv
  split at hv
  · cases hv
  · exact htable _ d hv

/-- The percentage and the applicable definitions differ by the overlooked rates and a doubled commission. -/
theorem p_balance {aggregation : CostAggregationResult}
    (hagg : aggregateCost (values.flatMap table.processElement) = some aggregation) {owner : CostDefinitionRow}
    (howner : FourDecimals owner) {cost : CostAggregate}
    (hcosts : cost.percentageCosts = aggregation.percentageCosts) (hcommission : cost.commissionPct = owner.pct)
    {observed : List CostDefinitionRow}
    (hobserved : observed = percentageDefinitions table aggregation.billingPeriodEnd values) :
    sumOfRates (allPercentageCosts cost) + ((overlooked (·.concept) observed).map (·.pct)).sum =
      ((applicableDefinitions observed owner).map (·.pct)).sum +
        ((observedOwner observed owner).map (·.pct)).sum := by
  obtain ⟨first, -, rfl⟩ := aggregateCost_eq_some hagg
  have hsum : (cost.percentageCosts.map (·.rate)).sum =
      (((groupKeys (·.concept) observed).filterMap (firstWith (·.concept) · observed)).map (·.pct)).sum := by
    rw [hcosts, hobserved]
    exact percentageCosts_sum (percentageLines_eq table first.billingPeriodEnd values)
  have hround : sumOfRates (allPercentageCosts cost) = (cost.percentageCosts.map (·.rate)).sum + owner.pct := by
    unfold sumOfRates allPercentageCosts
    rw [List.map_append, List.sum_append, List.map_singleton, List.sum_singleton, hcommission]
    refine pyRound_add_eq_self ?_ howner
    rw [hsum]
    refine pyRound_sum_eq_self fun x hx => ?_
    obtain ⟨d, hd, rfl⟩ := List.mem_map.mp hx
    obtain ⟨concept, -, hfirst⟩ := List.mem_filterMap.mp hd
    exact percentageDefinitions_decimals htable (hobserved ▸ (firstWith_mem hfirst).1)
  have hsplit := sum_representatives (fun d : CostDefinitionRow => d.concept) (·.pct) observed
  rw [hround, hsum, sum_applicable]
  linarith

end

/-- The percentage of the price is the sum over the applicable definitions, each once, exactly when the
definitions that another one of their concept comes before make up for a commission that counts twice. -/
theorem p_counts_each_once_iff {table : CostDefinitionResolution}
    (htable : table.definitions.All fun _ d => FourDecimals d) {values : List PaymentLine}
    {aggregation : CostAggregationResult}
    (hagg : aggregateCost (values.flatMap table.processElement) = some aggregation)
    {stage : OwnerContractEnrichment} (hstage : stage.costDefinitions.All fun _ d => FourDecimals d)
    {now : Instant} {line : EnrichedPaymentLine} {profile : PropertyPricingProfile} {strategy : PricingStrategy}
    {bookings : List BookingRow} {company : CompanyCostEnrichment} {cost : CostAggregate}
    (hcost : cost ∈ enrichedAggregates bookings company stage
      (costAggregateOf now line profile strategy aggregation)) {owner : CostDefinitionRow}
    (howner : (stage.ownerContracts.get? line.apartmentId).bind
      (fun assignment => stage.costDefinitions.get? assignment.costDefinitionId) = some owner)
    (market : MarketSnapshot) (daysToArrival : ℤ) :
    (nightArgs cost market daysToArrival).p = ((applicableDefinitions
        (percentageDefinitions table aggregation.billingPeriodEnd values) owner).map (·.pct)).sum ↔
      ((overlooked (·.concept) (percentageDefinitions table aggregation.billingPeriodEnd values)).map
        (·.pct)).sum =
      ((observedOwner (percentageDefinitions table aggregation.billingPeriodEnd values) owner).map
        (·.pct)).sum := by
  obtain ⟨owner', howner', hcosts, hcommission⟩ := enrichedAggregates_kept hcost
  obtain rfl : owner = owner' := Option.some.inj (howner.symm.trans howner')
  have hdecimals : FourDecimals owner := by
    obtain ⟨assignment, -, hget⟩ := Option.bind_eq_some_iff.mp howner
    exact hstage _ owner hget
  have hbalance := p_balance htable hagg hdecimals hcosts hcommission rfl
  change sumOfRates (allPercentageCosts cost) = _ ↔ _
  constructor <;> intro h <;> linarith

/-! ## Two definitions of one concept -/

def insuranceDefinition (costDefinitionId : String) (rate : ℚ) : CostDefinitionRow :=
  { costDefinitionId := costDefinitionId
    concept := .insurance
    scope := .property
    behavior := .variable'
    trigger := .revenue
    calculationBase := .pctRevenue
    recurrence := .monthly
    revenueBase := some .totalRevenue
    rate := some rate }

/-- Two insurances of 3 and 5 percent, and the owner's commission of 10 percent. -/
def insuredTable : CostDefinitionResolution :=
  { definitions := (Dict.empty.put "basic" (insuranceDefinition "basic" (3 / 100))).put "extra"
      (insuranceDefinition "extra" (5 / 100))
    allocations := (Dict.empty.put "basic"
      { costDefinitionId := "basic", method := .direct, weightConfig := none }).put "extra"
      { costDefinitionId := "extra", method := .direct, weightConfig := none } }

def insuredLines : List PaymentLine :=
  [{ flatLine "e1" 30 0 with costDefinitionId := "basic" }, { flatLine "e2" 50 0 with costDefinitionId := "extra" }]

def insuredStage : OwnerContractEnrichment :=
  { ownerContracts := Dict.empty.put "a1" { costDefinitionId := "commission" }
    costDefinitions := Dict.empty.put "commission" commissionDefinition }

def insuredLine : EnrichedPaymentLine :=
  (insuredLines.flatMap insuredTable.processElement).get ⟨0, by decide +kernel⟩

theorem insuredTable_decimals : insuredTable.definitions.All fun _ d => FourDecimals d := by
  have hbasic : FourDecimals (insuranceDefinition "basic" (3 / 100)) := by decide +kernel
  have hextra : FourDecimals (insuranceDefinition "extra" (5 / 100)) := by decide +kernel
  exact Dict.All.put (P := fun _ d => FourDecimals d) (Dict.All.put (Dict.all_empty _) hbasic) hextra

theorem insuredStage_decimals : insuredStage.costDefinitions.All fun _ d => FourDecimals d := by
  have howner : FourDecimals commissionDefinition := by decide +kernel
  exact Dict.All.put (P := fun _ d => FourDecimals d) (Dict.all_empty _) howner

def insuredCosts (aggregation : CostAggregationResult) : List CostAggregate :=
  enrichedAggregates [] {} insuredStage (costAggregateOf 0 insuredLine
    (flatSegment "Gracia").toPropertyPricingProfile (flatStrategy 1 (20 / 100)).toPricingStrategy aggregation)

def insuredMarket : MarketSnapshot := snapshotOf (flatMarket none 0 0)

theorem one_insurance_counted : ∃ aggregation cost,
    aggregateCost ((insuredLines.take 1).flatMap insuredTable.processElement) = some aggregation ∧
    cost ∈ insuredCosts aggregation ∧
    (nightArgs cost insuredMarket 0).p = ((applicableDefinitions (percentageDefinitions insuredTable
      aggregation.billingPeriodEnd (insuredLines.take 1)) commissionDefinition).map (·.pct)).sum := by
  refine ⟨_, _, rfl, List.mem_singleton_self _, ?_⟩
  refine (p_counts_each_once_iff insuredTable_decimals rfl insuredStage_decimals
    (?_ : _ ∈ insuredCosts _) ?_ insuredMarket 0).mpr ?_
  · exact List.mem_singleton_self _
  · exact rfl
  · decide +kernel

theorem second_insurance_overlooked :
    ¬ ∀ (table : CostDefinitionResolution) (values : List PaymentLine) (aggregation : CostAggregationResult)
      (stage : OwnerContractEnrichment) (now : Instant) (line : EnrichedPaymentLine)
      (profile : PropertyPricingProfile) (strategy : PricingStrategy) (bookings : List BookingRow)
      (company : CompanyCostEnrichment) (cost : CostAggregate) (owner : CostDefinitionRow)
      (market : MarketSnapshot) (daysToArrival : ℤ),
      table.definitions.All (fun _ d => FourDecimals d) →
      aggregateCost (values.flatMap table.processElement) = some aggregation →
      stage.costDefinitions.All (fun _ d => FourDecimals d) →
      cost ∈ enrichedAggregates bookings company stage (costAggregateOf now line profile strategy aggregation) →
      (stage.ownerContracts.get? line.apartmentId).bind
        (fun assignment => stage.costDefinitions.get? assignment.costDefinitionId) = some owner →
      (nightArgs cost market daysToArrival).p = ((applicableDefinitions
        (percentageDefinitions table aggregation.billingPeriodEnd values) owner).map (·.pct)).sum := by
  intro h
  have heq := h insuredTable insuredLines _ insuredStage 0 insuredLine _ _ [] {} _ commissionDefinition
    insuredMarket 0 insuredTable_decimals rfl insuredStage_decimals
    (List.mem_singleton_self _ : _ ∈ insuredCosts _) rfl
  revert heq
  decide +kernel

end PriceEngine
