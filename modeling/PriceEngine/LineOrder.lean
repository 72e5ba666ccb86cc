import PriceEngine.CostSound
import PriceEngine.Grouping

/-!
# The order of the payment lines

Stage A aggregates the values of a map whose order is left open. Sums, counts
and sets do not depend on it; but the period starts where the first line says,
and the dimensions of a concept are those of its first line. `OrderFree` is what
the lines of the latest period must share for that not to matter.
-/

namespace PriceEngine

/-! ## Results up to order -/

/-- The same result, with its percentages and its corrections in any order. -/
structure SameResult (r r' : CostAggregationResult) : Prop where
  fields : { r with percentageCosts := [], pendingAllocationCorrections := [] } =
    { r' with percentageCosts := [], pendingAllocationCorrections := [] }
  percentages : r.percentageCosts.Perm r'.percentageCosts
  corrections : r.pendingAllocationCorrections.Perm r'.pendingAllocationCorrections

def currentLines (lines : List EnrichedPaymentLine) : List EnrichedPaymentLine :=
  match (lines.map (·.billingPeriodEnd)).max? with
  | none => []
  | some currentEnd => lines.filter fun line => line.billingPeriodEnd == currentEnd

def aggregateCurrent : List EnrichedPaymentLine → Option CostAggregationResult
  | [] => none
  | first :: rest => some (aggregatePeriod first.billingPeriodEnd first.billingPeriodStart (first :: rest))

theorem aggregateCost_eq (lines : List EnrichedPaymentLine) :
    aggregateCost lines = aggregateCurrent (currentLines lines) := by
  unfold aggregateCost currentLines
  cases (lines.map (·.billingPeriodEnd)).max? with
  | none => rfl
  | some currentEnd =>
    simp only [Option.bind_eq_bind, Option.bind_some]
    cases h : lines.filter fun line => line.billingPeriodEnd == currentEnd with
    | nil => rfl
    | cons first rest =>
      have hfirst : first ∈ lines.filter fun line => line.billingPeriodEnd == currentEnd := by
        rw [h]
        exact List.mem_cons_self ..
      have hend : first.billingPeriodEnd = currentEnd := by simpa using (List.mem_filter.mp hfirst).2
      simp only [List.head?_cons, Option.bind_some, aggregateCurrent, hend]

theorem max?_perm {l m : List Date} (h : l.Perm m) : l.max? = m.max? := by
  have key : ∀ {l m : List Date}, l.Perm m → ∀ d, l.max? = some d → m.max? = some d := by
    intro l m h d hd
    rw [List.max?_eq_some_iff] at hd ⊢
    exact ⟨h.mem_iff.mp hd.1, fun x hx => hd.2 x (h.mem_iff.mpr hx)⟩
  cases hl : l.max? with
  | some d => exact (key h d hl).symm
  | none =>
    cases hm : m.max? with
    | some d => rw [key h.symm d hm] at hl; cases hl
    | none => rfl

theorem currentLines_perm {lines lines' : List EnrichedPaymentLine} (h : lines.Perm lines') :
    (currentLines lines).Perm (currentLines lines') := by
  unfold currentLines
  rw [max?_perm (h.map _)]
  split
  · exact List.Perm.refl _
  · exact h.filter _

theorem currentLines_end {lines : List EnrichedPaymentLine} :
    ∀ x ∈ currentLines lines, ∀ y ∈ currentLines lines, x.billingPeriodEnd = y.billingPeriodEnd := by
  intro x hx y hy
  unfold currentLines at hx hy
  split at hx
  · cases hx
  · rename_i currentEnd hmax
    simp only [hmax, List.mem_filter, beq_iff_eq] at hx hy
    rw [hx.2, hy.2]

theorem exists_current_first {lines : List EnrichedPaymentLine} {x : EnrichedPaymentLine}
    (hx : x ∈ currentLines lines) : ∃ lines' rest, lines.Perm lines' ∧ currentLines lines' = x :: rest := by
  unfold currentLines at hx
  split at hx
  · cases hx
  · rename_i currentEnd hmax
    obtain ⟨hin, hend⟩ := List.mem_filter.mp hx
    obtain ⟨m, hm⟩ := exists_perm_cons hin
    refine ⟨x :: m, m.filter fun line => line.billingPeriodEnd == currentEnd, hm, ?_⟩
    unfold currentLines
    rw [← max?_perm (hm.map _), hmax]
    exact List.filter_cons_of_pos hend

/-! ## What the lines must share -/

def deferredLines (lines : List EnrichedPaymentLine) : List EnrichedPaymentLine :=
  ((lines.filter fun line => !isPercentage line).filter fun line => !isOneTime line).filter
    fun line => !isImmediate line

/-- What a percentage cost reads off the first line of its concept. -/
def percentageTerms (line : EnrichedPaymentLine) : ℚ × Option RevenueBase := (line.rate.getD 0, line.revenueBase)

def correctionTerms (line : EnrichedPaymentLine) : Behavior × AllocationMethod :=
  (line.behavior, line.allocationMethod)

def breakdownTerms (line : EnrichedPaymentLine) :
    Scope × Behavior × Trigger × CalculationBase × Recurrence × AllocationMethod :=
  (line.scope, line.behavior, line.trigger, line.calculationBase, line.recurrence, line.allocationMethod)

/-- The lines share their first day; and those of one concept share what is read off the first of them. -/
structure OrderFree (lines : List EnrichedPaymentLine) : Prop where
  starts : ∀ x ∈ lines, ∀ y ∈ lines, x.billingPeriodStart = y.billingPeriodStart
  percentages : ∀ concept, Agree (·.concept) percentageTerms concept (lines.filter isPercentage)
  corrections : ∀ concept, Agree (·.concept) correctionTerms concept (deferredLines lines)
  breakdown : ∀ concept ∈ conceptOrder, Agree (·.concept) breakdownTerms concept lines

/-- A value read off the whole group pins what its elements have. -/
theorem agree_of_pinned {α β κ : Type*} {key : α → κ} {f : α → β} {k : κ} {l : List α} (pinned : Option β)
    (h : ∀ x ∈ l, key x = k → pinned = some (f x)) : Agree key f k l :=
  fun x hx y hy hkx hky => Option.some.inj ((h x hx hkx).symm.trans (h y hy hky))

/-! ## Lines that share it -/

theorem sumWhere_perm {f : EnrichedPaymentLine → ℚ} {keep : EnrichedPaymentLine → Bool}
    {l m : List EnrichedPaymentLine} (h : l.Perm m) : sumWhere f keep l = sumWhere f keep m :=
  ((h.filter keep).map f).sum_eq

def percentageCostOf (lines : List EnrichedPaymentLine) (concept : Concept) : PercentageCostComponent :=
  { concept := concept
    rate := ((firstOf concept lines).bind (·.rate)).getD 0
    revenueBase := (firstOf concept lines).bind (·.revenueBase) }

theorem percentageCostOf_eq {lines : List EnrichedPaymentLine} {concept : Concept}
    {t : Option (ℚ × Option RevenueBase)}
    (h : (firstWith (·.concept) concept lines).map percentageTerms = t) : percentageCostOf lines concept =
      { concept := concept, rate := (t.map (·.1)).getD 0, revenueBase := t.bind (·.2) } := by
  subst h
  unfold percentageCostOf firstOf firstWith
  cases lines.find? fun line => line.concept == concept <;> rfl

def correctionOf (lines : List EnrichedPaymentLine) (concept : Concept) : Option PendingAllocationCorrection :=
  (firstOf concept lines).map fun first =>
    { concept := concept
      behavior := first.behavior
      allocationMethod := first.allocationMethod
      monthlyEquivalentEur := pyRound (sumWhere monthlyEquivalent (·.concept == concept) lines) 2 }

theorem correctionOf_eq {lines : List EnrichedPaymentLine} {concept : Concept}
    {t : Option (Behavior × AllocationMethod)}
    (h : (firstWith (·.concept) concept lines).map correctionTerms = t) : correctionOf lines concept =
      t.map fun t =>
        { concept := concept, behavior := t.1, allocationMethod := t.2
          monthlyEquivalentEur := pyRound (sumWhere monthlyEquivalent (·.concept == concept) lines) 2 } := by
  subst h
  unfold correctionOf firstOf firstWith
  rw [Option.map_map]
  rfl

def breakdownOf (availableDays : ℤ) (lines : List EnrichedPaymentLine) (concept : Concept) :
    Option ConceptAmount :=
  (firstOf concept lines).map fun first =>
    { concept := concept
      amountEur := perDay availableDays (sumWhere (·.amountGross) (·.concept == concept) lines)
      scope := first.scope
      behavior := first.behavior
      trigger := first.trigger
      calculationBase := first.calculationBase
      recurrence := first.recurrence
      allocationMethod := first.allocationMethod }

theorem breakdownOf_eq {availableDays : ℤ} {lines : List EnrichedPaymentLine} {concept : Concept}
    {t : Option (Scope × Behavior × Trigger × CalculationBase × Recurrence × AllocationMethod)}
    (h : (firstWith (·.concept) concept lines).map breakdownTerms = t) : breakdownOf availableDays lines concept =
      t.map fun t =>
        { concept := concept
          amountEur := perDay availableDays (sumWhere (·.amountGross) (·.concept == concept) lines)
          scope := t.1, behavior := t.2.1, trigger := t.2.2.1, calculationBase := t.2.2.2.1
          recurrence := t.2.2.2.2.1, allocationMethod := t.2.2.2.2.2 } := by
  subst h
  unfold breakdownOf firstOf firstWith
  rw [Option.map_map]
  rfl

section
variable {l m : List EnrichedPaymentLine} (h : l.Perm m)
include h

theorem deferredLines_perm : (deferredLines l).Perm (deferredLines m) :=
  ((h.filter _).filter _).filter _

theorem percentageCosts_perm (hagree : ∀ concept, Agree (·.concept) percentageTerms concept l) :
    (percentageCostsOf l).Perm (percentageCostsOf m) := by
  have hsame : percentageCostOf l = percentageCostOf m := by
    funext concept
    rw [percentageCostOf_eq (firstWith_map_perm h (hagree concept)), percentageCostOf_eq rfl]
  change ((groupKeys (·.concept) l).map (percentageCostOf l)).Perm
    ((groupKeys (·.concept) m).map (percentageCostOf m))
  rw [hsame]
  exact (groupKeys_perm h).map _

theorem corrections_perm (hagree : ∀ concept, Agree (·.concept) correctionTerms concept l) :
    (pendingCorrectionsOf l).Perm (pendingCorrectionsOf m) := by
  have hsame : correctionOf l = correctionOf m := by
    funext concept
    rw [correctionOf_eq (firstWith_map_perm h (hagree concept)), correctionOf_eq rfl, sumWhere_perm h]
  change ((groupKeys (·.concept) l).filterMap (correctionOf l)).Perm
    ((groupKeys (·.concept) m).filterMap (correctionOf m))
  rw [hsame]
  exact (groupKeys_perm h).filterMap _

theorem costBreakdown_perm (availableDays : ℤ)
    (hagree : ∀ concept ∈ conceptOrder, Agree (·.concept) breakdownTerms concept l) :
    costBreakdownOf availableDays l = costBreakdownOf availableDays m := by
  refine List.filterMap_congr fun concept hc => ?_
  change breakdownOf availableDays l concept = breakdownOf availableDays m concept
  rw [breakdownOf_eq (firstWith_map_perm h (hagree concept hc)), breakdownOf_eq rfl, sumWhere_perm h]

theorem aggregatePeriod_perm (hfree : OrderFree l) (currentEnd periodStart : Date) :
    SameResult (aggregatePeriod currentEnd periodStart l) (aggregatePeriod currentEnd periodStart m) where
  fields := by
    have hother := h.filter fun line => !isPercentage line
    have hrecurring := (hother.filter fun line => !isOneTime line).filter isImmediate
    have honce := hother.filter isOneTime
    simp only [aggregatePeriod, sumWhere_perm h, sumWhere_perm hrecurring, sumWhere_perm honce, h.length_eq,
      honce.length_eq, honce.isEmpty_eq, costBreakdown_perm h _ hfree.breakdown]
  percentages := percentageCosts_perm (h.filter _) hfree.percentages
  corrections := corrections_perm (deferredLines_perm h) hfree.corrections

end

theorem aggregateCost_perm {lines lines' : List EnrichedPaymentLine} (h : lines.Perm lines')
    (hfree : OrderFree (currentLines lines)) :
    Option.Rel SameResult (aggregateCost lines) (aggregateCost lines') := by
  have hcurrent := currentLines_perm h
  have hend := @currentLines_end lines
  rw [aggregateCost_eq, aggregateCost_eq]
  cases hl : currentLines lines with
  | nil =>
    rw [hl] at hcurrent
    rw [hcurrent.nil_eq.symm]
    exact Option.Rel.none
  | cons x rest =>
    cases hl' : currentLines lines' with
    | nil => rw [hl, hl'] at hcurrent; exact absurd hcurrent.length_eq (by simp)
    | cons y rest' =>
      rw [hl] at hfree hend
      rw [hl, hl'] at hcurrent
      have hy : y ∈ x :: rest := hcurrent.mem_iff.mpr (List.mem_cons_self ..)
      have hx : x ∈ x :: rest := List.mem_cons_self ..
      refine Option.Rel.some ?_
      rw [hend y hy x hx, hfree.starts y hy x hx]
      exact aggregatePeriod_perm hcurrent hfree _ _

/-! ## Results that do not depend on the order -/

theorem mem_percentageCostsOf {l : List EnrichedPaymentLine} {cost : PercentageCostComponent} :
    cost ∈ percentageCostsOf l ↔
      (∃ line ∈ l, line.concept = cost.concept) ∧ percentageCostOf l cost.concept = cost := by
  change cost ∈ (groupKeys (·.concept) l).map (percentageCostOf l) ↔ _
  rw [← mem_groupKeys, List.mem_map]
  constructor
  · rintro ⟨concept, hconcept, rfl⟩
    exact ⟨hconcept, rfl⟩
  · rintro ⟨hconcept, heq⟩
    exact ⟨_, hconcept, heq⟩

theorem correctionOf_concept {l : List EnrichedPaymentLine} {concept : Concept} {c : PendingAllocationCorrection}
    (h : correctionOf l concept = some c) : c.concept = concept := by
  obtain ⟨first, _, rfl⟩ := Option.map_eq_some_iff.mp h
  rfl

theorem mem_pendingCorrectionsOf {l : List EnrichedPaymentLine} {c : PendingAllocationCorrection} :
    c ∈ pendingCorrectionsOf l ↔ correctionOf l c.concept = some c := by
  change c ∈ (groupKeys (·.concept) l).filterMap (correctionOf l) ↔ _
  rw [List.mem_filterMap]
  constructor
  · rintro ⟨concept, _, hc⟩
    rw [correctionOf_concept hc, hc]
  · intro hc
    obtain ⟨first, hfirst, _⟩ := Option.map_eq_some_iff.mp hc
    exact ⟨_, mem_groupKeys.mpr ⟨first, firstWith_mem hfirst⟩, hc⟩

theorem breakdownOf_concept {days : ℤ} {l : List EnrichedPaymentLine} {concept : Concept} {a : ConceptAmount}
    (h : breakdownOf days l concept = some a) : a.concept = concept := by
  obtain ⟨first, _, rfl⟩ := Option.map_eq_some_iff.mp h
  rfl

theorem mem_costBreakdownOf {days : ℤ} {l : List EnrichedPaymentLine} {a : ConceptAmount} :
    a ∈ costBreakdownOf days l ↔ a.concept ∈ conceptOrder ∧ breakdownOf days l a.concept = some a := by
  change a ∈ conceptOrder.filterMap (breakdownOf days l) ↔ _
  rw [List.mem_filterMap]
  constructor
  · rintro ⟨concept, hconcept, ha⟩
    rw [breakdownOf_concept ha]
    exact ⟨hconcept, ha⟩
  · rintro ⟨hconcept, ha⟩
    exact ⟨_, hconcept, ha⟩

/-- One result of any order is that of the order in which a given line comes first. -/
theorem leading_result {lines : List EnrichedPaymentLine}
    (hall : ∀ lines', lines.Perm lines' → Option.Rel SameResult (aggregateCost lines) (aggregateCost lines')) :
    ∃ currentEnd periodStart, ∀ x ∈ currentLines lines, ∃ rest,
      SameResult (aggregatePeriod currentEnd periodStart (currentLines lines))
        (aggregatePeriod x.billingPeriodEnd x.billingPeriodStart (x :: rest)) := by
  cases hl : currentLines lines with
  | nil => exact ⟨0, 0, fun x hx => absurd hx List.not_mem_nil⟩
  | cons first others =>
    refine ⟨first.billingPeriodEnd, first.billingPeriodStart, fun x hx => ?_⟩
    obtain ⟨lines', rest, hperm, hlead⟩ := exists_current_first (hl ▸ hx)
    have hrel := hall lines' hperm
    rw [aggregateCost_eq, aggregateCost_eq, hl, hlead] at hrel
    cases hrel with
    | some hsame => exact ⟨rest, hsame⟩

section
variable {x : EnrichedPaymentLine} {rest : List EnrichedPaymentLine}

theorem leading_percentage (hx : isPercentage x) :
    percentageCostOf ((x :: rest).filter isPercentage) x.concept =
      { concept := x.concept, rate := (percentageTerms x).1, revenueBase := (percentageTerms x).2 } := by
  rw [List.filter_cons_of_pos hx, percentageCostOf_eq (congrArg _ (firstWith_cons_self (·.concept) x _))]
  rfl

theorem leading_deferred {l : List EnrichedPaymentLine} (hx : x ∈ deferredLines l) :
    deferredLines (x :: rest) = x :: deferredLines rest := by
  simp only [deferredLines, List.mem_filter] at hx
  obtain ⟨⟨⟨_, hflat⟩, hrecurring⟩, hdeferred⟩ := hx
  simp only [deferredLines, List.filter_cons, hflat, hrecurring, hdeferred, if_true]

theorem leading_correction : ∃ c, correctionOf (x :: rest) x.concept = some c ∧ c.concept = x.concept ∧
    (c.behavior, c.allocationMethod) = correctionTerms x := by
  rw [correctionOf_eq (congrArg _ (firstWith_cons_self (·.concept) x rest))]
  exact ⟨_, rfl, rfl, rfl⟩

theorem leading_breakdown (days : ℤ) : ∃ a, breakdownOf days (x :: rest) x.concept = some a ∧
    a.concept = x.concept ∧
    (a.scope, a.behavior, a.trigger, a.calculationBase, a.recurrence, a.allocationMethod) = breakdownTerms x := by
  rw [breakdownOf_eq (congrArg _ (firstWith_cons_self (·.concept) x rest))]
  exact ⟨_, rfl, rfl, rfl⟩

end

section
variable {l : List EnrichedPaymentLine} {currentEnd periodStart : Date}
variable (hlead : ∀ x ∈ l, ∃ rest, SameResult (aggregatePeriod currentEnd periodStart l)
  (aggregatePeriod x.billingPeriodEnd x.billingPeriodStart (x :: rest)))
include hlead

theorem starts_agree {x y : EnrichedPaymentLine} (hx : x ∈ l) (hy : y ∈ l) :
    x.billingPeriodStart = y.billingPeriodStart := by
  obtain ⟨_, hsx⟩ := hlead x hx
  obtain ⟨_, hsy⟩ := hlead y hy
  exact congrArg CostAggregationResult.billingPeriodStart (hsx.fields.symm.trans hsy.fields)

theorem percentages_agree (concept : Concept) :
    Agree (·.concept) percentageTerms concept (l.filter isPercentage) := by
  let cost := percentageCostOf (l.filter isPercentage) concept
  refine agree_of_pinned (some (cost.rate, cost.revenueBase)) fun x hx hk => ?_
  subst hk
  obtain ⟨hin, hpct⟩ := List.mem_filter.mp hx
  obtain ⟨rest, hsame⟩ := hlead x hin
  have hfirst : percentageCostOf ((x :: rest).filter isPercentage) x.concept ∈
      percentageCostsOf ((x :: rest).filter isPercentage) :=
    mem_percentageCostsOf.mpr ⟨⟨x, List.mem_filter.mpr ⟨List.mem_cons_self .., hpct⟩, rfl⟩, rfl⟩
  have hcost := (mem_percentageCostsOf.mp (hsame.percentages.mem_iff.mpr hfirst)).2
  change cost = _ at hcost
  rw [hcost, leading_percentage hpct]

theorem corrections_agree (concept : Concept) : Agree (·.concept) correctionTerms concept (deferredLines l) := by
  refine agree_of_pinned ((correctionOf (deferredLines l) concept).map fun c => (c.behavior, c.allocationMethod))
    fun x hx hk => ?_
  subst hk
  obtain ⟨rest, hsame⟩ := hlead x (List.mem_of_mem_filter (List.mem_of_mem_filter (List.mem_of_mem_filter hx)))
  obtain ⟨c, hc, hconcept, hterms⟩ := @leading_correction x (deferredLines rest)
  rw [← leading_deferred hx, ← hconcept] at hc
  have hkept : correctionOf (deferredLines l) c.concept = some c :=
    mem_pendingCorrectionsOf.mp (hsame.corrections.mem_iff.mpr (mem_pendingCorrectionsOf.mpr hc))
  rw [← hconcept, hkept, Option.map_some, hterms]

theorem breakdown_agree {concept : Concept} (hconcept : concept ∈ conceptOrder) :
    Agree (·.concept) breakdownTerms concept l := by
  refine agree_of_pinned ((breakdownOf (currentEnd - periodStart + 1) l concept).map fun a =>
    (a.scope, a.behavior, a.trigger, a.calculationBase, a.recurrence, a.allocationMethod)) fun x hx hk => ?_
  subst hk
  obtain ⟨rest, hsame⟩ := hlead x hx
  obtain ⟨a, ha, hsameConcept, hterms⟩ := @leading_breakdown x rest
    (x.billingPeriodEnd - x.billingPeriodStart + 1)
  rw [← hsameConcept] at ha hconcept
  have hbreakdown : costBreakdownOf (currentEnd - periodStart + 1) l =
      costBreakdownOf (x.billingPeriodEnd - x.billingPeriodStart + 1) (x :: rest) :=
    congrArg CostAggregationResult.costBreakdown hsame.fields
  have hmem := mem_costBreakdownOf.mpr ⟨hconcept, ha⟩
  rw [← hbreakdown] at hmem
  rw [← hsameConcept, (mem_costBreakdownOf.mp hmem).2, Option.map_some, hterms]

end

theorem orderFree_of_same {lines : List EnrichedPaymentLine}
    (hall : ∀ lines', lines.Perm lines' → Option.Rel SameResult (aggregateCost lines) (aggregateCost lines')) :
    OrderFree (currentLines lines) := by
  obtain ⟨currentEnd, periodStart, hlead⟩ := leading_result hall
  exact ⟨fun x hx y hy => starts_agree hlead hx hy, percentages_agree hlead, corrections_agree hlead,
    fun concept hconcept => breakdown_agree hlead hconcept⟩

/-- Every order of the lines has the same result exactly if those of the latest period agree. -/
theorem aggregate_order_free_iff (lines : List EnrichedPaymentLine) :
    (∀ lines', lines.Perm lines' → Option.Rel SameResult (aggregateCost lines) (aggregateCost lines')) ↔
      OrderFree (currentLines lines) :=
  ⟨orderFree_of_same, fun hfree _ hperm => aggregateCost_perm hperm hfree⟩

def quarterlyFeeLine : EnrichedPaymentLine :=
  { electricityLine with
    eventId := "e3"
    billingPeriodStart := toordinal 2026 7 1
    concept := .communityFee
    recurrence := .quarterly }

/-- The costs of a day differ by which of the two lines comes first. -/
theorem quarterly_fee_order : ¬ ∀ lines lines', lines.Perm lines' →
    Option.Rel SameResult (aggregateCost lines) (aggregateCost lines') := by
  intro hall
  have hrel := hall [electricityLine, quarterlyFeeLine] [quarterlyFeeLine, electricityLine] (List.Perm.swap ..)
  have hfirst : aggregateCost [electricityLine, quarterlyFeeLine] =
      some (aggregatePeriod (toordinal 2026 9 30) (toordinal 2026 9 1) [electricityLine, quarterlyFeeLine]) := rfl
  have hsecond : aggregateCost [quarterlyFeeLine, electricityLine] =
      some (aggregatePeriod (toordinal 2026 9 30) (toordinal 2026 7 1) [quarterlyFeeLine, electricityLine]) := rfl
  rw [hfirst, hsecond] at hrel
  cases hrel with
  | some hsame =>
    have hdays : (30 : ℤ) = 92 := congrArg CostAggregationResult.availableDays hsame.fields
    exact absurd hdays (by decide)

end PriceEngine
