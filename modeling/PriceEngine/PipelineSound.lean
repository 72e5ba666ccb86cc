import PriceEngine.Pipeline
import PriceEngine.StageBSound

/-!
# What one step of the job does

`step_cases` splits a step once: the chain of one apartment reacts, and at most
one partition of Stage B handles one event. How a chain may move is said once
too (`Chain.Reacts`), and with it what its operators send (`react_sends`).
`origin` collects what an aggregate is given in Stage A and keeps on its way; so
a property of origins holds of every message of a chain once Stage A and the
bookings operator send none that breaks it (`react_messages`).
-/

namespace PriceEngine

/-! ## Steps -/

def PipelineEvent.apartment : PipelineEvent → Option String
  | .payment value => some value.apartmentId
  | .booking value => some value.apartmentId
  | .market _ => none
  | .configure apartmentId _ => some apartmentId
  | .operate apartmentId _ => some apartmentId
  | .price apartmentId _ => some apartmentId

def Chain.react (c : Chain) (step : ℕ) (now : Instant) : PipelineEvent → Chain
  | .payment value => c.payment ⟨.payment, step⟩ value
  | .booking value => c.booking ⟨.booking, step⟩ value
  | .market _ => c
  | .configure _ row => c.configure row
  | .operate _ operator => c.operate step now operator
  | .price _ segment => c.dropPriced segment

/-- What Stage B handles in the step, if anything: the cause, the partition and its event. -/
def Pipeline.input (s : Pipeline) : PipelineEvent → Option (Cause × SegmentKey × StageBEvent)
  | .market value => some (⟨.market, s.steps⟩, value.segmentKey, .market value)
  | .price apartmentId segment =>
    ((s.chains apartmentId).toPriceDecision.find? (·.isFor segment)).map fun m =>
      (m.cause, segment, .cost m.cost)
  | _ => none

theorem Pipeline.stageB_eq_ok {s s' : Pipeline} {env : Env} {cause : Cause} {segment : SegmentKey}
    {event : StageBEvent} {os : List Emitted} :
    s.stageB env cause segment event = .ok (s', os) ↔
      ∃ b ds, (s.segments segment).step (env, event) = .ok (b, ds) ∧
        s' = { s with segments := Function.update s.segments segment b } ∧
        os = ds.map fun d => { cause := cause, segment := segment, decision := d } := by
  unfold Pipeline.stageB
  rw [bind_eq_ok]
  refine ⟨?_, ?_⟩
  · intro ⟨⟨b, ds⟩, hb, h⟩
    obtain ⟨rfl, rfl⟩ := Prod.mk.inj (Except.ok.inj h)
    exact ⟨b, ds, hb, rfl, rfl⟩
  · intro hex
    obtain ⟨b, ds, hb, rfl, rfl⟩ := hex
    exact ⟨(b, ds), hb, rfl⟩

theorem Pipeline.updateChain_chains (s : Pipeline) (a b : String) (f : Chain → Chain) :
    (s.updateChain a f).chains b = if some a = some b then f (s.chains b) else s.chains b := by
  by_cases h : a = b
  · subst h
    simp [Pipeline.updateChain]
  · simp [Pipeline.updateChain, h, Function.update_of_ne (Ne.symm h)]

theorem Chain.dropPriced_eq_self {c : Chain} {segment : SegmentKey}
    (h : c.toPriceDecision.find? (·.isFor segment) = none) : c.dropPriced segment = c := by
  rw [Chain.dropPriced, List.eraseP_of_forall_not fun m hm => List.find?_eq_none.mp h m hm]

def Pipeline.advance (s : Pipeline) (e : Env × PipelineEvent) : Pipeline :=
  match e.2.apartment with
  | none => { s with steps := s.steps + 1 }
  | some apartmentId => s.updateChain apartmentId (·.react s.steps (e.1.now 0) e.2)

theorem Pipeline.advance_chains (s : Pipeline) (e : Env × PipelineEvent) (a : String) :
    (s.advance e).chains a =
      if e.2.apartment = some a then (s.chains a).react s.steps (e.1.now 0) e.2 else s.chains a := by
  unfold Pipeline.advance
  cases e.2.apartment with
  | none => rfl
  | some b => exact s.updateChain_chains b a _

theorem Pipeline.advance_segments (s : Pipeline) (e : Env × PipelineEvent) :
    (s.advance e).segments = s.segments := by
  unfold Pipeline.advance
  cases e.2.apartment <;> rfl

theorem Pipeline.advance_steps (s : Pipeline) (e : Env × PipelineEvent) :
    (s.advance e).steps = s.steps + 1 := by
  unfold Pipeline.advance
  cases e.2.apartment <;> rfl

theorem Pipeline.step_eq (s : Pipeline) (e : Env × PipelineEvent) :
    s.step e =
      match s.input e.2 with
      | none => .ok (s.advance e, [])
      | some (cause, segment, event) => (s.advance e).stageB e.1 cause segment event := by
  obtain ⟨env, event⟩ := e
  cases event with
  | price a segment =>
    simp only [Pipeline.step, Pipeline.input]
    cases hfind : (s.chains a).toPriceDecision.find? (·.isFor segment) with
    | none =>
      have hdrop := Chain.dropPriced_eq_self hfind
      simp [Pipeline.advance, PipelineEvent.apartment, Pipeline.updateChain, Chain.react, hdrop]
    | some m => rfl
  | _ => rfl

/-- What one step does: one chain reacts, and one partition of Stage B handles the input if there is one. -/
theorem Pipeline.step_cases {s s' : Pipeline} {e : Env × PipelineEvent} {os : List Emitted}
    (h : s.step e = .ok (s', os)) :
    s'.steps = s.steps + 1 ∧
    (∀ a, s'.chains a =
      if e.2.apartment = some a then (s.chains a).react s.steps (e.1.now 0) e.2 else s.chains a) ∧
    ((s.input e.2 = none ∧ s'.segments = s.segments ∧ os = []) ∨
      ∃ cause segment event b ds, s.input e.2 = some (cause, segment, event) ∧
        (s.segments segment).step (e.1, event) = .ok (b, ds) ∧
        s'.segments = Function.update s.segments segment b ∧
        os = ds.map fun d => { cause := cause, segment := segment, decision := d }) := by
  rw [Pipeline.step_eq] at h
  cases hin : s.input e.2 with
  | none =>
    rw [hin] at h
    obtain ⟨rfl, rfl⟩ := Prod.mk.inj (Except.ok.inj h)
    exact ⟨s.advance_steps e, s.advance_chains e, Or.inl ⟨rfl, s.advance_segments e, rfl⟩⟩
  | some input =>
    obtain ⟨cause, segment, event⟩ := input
    rw [hin] at h
    obtain ⟨b, ds, hb, rfl, rfl⟩ := Pipeline.stageB_eq_ok.mp h
    rw [s.advance_segments e] at hb
    refine ⟨s.advance_steps e, s.advance_chains e, Or.inr ⟨cause, segment, event, b, ds, rfl, hb, ?_, rfl⟩⟩
    rw [← s.advance_segments e]

/-! ## What the operators of a chain move -/

def Chain.idle (c : Chain) : Operator → Prop
  | .costEnrichment => c.toCostEnrichment = []
  | .bookingEnrichment => c.toBookingEnrichment = []
  | .companyCostEnrichment => c.toCompanyCostEnrichment = []
  | .ownerContractEnrichment => c.toOwnerContractEnrichment = []

/-- What an event does to a chain, with one case for each way it may move. -/
inductive Chain.Reacts (c : Chain) (step : ℕ) (now : Instant) : PipelineEvent → Chain → Prop
  | market (value : MarketPrice) : Reacts c step now (.market value) c
  | configure (a : String) (row : ConfigRow) : Reacts c step now (.configure a row) (c.configure row)
  | idle (a : String) {operator : Operator} : c.idle operator → Reacts c step now (.operate a operator) c
  | payment (value : PaymentLine) : Reacts c step now (.payment value)
      { c with
        toCostEnrichment := c.toCostEnrichment ++
          (c.resolution.processElement value).map fun line => (⟨.payment, step⟩, line) }
  | booking (value : BookingRow) (bookings : Dict String BookingRow) : Reacts c step now (.booking value)
      { c with
        bookingEnrichment := { c.bookingEnrichment with bookings := bookings }
        toCompanyCostEnrichment := c.toCompanyCostEnrichment ++
          (c.bookingEnrichment.latestCostAggregate.map fun latest =>
            ⟨⟨.booking, step⟩, c.latestBorn, recompute bookings.values latest⟩).toList }
  | costEnrichment (a : String) {cause : Cause} {line : EnrichedPaymentLine}
      {rest : List (Cause × EnrichedPaymentLine)} : c.toCostEnrichment = (cause, line) :: rest →
      Reacts c step now (.operate a .costEnrichment)
        { c with
          toCostEnrichment := rest
          costEnrichment := { c.costEnrichment with costLines := retainLine c.costEnrichment.costLines line }
          toBookingEnrichment := c.toBookingEnrichment ++
            (c.costEnrichment.processElement now line).2.map fun cost => ⟨cause, step, cost⟩ }
  | bookingEnrichment (a : String) {m : Message} {rest : List Message} : c.toBookingEnrichment = m :: rest →
      Reacts c step now (.operate a .bookingEnrichment)
        { c with
          toBookingEnrichment := rest
          bookingEnrichment := { c.bookingEnrichment with latestCostAggregate := some m.cost }
          latestBorn := m.born
          toCompanyCostEnrichment := c.toCompanyCostEnrichment ++
            [{ m with cost := recompute c.bookingEnrichment.bookings.values m.cost }] }
  | companyCostEnrichment (a : String) {m : Message} {rest : List Message} :
      c.toCompanyCostEnrichment = m :: rest → Reacts c step now (.operate a .companyCostEnrichment)
        { c with
          toCompanyCostEnrichment := rest
          toOwnerContractEnrichment := c.toOwnerContractEnrichment ++
            [{ m with cost := c.companyCostEnrichment.processElement (applyCorrections m.cost) }] }
  | ownerContractEnrichment (a : String) {m : Message} {rest : List Message} :
      c.toOwnerContractEnrichment = m :: rest → Reacts c step now (.operate a .ownerContractEnrichment)
        { c with
          toOwnerContractEnrichment := rest
          toPriceDecision := c.toPriceDecision ++
            (c.ownerContractEnrichment.processElement m.cost).map fun cost => { m with cost := cost } }
  | price (a : String) (segment : SegmentKey) : Reacts c step now (.price a segment) (c.dropPriced segment)

theorem Chain.reacts (c : Chain) (step : ℕ) (now : Instant) (e : PipelineEvent) :
    c.Reacts step now e (c.react step now e) := by
  cases e with
  | payment value => exact .payment value
  | market value => exact .market value
  | configure a row => exact .configure a row
  | price a segment => exact .price a segment
  | booking value =>
    cases hlatest : c.bookingEnrichment.latestCostAggregate with
    | none =>
      have hreacts := @Reacts.booking c step now value (c.bookingEnrichment.bookings.put value.bookingId value)
      simpa [Chain.react, Chain.booking, BookingEnrichment.processElement2, hlatest] using hreacts
    | some latest =>
      have hreacts := @Reacts.booking c step now value ((c.bookingEnrichment.bookings.put value.bookingId value).filterValues
        fun row => !(row.checkOut < latest.billingPeriodStart - retentionBufferDays))
      simpa [Chain.react, Chain.booking, BookingEnrichment.processElement2, hlatest] using hreacts
  | operate a operator =>
    cases operator with
    | costEnrichment =>
      simp only [Chain.react, Chain.operate]
      split
      · exact .idle a ‹_›
      · exact .costEnrichment a ‹_›
    | bookingEnrichment =>
      simp only [Chain.react, Chain.operate]
      split
      · exact .idle a ‹_›
      · exact .bookingEnrichment a ‹_›
    | companyCostEnrichment =>
      simp only [Chain.react, Chain.operate]
      split
      · exact .idle a ‹_›
      · exact .companyCostEnrichment a ‹_›
    | ownerContractEnrichment =>
      simp only [Chain.react, Chain.operate]
      split
      · exact .idle a ‹_›
      · exact .ownerContractEnrichment a ‹_›

/-! ## Origins -/

structure Terms where
  version : ℤ
  targetMargin : ℚ
  competitivenessDiscount : ℚ

def PricingStrategy.terms (s : PricingStrategy) : Terms :=
  { version := s.version
    targetMargin := s.targetMargin
    competitivenessDiscount := s.competitivenessDiscount }

def CostAggregate.terms (c : CostAggregate) : Terms :=
  { version := c.pricingStrategyVersion
    targetMargin := c.targetMargin
    competitivenessDiscount := c.competitivenessDiscount }

def PriceDecision.terms (d : PriceDecision) : Terms :=
  { version := d.calculation.pricingStrategyVersion
    targetMargin := d.calculation.targetMargin
    competitivenessDiscount := d.calculation.competitivenessDiscount }

def PropertyPricingProfile.segmentKey (p : PropertyPricingProfile) : SegmentKey :=
  { city := p.city
    neighborhood := some p.neighborhood
    propertyType := p.propertyType
    bedrooms := p.bedrooms }

/-- What Stage A gives an aggregate and no later stage changes. -/
structure Origin where
  apartmentId : String
  segment : SegmentKey
  terms : Terms

def CostAggregate.origin (c : CostAggregate) : Origin :=
  { apartmentId := c.apartmentId
    segment := c.segmentKey
    terms := c.terms }

@[simp] theorem applyCorrections_origin (cost : CostAggregate) : (applyCorrections cost).origin = cost.origin := by
  unfold applyCorrections
  split <;> rfl

@[simp] theorem companyCosts_origin (s : CompanyCostEnrichment) (cost : CostAggregate) :
    (s.processElement cost).origin = cost.origin := by
  unfold CompanyCostEnrichment.processElement
  dsimp only
  split <;> rfl

theorem ownerContract_origin {s : OwnerContractEnrichment} {cost : CostAggregate} :
    ∀ c ∈ s.processElement cost, c.origin = cost.origin := by
  intro c hc
  unfold OwnerContractEnrichment.processElement at hc
  split at hc
  · cases hc
  · rw [List.mem_singleton.mp hc]
    rfl

theorem CostEnrichment.mem_processElement {s : CostEnrichment} {now : Instant} {line : EnrichedPaymentLine}
    {cost : CostAggregate} (h : cost ∈ (s.processElement now line).2) :
    ∃ aggregation profile strategy, aggregateCost (retainLine s.costLines line).values = some aggregation ∧
      s.segments.get? line.apartmentId = some profile ∧ s.strategies.get? line.apartmentId = some strategy ∧
      cost = costAggregateOf now line profile strategy aggregation := by
  simp only [CostEnrichment.processElement] at h
  split at h
  · cases h
  · rename_i aggregation hagg
    split at h
    · rename_i profile strategy hprofile hstrategy
      exact ⟨aggregation, profile, strategy, hagg, hprofile, hstrategy, List.mem_singleton.mp h⟩
    · cases h

theorem costEnrichment_origin {s : CostEnrichment} {now : Instant} {line : EnrichedPaymentLine} :
    ∀ cost ∈ (s.processElement now line).2, ∃ profile strategy,
      s.segments.get? line.apartmentId = some profile ∧ s.strategies.get? line.apartmentId = some strategy ∧
      cost.origin =
        { apartmentId := line.apartmentId, segment := profile.segmentKey, terms := strategy.terms } := by
  intro cost hc
  obtain ⟨aggregation, profile, strategy, -, hprofile, hstrategy, rfl⟩ := CostEnrichment.mem_processElement hc
  exact ⟨profile, strategy, hprofile, hstrategy, rfl⟩

/-! ## Messages of a chain -/

def Chain.messages (c : Chain) : List Message :=
  c.toBookingEnrichment ++ c.toCompanyCostEnrichment ++ c.toOwnerContractEnrichment ++ c.toPriceDecision

section
variable {c : Chain} {m : Message}

theorem Chain.mem_messages : m ∈ c.messages ↔ m ∈ c.toBookingEnrichment ∨ m ∈ c.toCompanyCostEnrichment ∨
    m ∈ c.toOwnerContractEnrichment ∨ m ∈ c.toPriceDecision := by
  simp only [Chain.messages, List.mem_append, or_assoc]

theorem Chain.mem_toBookingEnrichment (h : m ∈ c.toBookingEnrichment) : m ∈ c.messages := by
  simp [Chain.messages, h]

theorem Chain.mem_toCompanyCostEnrichment (h : m ∈ c.toCompanyCostEnrichment) : m ∈ c.messages := by
  simp [Chain.messages, h]

theorem Chain.mem_toOwnerContractEnrichment (h : m ∈ c.toOwnerContractEnrichment) : m ∈ c.messages := by
  simp [Chain.messages, h]

theorem Chain.mem_toPriceDecision (h : m ∈ c.toPriceDecision) : m ∈ c.messages := by
  simp [Chain.messages, h]

end

/-- What an operator sends in a step. -/
inductive Chain.Sends (c : Chain) (step : ℕ) (now : Instant) : PipelineEvent → Message → Prop
  | built (a : String) {cause : Cause} {line : EnrichedPaymentLine} {rest : List (Cause × EnrichedPaymentLine)}
      {cost : CostAggregate} : c.toCostEnrichment = (cause, line) :: rest →
      cost ∈ (c.costEnrichment.processElement now line).2 →
      Sends c step now (.operate a .costEnrichment) ⟨cause, step, cost⟩
  | recomputed (a : String) (bookings : List BookingRow) {m : Message} : m ∈ c.messages →
      Sends c step now (.operate a .bookingEnrichment) { m with cost := recompute bookings m.cost }
  | again (value : BookingRow) (bookings : List BookingRow) {latest : CostAggregate} :
      c.bookingEnrichment.latestCostAggregate = some latest →
      Sends c step now (.booking value) ⟨⟨.booking, step⟩, c.latestBorn, recompute bookings latest⟩
  | allocated (a : String) {m : Message} : m ∈ c.messages →
      Sends c step now (.operate a .companyCostEnrichment)
        { m with cost := c.companyCostEnrichment.processElement (applyCorrections m.cost) }
  | charged (a : String) {m : Message} {cost : CostAggregate} : m ∈ c.messages →
      cost ∈ c.ownerContractEnrichment.processElement m.cost →
      Sends c step now (.operate a .ownerContractEnrichment) { m with cost := cost }

section
variable {c : Chain} {step : ℕ} {now : Instant} {e : PipelineEvent}

theorem Chain.react_sends : ∀ m ∈ (c.react step now e).messages, m ∈ c.messages ∨ c.Sends step now e m := by
  intro m hm
  have hreacts := c.reacts step now e
  generalize c.react step now e = c' at hm hreacts
  cases hreacts with
  | market value => exact .inl hm
  | idle a hidle => exact .inl hm
  | payment value => exact .inl hm
  | configure a row => cases row <;> exact .inl hm
  | booking value bookings =>
    simp only [Chain.mem_messages, List.mem_append, Option.mem_toList, Option.map_eq_some_iff] at hm ⊢
    rcases hm with hm | (hm | ⟨latest, hlatest, rfl⟩) | hm | hm
    · simp [hm]
    · simp [hm]
    · exact .inr (.again value bookings.values hlatest)
    · simp [hm]
    · simp [hm]
  | costEnrichment a hq =>
    simp only [Chain.mem_messages, List.mem_append, List.mem_map] at hm ⊢
    rcases hm with (hm | ⟨cost, hcost, rfl⟩) | hm | hm | hm
    · simp [hm]
    · exact .inr (.built a hq hcost)
    · simp [hm]
    · simp [hm]
    · simp [hm]
  | bookingEnrichment a hq =>
    simp only [Chain.mem_messages, List.mem_append, List.mem_singleton] at hm ⊢
    rcases hm with hm | (hm | rfl) | hm | hm
    · simp [hq, hm]
    · simp [hm]
    · exact .inr (.recomputed a _ (Chain.mem_toBookingEnrichment (by simp [hq])))
    · simp [hm]
    · simp [hm]
  | companyCostEnrichment a hq =>
    simp only [Chain.mem_messages, List.mem_append, List.mem_singleton] at hm ⊢
    rcases hm with hm | hm | (hm | rfl) | hm
    · simp [hm]
    · simp [hq, hm]
    · simp [hm]
    · exact .inr (.allocated a (Chain.mem_toCompanyCostEnrichment (by simp [hq])))
    · simp [hm]
  | ownerContractEnrichment a hq =>
    simp only [Chain.mem_messages, List.mem_append, List.mem_map] at hm ⊢
    rcases hm with hm | hm | hm | hm | ⟨cost, hcost, rfl⟩
    · simp [hm]
    · simp [hm]
    · simp [hq, hm]
    · simp [hm]
    · exact .inr (.charged a (Chain.mem_toOwnerContractEnrichment (by simp [hq])) hcost)
  | price a segment =>
    simp only [Chain.dropPriced, Chain.mem_messages] at hm ⊢
    rcases hm with hm | hm | hm | hm
    · simp [hm]
    · simp [hm]
    · simp [hm]
    · simp [List.mem_of_mem_eraseP hm]

/-- A property of origins holds of every message after a step if it holds of what Stage A builds and of
what the bookings operator sends again. -/
theorem Chain.react_messages {P : Cause → ℕ → Origin → Prop} (h : ∀ m ∈ c.messages, P m.cause m.born m.cost.origin)
    (hbuilt : ∀ a cause line rest, e = .operate a .costEnrichment → c.toCostEnrichment = (cause, line) :: rest →
      ∀ cost ∈ (c.costEnrichment.processElement now line).2, P cause step cost.origin)
    (hagain : ∀ value cost, e = .booking value → c.bookingEnrichment.latestCostAggregate = some cost →
      P ⟨.booking, step⟩ c.latestBorn cost.origin) :
    ∀ m ∈ (c.react step now e).messages, P m.cause m.born m.cost.origin := by
  intro m hm
  rcases Chain.react_sends m hm with hold | hsent
  · exact h m hold
  cases hsent with
  | built a hq hcost => exact hbuilt a _ _ _ rfl hq _ hcost
  | @recomputed a bookings m₀ hm₀ => exact h m₀ hm₀
  | @again value bookings latest hlatest => exact hagain value latest rfl hlatest
  | @allocated a m₀ hm₀ =>
    rw [companyCosts_origin, applyCorrections_origin]
    exact h m₀ hm₀
  | @charged a m₀ cost hm₀ hcost =>
    rw [ownerContract_origin cost hcost]
    exact h m₀ hm₀

end

/-! ## The rest of a chain -/

section
variable {c : Chain} {step : ℕ} {now : Instant} {e : PipelineEvent}

/-- The bookings operator goes on holding its aggregate, or it holds the one it has taken. -/
theorem Chain.react_latest {R : ℕ → CostAggregate → Prop}
    (h : ∀ latest ∈ c.bookingEnrichment.latestCostAggregate, R c.latestBorn latest)
    (hm : ∀ m ∈ c.toBookingEnrichment, R m.born m.cost) :
    ∀ latest ∈ (c.react step now e).bookingEnrichment.latestCostAggregate,
      R (c.react step now e).latestBorn latest := by
  have hreacts := c.reacts step now e
  generalize c.react step now e = c' at hreacts
  cases hreacts with
  | configure a row => cases row <;> exact h
  | @bookingEnrichment a m rest hq =>
    intro latest hlatest
    rw [← Option.some.inj hlatest]
    exact hm m (hq ▸ List.mem_cons_self ..)
  | _ => exact h

theorem Chain.react_lines : ∀ m ∈ (c.react step now e).toCostEnrichment,
    m ∈ c.toCostEnrichment ∨
      ∃ value, e = .payment value ∧ m.1 = ⟨.payment, step⟩ ∧ m.2 ∈ c.resolution.processElement value := by
  intro m hm
  have hreacts := c.reacts step now e
  generalize c.react step now e = c' at hm hreacts
  cases hreacts with
  | configure a row => cases row <;> exact Or.inl hm
  | payment value =>
    rcases List.mem_append.mp hm with hm | hm
    · exact Or.inl hm
    · obtain ⟨line, hl, rfl⟩ := List.mem_map.mp hm
      exact Or.inr ⟨value, rfl, rfl, hl⟩
  | costEnrichment a hq => exact Or.inl (hq ▸ List.mem_cons_of_mem _ hm)
  | _ => exact Or.inl hm

theorem Chain.react_config :
    ((c.react step now e).costEnrichment.segments = c.costEnrichment.segments ∧
      (c.react step now e).costEnrichment.strategies = c.costEnrichment.strategies) ∨
    ∃ a row, e = .configure a (.apartmentConfig row) ∧
      (c.react step now e).costEnrichment = c.costEnrichment.processBroadcastElement row := by
  have hreacts := c.reacts step now e
  generalize c.react step now e = c' at hreacts
  cases hreacts with
  | configure a row =>
    cases row with
    | apartmentConfig row => exact Or.inr ⟨a, row, rfl, rfl⟩
    | _ => exact Or.inl ⟨rfl, rfl⟩
  | _ => exact Or.inl ⟨rfl, rfl⟩

end

theorem resolution_apartmentId {s : CostDefinitionResolution} {value : PaymentLine} :
    ∀ line ∈ s.processElement value, line.apartmentId = value.apartmentId := by
  intro line hl
  unfold CostDefinitionResolution.processElement at hl
  split at hl
  · rw [List.mem_singleton.mp hl]
  · cases hl

/-! ## The whole job -/

/-- Stage B handles a market price of its segment, or the oldest aggregate a chain has sent it. -/
theorem Pipeline.input_cases {s : Pipeline} {e : PipelineEvent} {cause : Cause} {segment : SegmentKey}
    {event : StageBEvent} (h : s.input e = some (cause, segment, event)) :
    (∃ value, e = .market value ∧ cause = ⟨.market, s.steps⟩ ∧ segment = value.segmentKey ∧
      event = .market value) ∨
    ∃ a m, e = .price a segment ∧ m ∈ (s.chains a).messages ∧ m.cost.segmentKey = segment ∧
      cause = m.cause ∧ event = .cost m.cost := by
  cases e with
  | market value =>
    simp only [Pipeline.input, Option.some.injEq, Prod.mk.injEq] at h
    obtain ⟨rfl, rfl, rfl⟩ := h
    exact Or.inl ⟨value, rfl, rfl, rfl, rfl⟩
  | price a segment' =>
    obtain ⟨m, hm, h⟩ := Option.map_eq_some_iff.mp h
    simp only [Prod.mk.injEq] at h
    obtain ⟨rfl, rfl, rfl⟩ := h
    have hmem := List.mem_of_find?_eq_some hm
    have hfor : m.isFor segment' = true := by simpa using List.find?_some hm
    exact Or.inr ⟨a, m, rfl, Chain.mem_toPriceDecision hmem, eq_of_beq hfor, rfl, rfl⟩
  | _ => cases h

/-- `K a` holds of every aggregate of apartment `a`: on its way, held by the bookings operator, or stored. -/
structure Pipeline.Carries (K : String → Origin → Prop) (s : Pipeline) : Prop where
  messages : ∀ a, ∀ m ∈ (s.chains a).messages, K a m.cost.origin
  latest : ∀ a, ∀ latest ∈ (s.chains a).bookingEnrichment.latestCostAggregate, K a latest.origin
  stored : ∀ segment, (s.segments segment).apartments.All fun a cost => K a cost.origin

theorem carries_empty (K : String → Origin → Prop) : ({} : Pipeline).Carries K where
  messages _ _ h := nomatch h
  latest _ _ h := nomatch h
  stored _ := Dict.all_empty _

/-- What waits in a chain entered before, and its lines are of the chain's apartment. -/
structure Pipeline.Entered (s : Pipeline) : Prop where
  lines : ∀ a, ∀ m ∈ (s.chains a).toCostEnrichment, m.1.step < s.steps ∧ m.2.apartmentId = a
  causes : ∀ a, ∀ m ∈ (s.chains a).messages, m.cause.step < s.steps

theorem entered_empty : ({} : Pipeline).Entered where
  lines _ _ h := nomatch h
  causes _ _ h := nomatch h

structure Pipeline.Owned (s : Pipeline) : Prop extends s.Entered, s.Carries fun a o => o.apartmentId = a

theorem owned_empty : ({} : Pipeline).Owned := ⟨entered_empty, carries_empty _⟩

section
variable {s s' : Pipeline} {e : Env × PipelineEvent} {os : List Emitted} (h : s.step e = .ok (s', os))
include h

/-- Stage A alone decides what the aggregates of an apartment carry. -/
theorem step_carries {K : String → Origin → Prop} (hK : ∀ a o, K a o → o.apartmentId = a) (hs : s.Carries K)
    (hbuilt : ∀ a cause line rest, e.2 = .operate a .costEnrichment →
      (s.chains a).toCostEnrichment = (cause, line) :: rest →
      ∀ cost ∈ ((s.chains a).costEnrichment.processElement (e.1.now 0) line).2, K a cost.origin) :
    s'.Carries K := by
  obtain ⟨-, hchains, hsegments⟩ := Pipeline.step_cases h
  refine ⟨fun a m hm => ?_, fun a latest hl => ?_, fun segment => ?_⟩
  · rw [hchains] at hm
    split at hm
    · rename_i ha
      refine Chain.react_messages (P := fun _ _ o => K a o) (hs.messages a)
        (fun b cause line rest he hq => ?_) (fun value cost _ hl => ?_) m hm
      · rw [he] at ha
        obtain rfl : b = a := Option.some.inj ha
        exact hbuilt b cause line rest he hq
      · exact hs.latest a cost hl
    · exact hs.messages a m hm
  · rw [hchains] at hl
    split at hl
    · exact Chain.react_latest (R := fun _ cost => K a cost.origin) (hs.latest a)
        (fun m hm => hs.messages a m (Chain.mem_toBookingEnrichment hm)) latest hl
    · exact hs.latest a latest hl
  · rcases hsegments with ⟨-, hseg, -⟩ | ⟨cause, seg, event, b, ds, hin, hstep, hseg, -⟩
    · rw [hseg]
      exact hs.stored segment
    · rw [hseg]
      by_cases hne : segment = seg
      · subst hne
        rw [Function.update_self]
        refine step_stored hstep (hs.stored segment) fun value hv => ?_
        rcases Pipeline.input_cases hin with ⟨_, -, -, -, rfl⟩ | ⟨a, m, -, hm, -, -, rfl⟩
        · cases hv
        · obtain rfl : m.cost = value := StageBEvent.cost.inj hv
          have hk := hs.messages a m hm
          have ha : m.cost.apartmentId = a := hK a _ hk
          rw [ha]
          exact hk
      · rw [Function.update_of_ne hne]
        exact hs.stored segment

theorem step_entered (hs : s.Entered) : s'.Entered := by
  obtain ⟨hsteps, hchains, -⟩ := Pipeline.step_cases h
  refine ⟨fun a m hm => ?_, fun a => ?_⟩
  · rw [hsteps]
    rw [hchains] at hm
    split at hm
    · rename_i ha
      rcases Chain.react_lines m hm with hold | ⟨value, he, hcause, hline⟩
      · exact ⟨(hs.lines a m hold).1.trans (Nat.lt_succ_self _), (hs.lines a m hold).2⟩
      · rw [he] at ha
        refine ⟨?_, (resolution_apartmentId m.2 hline).trans (Option.some.inj ha)⟩
        rw [hcause]
        exact Nat.lt_succ_self _
    · exact ⟨(hs.lines a m hm).1.trans (Nat.lt_succ_self _), (hs.lines a m hm).2⟩
  · rw [hsteps, hchains]
    have hold : ∀ m ∈ (s.chains a).messages, m.cause.step < s.steps + 1 := fun m hm =>
      (hs.causes a m hm).trans (Nat.lt_succ_self _)
    split
    · refine Chain.react_messages (P := fun cause _ _ => cause.step < s.steps + 1) hold ?_ ?_
      · intro b cause line rest _ hq _ _
        exact (hs.lines a (cause, line) (hq ▸ List.mem_cons_self ..)).1.trans (Nat.lt_succ_self _)
      · exact fun _ _ _ _ => Nat.lt_succ_self _
    · exact hold

theorem step_owned (hs : s.Owned) : s'.Owned := by
  refine ⟨step_entered h hs.toEntered, step_carries h (fun _ _ hk => hk) hs.toCarries ?_⟩
  intro a cause line rest _ hq cost hc
  obtain ⟨_, _, -, -, ho⟩ := costEnrichment_origin cost hc
  rw [ho]
  exact (hs.lines a (cause, line) (hq ▸ List.mem_cons_self ..)).2

/-- A decision of the step was computed from the aggregate taken from its channel, or from a stored one. -/
theorem step_emitted (hs : s.Owned) : ∀ o ∈ os,
    (∃ m ∈ (s.chains o.decision.apartmentId).messages, e.2 = .price o.decision.apartmentId o.segment ∧
      m.cost.segmentKey = o.segment ∧ o.cause = m.cause ∧ o.decision.terms = m.cost.terms) ∨
    ∃ value cost, e.2 = .market value ∧ o.segment = value.segmentKey ∧ o.cause = ⟨.market, s.steps⟩ ∧
      (s.segments o.segment).accepts (e.1, .market value) = true ∧
      ((s.segments o.segment).nightOf value).blended.isSome ∧
      (s.segments o.segment).apartments.get? o.decision.apartmentId = some cost ∧
      o.decision.terms = cost.terms := by
  intro o ho
  obtain ⟨-, -, ⟨-, -, rfl⟩ | ⟨cause, segment, event, b, ds, hin, hstep, -, rfl⟩⟩ := Pipeline.step_cases h
  · cases ho
  obtain ⟨d, hd, rfl⟩ := List.mem_map.mp ho
  obtain ⟨hacc, job, hj, i, hp⟩ := step_decision hstep d hd
  obtain ⟨hside, hc, hn, hb⟩ := StageB.mem_jobs.mp hj
  obtain ⟨ha, -, -⟩ := hp.fields
  obtain ⟨_, _, -, hbuild⟩ := hp
  have hterms : d.terms = job.cost.terms := by
    obtain ⟨h1, h2, h3⟩ := build_strategy hbuild
    simp only [PriceDecision.terms, CostAggregate.terms, h1, h2, h3]
  rcases Pipeline.input_cases hin with ⟨value, he, rfl, rfl, rfl⟩ | ⟨a, m, he, hm, hseg, rfl, rfl⟩
  · right
    rw [StageB.accept_market, acceptMarket_apartments] at hc
    have hown : job.cost.apartmentId = job.apartmentId := hs.stored _ _ _ hc
    have hside : job.targetDate = value.targetDate := hside
    rw [StageB.accept_market, hside, acceptMarket_nights, if_pos rfl] at hn
    refine ⟨value, job.cost, he, rfl, rfl, hacc, ?_, ?_, hterms⟩
    · rw [Option.some.inj hn]
      exact hb
    · rw [ha, hown]
      exact hc
  · left
    have hside : job.apartmentId = m.cost.apartmentId := hside
    rw [StageB.accept_cost, acceptCost_apartments, if_pos hside] at hc
    have hcost : m.cost = job.cost := Option.some.inj hc
    have hown : m.cost.apartmentId = a := hs.messages a m hm
    obtain rfl : d.apartmentId = a := by rw [ha, ← hcost, hown]
    exact ⟨m, hm, he, hseg, rfl, by rw [hterms, hcost]⟩

end

theorem run_owned {es : List (Env × PipelineEvent)} {s s' : Pipeline} {os : List Emitted} (hs : s.Owned)
    (h : run Pipeline.step s es = .ok (s', os)) : s'.Owned :=
  run_preserves (fun _ _ _ _ hi hstep => step_owned hstep hi) hs h

theorem run_steps {es : List (Env × PipelineEvent)} {s s' : Pipeline} {os : List Emitted}
    (h : run Pipeline.step s es = .ok (s', os)) : s'.steps = s.steps + es.length := by
  induction es generalizing s os with
  | nil => rw [(run_nil.mp h).1, List.length_nil, Nat.add_zero]
  | cons e es ih =>
    obtain ⟨s₁, o, os', hs, hr, -⟩ := run_cons.mp h
    rw [ih hr, (Pipeline.step_cases hs).1, List.length_cons, Nat.add_right_comm, Nat.add_assoc]

/-! ## A flat in the job -/

def flatLine (eventId : String) (amountGross : ℕ) (createdAt : Instant) : PaymentLine :=
  { eventId := eventId
    apartmentId := "a1"
    apartmentReference := "A-1"
    costDefinitionId := "electricity"
    billingPeriodStart := toordinal 2026 9 1
    billingPeriodEnd := toordinal 2026 9 30
    amountGross := amountGross
    createdAt := createdAt
    amountGross_nonneg := Nat.cast_nonneg _ }

def electricityDefinition : CostDefinitionRow :=
  { costDefinitionId := "electricity"
    concept := .electricity
    scope := .property
    behavior := .variable'
    trigger := .time
    calculationBase := .fixedAmount
    recurrence := .monthly
    revenueBase := none }

def commissionDefinition : CostDefinitionRow :=
  { costDefinitionId := "commission"
    concept := .ownerCommission
    scope := .property
    behavior := .variable'
    trigger := .revenue
    calculationBase := .pctRevenue
    recurrence := .monthly
    revenueBase := some .totalRevenue
    rate := some (10 / 100) }

def flatSegment (neighborhood : String) : ApartmentSegmentRow :=
  { apartmentId := "a1"
    city := "Barcelona"
    neighborhood := neighborhood
    propertyType := .apartment
    bedrooms := 2 }

def flatStrategy (version : ℤ) (targetMargin : ℚ) : PricingStrategyRow :=
  { apartmentId := "a1"
    version := version
    targetMargin := targetMargin
    competitivenessDiscount := 5 / 100 }

/-- The rows that let the costs of the flat through to Stage B, in Gracia. -/
def flatRows : List PipelineEvent :=
  [.configure "a1" (.costConfig (.definition electricityDefinition)),
   .configure "a1" (.costConfig (.allocationRule
     { costDefinitionId := "electricity", method := .direct, weightConfig := none })),
   .configure "a1" (.apartmentConfig (.segment (flatSegment "Gracia"))),
   .configure "a1" (.apartmentConfig (.strategy (flatStrategy 1 (20 / 100)))),
   .configure "a1" (.ownerConfig (.contract
     { apartmentId := "a1", ownerId := "o1", costDefinitionId := "commission" })),
   .configure "a1" (.ownerConfig (.definition commissionDefinition))]

def flatOperators : List PipelineEvent :=
  [.operate "a1" .costEnrichment, .operate "a1" .bookingEnrichment, .operate "a1" .companyCostEnrichment,
   .operate "a1" .ownerContractEnrichment]

def flatFlow (segment : SegmentKey) : List PipelineEvent := flatOperators ++ [.price "a1" segment]

def gracia : SegmentKey := (flatSegment "Gracia").segmentKey

/-- The events handled one after another, the `i`-th at the instant `start + i`. -/
def jobFrom (start : Instant) (events : List PipelineEvent) : List (Env × PipelineEvent) :=
  events.mapIdx fun i e => (envAt (start + i), e)

theorem mem_of_mem_jobFrom {start : Instant} {events : List PipelineEvent} {e : Env × PipelineEvent}
    (h : e ∈ jobFrom start events) : e.2 ∈ events := by
  obtain ⟨i, hi, rfl⟩ := List.mem_mapIdx.mp h
  exact List.getElem_mem hi

end PriceEngine
