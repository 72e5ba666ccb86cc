import PriceEngine.DecisionDump
import PriceEngine.LakehouseRow

/-!
# Decisions in the lakehouse

A decision is dumped as JSON, written in the attribute format, read from the
stream and projected onto a row. `PriceDecisionRecord.row` is what the row should
say: each field as it was, with the retired `floor_type` empty. It does, wherever
the numbers of the decision survive their texts.
-/

namespace PriceEngine

/-! ## What the row should say -/

def ConceptAmount.row (c : ConceptAmount) : Value :=
  .dict
    [("concept", .str c.concept.text),
     ("amount_eur", .float c.amountEur),
     ("scope", .str c.scope.text),
     ("behavior", .str c.behavior.text),
     ("trigger", .str c.trigger.text),
     ("calculation_base", .str c.calculationBase.text),
     ("recurrence", .str c.recurrence.text),
     ("allocation_method", .str c.allocationMethod.text)]

def CostInputs.row (c : CostInputs) : Value :=
  .dict
    [("billing_period", .dict [("start", .date c.billingPeriodStart), ("end", .date c.billingPeriodEnd)]),
     ("total_monthly_cost_eur", .float c.totalMonthlyCostEur),
     ("available_days", .int c.availableDays),
     ("fixed_cost_eur", .float c.fixedCostEur),
     ("variable_cost_eur", .float c.variableCostEur),
     ("per_booking_cost_eur", .float c.perBookingCostEur),
     ("cost_lines_count", .ofOption (fun n : ℕ => .int n) c.costLinesCount),
     ("cost_breakdown", .list (c.costBreakdown.map ConceptAmount.row)),
     ("fixed_and_allocated_costs_eur", .float c.fixedAndAllocatedCostsEur),
     ("p", .float c.p)]

def MarketInputs.row (m : MarketInputs) : Value :=
  .dict
    [("market_area", .str m.marketArea),
     ("avg_nightly_rate_eur", .float m.avgNightlyRateEur),
     ("occupancy_rate", .ofOption .float m.occupancyRate),
     ("sample_size", .ofOption (fun n : ℕ => .int n) m.sampleSize),
     ("collected_at", .datetime m.collectedAt),
     ("data_age_seconds", .int m.dataAgeSeconds)]

def DecisionComponent.row (c : DecisionComponent) : Value :=
  .dict [("code", .str c.code.text), ("label", .str c.label), ("impact", .float c.impact)]

def ManualOverrideDetails.row (m : ManualOverrideDetails) : Value :=
  .dict
    [("override_price_eur", .float m.overridePriceEur),
     ("reason", .str m.reason),
     ("authorized_by", .str m.authorizedBy),
     ("valid_until", .datetime m.validUntil),
     ("expected_loss_eur", .float m.expectedLossEur)]

def MinimumStayFields.row (m : MinimumStayFields) : Value :=
  .dict
    [("recommended_min_stay", .ofOption (fun n : ℕ+ => .int n) m.recommendedMinStay),
     ("floor_relief_eur", .ofOption .float m.floorReliefEur),
     ("cost_per_reservation_eur", .ofOption .float m.costPerReservationEur),
     ("suggested_price_per_reservation_eur", .ofOption .float m.suggestedPricePerReservationEur)]

def ChannelPriceCandidate.row (c : ChannelPriceCandidate) : Value :=
  .dict
    [("platform", .str c.platform.text),
     ("avg_nightly_rate_eur", .float c.avgNightlyRateEur),
     ("commission_pct", .float c.commissionPct),
     ("market_reference_price_eur", .float c.marketReferencePriceEur),
     ("minimum_price_eur", .float c.minimumPriceEur),
     ("floor_type", .null),
     ("floor_policy", .str c.floorPolicy.text),
     ("rule_applied", .str c.ruleApplied.text),
     ("suggested_price_eur", .float c.suggestedPriceEur),
     ("effective_margin", .float c.effectiveMargin),
     ("decision_components", .list (c.decisionComponents.map DecisionComponent.row))]

def LosFloorCandidate.row (c : LosFloorCandidate) : Value :=
  .dict
    [("stay_length", .int c.stayLength),
     ("minimum_price_eur", .float c.minimumPriceEur),
     ("floor_type", .null),
     ("floor_policy", .str c.floorPolicy.text),
     ("rule_applied", .str c.ruleApplied.text),
     ("suggested_price_eur", .float c.suggestedPriceEur),
     ("effective_margin", .float c.effectiveMargin),
     ("decision_components", .list (c.decisionComponents.map DecisionComponent.row))]

def Calculation.row (c : Calculation) : Value :=
  .dict
    [("target_margin", .float c.targetMargin),
     ("minimum_price_eur", .float c.minimumPriceEur),
     ("floor_type", .null),
     ("floor_policy", .str c.floorPolicy.text),
     ("commission_pct", .float c.commissionPct),
     ("days_to_arrival", .int c.daysToArrival),
     ("competitiveness_discount", .float c.competitivenessDiscount),
     ("property_attribute_factor", .float c.propertyAttributeFactor),
     ("property_reference_price_eur", .float c.propertyReferencePriceEur),
     ("market_reference_price_eur", .float c.marketReferencePriceEur),
     ("rule_applied", .str c.ruleApplied.text),
     ("los_floor_matrix", .list (c.losFloorMatrix.map LosFloorCandidate.row)),
     ("decision_components", .list (c.decisionComponents.map DecisionComponent.row)),
     ("commission_base", .str c.commissionBase.text),
     ("manual_override", .ofOption ManualOverrideDetails.row c.manualOverride),
     ("minimum_stay_recommendation", c.minimumStayRecommendation.row),
     ("channel_price_matrix", .list (c.channelPriceMatrix.map ChannelPriceCandidate.row)),
     ("break_even_revenue_eur", .float c.breakEvenRevenueEur),
     ("profitable_floor_eur", .float c.profitableFloorEur),
     ("viability_status", .str c.viabilityStatus.text),
     ("floor_breach_days", .int c.floorBreachDays),
     ("pricing_strategy_version", .int c.pricingStrategyVersion)]

def Output.row (o : Output) : Value :=
  .dict
    [("suggested_price_eur", .float o.suggestedPriceEur),
     ("currency", .str "EUR"),
     ("effective_margin", .float o.effectiveMargin),
     ("below_market_by", .float o.belowMarketBy)]

def PriceDecisionRecord.row (r : PriceDecisionRecord) (eventName : String) (ingestedAt : Instant) : Value :=
  .dict
    [("decision_id", .str r.decisionId),
     ("apartment_id", .str r.apartmentId),
     ("apartment_reference", .str r.apartmentReference),
     ("target_date", .date r.targetDate),
     ("decided_at", .datetime r.decidedAt),
     ("cost_inputs", r.costInputs.row),
     ("market_inputs", r.marketInputs.row),
     ("calculation", r.calculation.row),
     ("output", r.output.row),
     ("dynamodb_event_name", .str eventName),
     ("ingested_at", .datetime ingestedAt)]

/-! ## Values that survive -/

variable {t : NumberText}

theorem survives_dict {entries : List (String × Value)} :
    t.Survives (.dict entries) ↔ ∀ e ∈ entries, t.Survives e.2 := Value.leaves_dict

theorem survives_list {α : Type*} {f : α → Value} {xs : List α} :
    t.Survives (.list (xs.map f)) ↔ ∀ x ∈ xs, t.Survives (f x) := Value.leaves_list

theorem survives_ofOption {α : Type*} {f : α → Value} {o : Option α} (h : t.Survives (.ofOption f o)) :
    ∀ a ∈ o, t.Survives (f a) := by
  rintro a rfl
  exact h

theorem receivedList_map {α : Type*} (f : α → Value) (xs : List α) :
    receivedList t (xs.map f) = xs.map fun x => (f x).received t := by
  rw [receivedList_eq, List.map_map]
  rfl

theorem received_ofOption {α : Type*} (f : α → Value) (o : Option α) :
    (Value.ofOption f o).received t = Value.ofOption (fun a => (f a).received t) o := by
  cases o <;> rfl

theorem item_received {entries : List (String × Value)} {key : String} {v : Value} (h : entries.lookup key = some v) :
    ((Value.dict entries).received t).item key = .ok (v.received t) := by
  have hlookup : (receivedEntries t entries).lookup key = some (v.received t) := by
    rw [receivedEntries_eq]
    induction entries with
    | nil => cases h
    | cons e es ih =>
      obtain ⟨k, w⟩ := e
      rw [List.map_cons, List.lookup_cons]
      rw [List.lookup_cons] at h
      cases hkey : key == k with
      | true =>
        rw [hkey] at h
        rw [Option.some.inj h]
      | false =>
        rw [hkey] at h
        exact ih h
  rw [Value.received, Value.item, hlookup]

namespace Lakehouse

theorem num_received {x : ℚ} (h : t.Survives (.float x)) : num t (.decimal (t.readFloat x)) = .ok (.float x) :=
  congrArg (fun y => Except.ok (Value.float y)) (h _ (List.mem_singleton_self _)).2

@[simp] theorem int_received (n : ℤ) : int t (.decimal n) = .ok (.int n) := by
  simp [int, Value.isNull, toInt, truncate]

@[simp] theorem int_received_nat (n : ℕ) : int t (.decimal n) = .ok (.int n) := int_received (n : ℤ)

theorem num_ofOption {o : Option ℚ} (h : t.Survives (.ofOption .float o)) :
    num t (.ofOption (fun x => .decimal (t.readFloat x)) o) = .ok (.ofOption .float o) := by
  cases o with
  | none => rfl
  | some x => exact num_received h

theorem int_ofOption {α : Type*} (f : α → ℕ) (o : Option α) :
    int t (.ofOption (fun a => .decimal (f a)) o) = .ok (.ofOption (fun a => .int (f a)) o) := by
  cases o with
  | none => rfl
  | some a => exact int_received_nat _

theorem date_received {d : Date} (h : Date.InRange d) : date (.str (isoformat d)) = .ok (.date d) := by
  rw [date, dateFromisoformat_isoformat h]
  rfl

theorem ts_received {offset : ℤ} (hoffset : ClockOffset offset) {u : Instant}
    (hu : Date.InRange (Instant.date (localTime offset u))) :
    ts (.str (isoDatetime offset u)) = .ok (.datetime u) := by
  rw [ts, datetimeFromisoformat_isoDatetime hoffset hu]
  rfl

theorem listOf_map {α : Type*} {row : Value → Except PyError Value} {f g : α → Value} {xs : List α}
    (h : ∀ x ∈ xs, row (f x) = .ok (g x)) : listOf row (.list (xs.map f)) = .ok (.list (xs.map g)) := by
  have hall : (xs.map f).mapM row = .ok (xs.map g) := by
    rw [mapM_eq_ok, List.forall₂_map_left_iff, List.forall₂_map_right_iff, List.forall₂_same]
    exact h
  rw [listOf, Value.elements]
  rw [ok_bind, hall]
  rfl

/-! ## Nested records -/

theorem decisionComponents_received {cs : List DecisionComponent} (h : ∀ c ∈ cs, t.Survives c.modelDump) :
    decisionComponents t (.list (cs.map fun c => c.modelDump.received t)) =
      .ok (.list (cs.map DecisionComponent.row)) := by
  refine listOf_map fun c hc => Value.entries_eq_ok ?_
  have hc := h c hc
  simp only [DecisionComponent.modelDump, survives_dict, List.forall_mem_cons] at hc
  simp [DecisionComponent.modelDump, Value.received, receivedEntries, Value.item, List.lookup_cons, num_received, hc]

theorem costBreakdown_received {cs : List ConceptAmount} (h : ∀ c ∈ cs, t.Survives c.modelDump)
    {fields : List (String × Value)}
    (hfield : fields.lookup "cost_breakdown" = some (.list (cs.map fun c => c.modelDump.received t))) :
    costBreakdown t (.dict fields) = .ok (.list (cs.map ConceptAmount.row)) := by
  rw [costBreakdown, Value.get, hfield]
  refine listOf_map fun c hc => Value.entries_eq_ok ?_
  have hc := h c hc
  simp only [ConceptAmount.modelDump, survives_dict, List.forall_mem_cons] at hc
  simp [ConceptAmount.modelDump, Value.received, receivedEntries, Value.item, Value.get, List.lookup_cons, num_received,
    hc]

/-- A recorded policy is not empty, so no fallback is asked for. -/
theorem policy_orElse (policy : FloorPolicy) (w : Unit → Except PyError Value) :
    (Value.str policy.text).orElse w = .ok (.str policy.text) := by
  cases policy <;> simp [Value.orElse, Value.truth, FloorPolicy.text]

theorem losFloorCandidate_received {c : LosFloorCandidate} (h : t.Survives c.modelDump) (calculation : Value) :
    losFloorCandidate t calculation (c.modelDump.received t) = .ok c.row := by
  refine Value.entries_eq_ok ?_
  simp only [LosFloorCandidate.modelDump, survives_dict, List.forall_mem_cons, survives_list] at h
  obtain ⟨_, _, _, _, _, _, hcomponents, _⟩ := id h
  simp [LosFloorCandidate.modelDump, Value.received, receivedEntries, receivedList_map, Value.item, Value.get,
    List.lookup_cons, floorPolicy, policy_orElse, num_received, decisionComponents_received hcomponents, h]

theorem channelPriceMatrix_received {cs : List ChannelPriceCandidate} (h : ∀ c ∈ cs, t.Survives c.modelDump)
    {fields : List (String × Value)}
    (hfield : fields.lookup "channel_price_matrix" = some (.list (cs.map fun c => c.modelDump.received t))) :
    channelPriceMatrix t (.dict fields) = .ok (.list (cs.map ChannelPriceCandidate.row)) := by
  rw [channelPriceMatrix, Value.get, hfield]
  refine listOf_map fun c hc => Value.entries_eq_ok ?_
  have hc := h c hc
  simp only [ChannelPriceCandidate.modelDump, survives_dict, List.forall_mem_cons, survives_list] at hc
  obtain ⟨_, _, _, _, _, _, _, _, _, hcomponents, _⟩ := id hc
  simp [ChannelPriceCandidate.modelDump, Value.received, receivedEntries, receivedList_map, Value.item, Value.get,
    List.lookup_cons, num_received, decisionComponents_received hcomponents, hc]

theorem minimumStayRecommendation_received {m : MinimumStayFields} (h : t.Survives m.modelDump)
    {fields : List (String × Value)}
    (hfield : fields.lookup "minimum_stay_recommendation" = some (m.modelDump.received t)) :
    minimumStayRecommendation t (.dict fields) = .ok m.row := by
  simp only [MinimumStayFields.modelDump, survives_dict, List.forall_mem_cons] at h
  simp only [MinimumStayFields.modelDump, Value.received, receivedEntries, received_ofOption] at hfield
  rw [minimumStayRecommendation, Value.get, hfield]
  refine Value.entries_eq_ok ?_
  simp [Value.get, List.lookup_cons, num_ofOption, int_ofOption, h]

theorem manualOverride_received {clock : Instant → ℤ} {o : Option ManualOverrideDetails}
    (h : ∀ m ∈ o, t.Survives (m.modelDump clock)) (hclock : ∀ m ∈ o, ClockOffset (clock m.validUntil))
    (hrange : ∀ m ∈ o, Date.InRange (Instant.date (localTime (clock m.validUntil) m.validUntil)))
    {fields : List (String × Value)}
    (hfield : fields.lookup "manual_override" =
      some (.ofOption (fun m => (m.modelDump clock).received t) o)) :
    manualOverride t (.dict fields) = .ok (.ofOption ManualOverrideDetails.row o) := by
  rw [manualOverride, Value.get, hfield]
  cases o with
  | none => rfl
  | some m =>
    have h := h m rfl
    simp only [ManualOverrideDetails.modelDump, survives_dict, List.forall_mem_cons] at h
    have hpresent : ((m.modelDump clock).received t).isNull = false := rfl
    simp only [Value.ofOption, Option.getD_some, ok_bind, hpresent, Bool.false_eq_true, if_false]
    refine Value.entries_eq_ok ?_
    simp [ManualOverrideDetails.modelDump, Value.received, receivedEntries, Value.item, List.lookup_cons, num_received,
      ts_received (hclock m rfl) (hrange m rfl), h]

/-! ## Parts of the row -/

theorem costInputs_received {c : CostInputs} (h : t.Survives c.modelDump)
    (hstart : Date.InRange c.billingPeriodStart) (hend : Date.InRange c.billingPeriodEnd) :
    costInputs t
      (.dict [("start", .str (isoformat c.billingPeriodStart)), ("end", .str (isoformat c.billingPeriodEnd))])
      (c.modelDump.received t) = .ok c.row := by
  simp only [CostInputs.modelDump, survives_dict, List.forall_mem_cons, survives_list] at h
  obtain ⟨_, _, _, _, _, _, _, _, _, hbreakdown, _⟩ := id h
  have hperiod : Value.entries
      [("start", date (.str (isoformat c.billingPeriodStart))), ("end", date (.str (isoformat c.billingPeriodEnd)))] =
        .ok (.dict [("start", .date c.billingPeriodStart), ("end", .date c.billingPeriodEnd)]) := by
    refine Value.entries_eq_ok ?_
    simp [date_received hstart, date_received hend]
  refine Value.entries_eq_ok ?_
  simp [CostInputs.modelDump, Value.received, receivedEntries, receivedList_map, received_ofOption, Value.item,
    Value.get, List.lookup_cons, Value.add, Value.addNumbers, Value.unbool, num_received, int_ofOption, hperiod, h,
    costBreakdown_received hbreakdown]

theorem marketInputs_received {clock : Instant → ℤ} {m : MarketInputs} (h : t.Survives (m.modelDump clock))
    (hclock : ClockOffset (clock m.collectedAt))
    (hrange : Date.InRange (Instant.date (localTime (clock m.collectedAt) m.collectedAt))) :
    marketInputs t ((m.modelDump clock).received t) = .ok m.row := by
  simp only [MarketInputs.modelDump, MarketInputs.fields, survives_dict, List.forall_mem_cons] at h
  refine Value.entries_eq_ok ?_
  simp [MarketInputs.modelDump, MarketInputs.fields, Value.received, receivedEntries, received_ofOption, Value.item,
    Value.get, List.lookup_cons, num_received, num_ofOption, int_ofOption, ts_received hclock hrange, h]

theorem calculation_received {clock : Instant → ℤ} {c : Calculation} (h : t.Survives (c.modelDump clock))
    (hclock : ∀ m ∈ c.manualOverride, ClockOffset (clock m.validUntil))
    (hrange : ∀ m ∈ c.manualOverride, Date.InRange (Instant.date (localTime (clock m.validUntil) m.validUntil)))
    {fields : List (String × Value)} {rate : Value} (hrate : fields.lookup "avg_nightly_rate_eur" = some rate) :
    calculation t (.dict fields) ((c.modelDump clock).received t) = .ok c.row := by
  simp only [Calculation.modelDump, survives_dict, List.forall_mem_cons, survives_list] at h
  obtain ⟨_, _, _, _, _, _, _, _, _, _, _, _, _, hlos, hcomponents, hoverride, hstay, hchannels, _⟩ := id h
  have hlos : ∀ v, listOf (losFloorCandidate t v) (.list (c.losFloorMatrix.map fun l => l.modelDump.received t)) =
      .ok (.list (c.losFloorMatrix.map LosFloorCandidate.row)) :=
    fun v => listOf_map fun l hl => losFloorCandidate_received (hlos l hl) v
  refine Value.entries_eq_ok ?_
  simp [Calculation.modelDump, Value.received, receivedEntries, receivedList_map, received_ofOption, Value.item,
    Value.get, List.lookup_cons, floorPolicy, policy_orElse, intOrNone, Value.isNull, num_received, h, hrate,
    decisionComponents_received hcomponents, minimumStayRecommendation_received hstay,
    channelPriceMatrix_received hchannels, manualOverride_received (survives_ofOption hoverride) hclock hrange, hlos]

theorem output_received {o : Output} (h : t.Survives o.modelDump) :
    output t (o.modelDump.received t) = .ok o.row := by
  simp only [Output.modelDump, survives_dict, List.forall_mem_cons] at h
  refine Value.entries_eq_ok ?_
  simp [Output.modelDump, Value.received, receivedEntries, Value.item, List.lookup_cons, num_received, h]

end Lakehouse

/-! ## The whole row -/

/-- The dates of a decision and its instants, on their clocks, are of the calendar. -/
structure PriceDecisionRecord.OnCalendar (clock : Instant → ℤ) (r : PriceDecisionRecord) : Prop where
  dates : ∀ d ∈ r.dates, Date.InRange d
  clocks : ∀ u ∈ r.instants, ClockOffset (clock u)
  instants : ∀ u ∈ r.instants, Date.InRange (Instant.date (localTime (clock u) u))

theorem rowFromNewImage_received {clock : Instant → ℤ} {r : PriceDecisionRecord} (h : t.Survives (r.modelDump clock))
    (hr : r.OnCalendar clock) (eventName : String) (ingestedAt : Instant) :
    rowFromNewImage t ((r.modelDump clock).received t) eventName ingestedAt = .ok (r.row eventName ingestedAt) := by
  simp only [PriceDecisionRecord.modelDump, PriceDecisionRecord.fields, survives_dict, List.forall_mem_cons] at h
  obtain ⟨_, _, _, _, _, _, hcost, hmarket, hcalculation, houtput, _⟩ := h
  obtain ⟨hdates, hclocks, hinstants⟩ := hr
  simp only [PriceDecisionRecord.dates, PriceDecisionRecord.instants, List.forall_mem_append, List.forall_mem_cons,
    List.forall_mem_map, Option.mem_toList] at hdates hclocks hinstants
  have hbilling : (r.costInputs.modelDump.received t).item "billing_period" = .ok (.dict
      [("start", .str (isoformat r.costInputs.billingPeriodStart)),
       ("end", .str (isoformat r.costInputs.billingPeriodEnd))]) := by
    simp [CostInputs.modelDump, Value.received, receivedEntries, Value.item]
  have hfields : (r.marketInputs.modelDump clock).received t = .dict (receivedEntries t
      (r.marketInputs.fields clock)) := rfl
  have hrate : (receivedEntries t (r.marketInputs.fields clock)).lookup "avg_nightly_rate_eur" =
      some (.decimal (t.readFloat r.marketInputs.avgNightlyRateEur)) := by
    simp [MarketInputs.fields, Value.received, receivedEntries, List.lookup_cons]
  have himage : ∀ key v, (r.fields clock).lookup key = some v →
      ((r.modelDump clock).received t).item key = .ok (v.received t) := fun _ _ => item_received
  have hpart : ((r.modelDump clock).received t).item "cost_inputs" = .ok (r.costInputs.modelDump.received t) ∧
      ((r.modelDump clock).received t).item "market_inputs" = .ok ((r.marketInputs.modelDump clock).received t) ∧
      ((r.modelDump clock).received t).item "calculation" = .ok ((r.calculation.modelDump clock).received t) ∧
      ((r.modelDump clock).received t).item "output" = .ok (r.output.modelDump.received t) := by
    refine ⟨himage _ _ ?_, himage _ _ ?_, himage _ _ ?_, himage _ _ ?_⟩ <;>
      simp [PriceDecisionRecord.fields, List.lookup_cons]
  have hcost := Lakehouse.costInputs_received hcost hdates.2.1 hdates.2.2.1
  have hcalculation := Lakehouse.calculation_received hcalculation hclocks.2 hinstants.2 hrate
  have hmarket := Lakehouse.marketInputs_received hmarket hclocks.1.2.1 hinstants.1.2.1
  rw [← hfields] at hcalculation
  rw [rowFromNewImage, hpart.1, ok_bind, hpart.2.1, ok_bind, hpart.2.2.1, ok_bind, hpart.2.2.2, ok_bind, hbilling,
    ok_bind, hcost, hcalculation, hmarket, Lakehouse.output_received houtput]
  refine Value.entries_eq_ok ?_
  simp [PriceDecisionRecord.modelDump, PriceDecisionRecord.fields, Value.received, receivedEntries, Value.item,
    Value.get, List.lookup_cons, Lakehouse.toStr, Lakehouse.date_received hdates.1,
    Lakehouse.ts_received hclocks.1.1 hinstants.1.1]

/-- A dump holds no dates, instants or decimals. -/
theorem modelDump_json (clock : Instant → ℤ) (r : PriceDecisionRecord) :
    Value.Leaves Value.IsJson (r.modelDump clock) := by
  have hnull : Value.IsJson .null := trivial
  have hint : ∀ n, Value.IsJson (.int n) := fun _ => trivial
  have hfloat : ∀ x, Value.IsJson (.float x) := fun _ => trivial
  have hstr : ∀ s, Value.IsJson (.str s) := fun _ => trivial
  have hoption : ∀ {α : Type} {f : α → Value} (o : Option α), (∀ a, Value.Leaves Value.IsJson (f a)) →
      Value.Leaves Value.IsJson (.ofOption f o) := by
    intro α f o hf
    cases o with
    | none => exact Value.leaves_null.mpr hnull
    | some a => exact hf a
  have hcomponents : ∀ c : DecisionComponent, Value.Leaves Value.IsJson c.modelDump := fun c => by
    simp [DecisionComponent.modelDump, Value.leaves_dict, hfloat, hstr]
  have hoverride : ∀ m : ManualOverrideDetails, Value.Leaves Value.IsJson (m.modelDump clock) := fun m => by
    simp [ManualOverrideDetails.modelDump, Value.leaves_dict, hfloat, hstr]
  have hcost : Value.Leaves Value.IsJson r.costInputs.modelDump := by
    simp [CostInputs.modelDump, ConceptAmount.modelDump, Value.leaves_dict, Value.leaves_list, hint, hfloat, hstr,
      hoption]
  have hmarket : Value.Leaves Value.IsJson (r.marketInputs.modelDump clock) := by
    simp [MarketInputs.modelDump, MarketInputs.fields, Value.leaves_dict, hint, hfloat, hstr, hoption]
  have hcalculation : Value.Leaves Value.IsJson (r.calculation.modelDump clock) := by
    simp [Calculation.modelDump, LosFloorCandidate.modelDump, ChannelPriceCandidate.modelDump,
      MinimumStayFields.modelDump, Value.leaves_dict, Value.leaves_list, hint, hfloat, hstr, hoption, hcomponents,
      hoverride]
  simp [PriceDecisionRecord.modelDump, PriceDecisionRecord.fields, Output.modelDump, Value.leaves_dict, hfloat, hstr,
    hcost, hmarket, hcalculation]

/-- A decision that was written to the table and read from its stream makes a row with its fields. -/
theorem decision_row_exact {t : NumberText} {deserialize : AttributeValue → Except PyError Value}
    (hdes : Deserializes t deserialize) {clock : Instant → ℤ} (d : PriceDecision) (hcalendar : d.OnCalendar clock)
    (hnumbers : t.Survives (d.modelDump clock)) (eventName : String) (ingestedAt : Instant) :
    (do
      let image ← deserializeImage deserialize (some (← toDynamodbItem t (d.modelDump clock)))
      rowFromNewImage t image eventName ingestedAt) = .ok (d.row eventName ingestedAt) := by
  obtain ⟨item, hitem, himage⟩ :=
    bind_eq_ok.mp (image_of_item hdes (modelDump_json clock d.toPriceDecisionRecord) hnumbers)
  have hitem : toDynamodbItem t (d.modelDump clock) = .ok item := hitem
  rw [hitem, ok_bind, himage, ok_bind]
  exact rowFromNewImage_received hnumbers hcalendar eventName ingestedAt

/-- A decision with an override, one stay length and one channel. -/
def overriddenRecord : PriceDecisionRecord where
  decisionId := "22222222-2222-2222-2222-222222222222"
  apartmentId := "BCN-001"
  apartmentReference := "A-1"
  targetDate := toordinal 2026 9 5
  decidedAt := 1785837600000000
  costInputs :=
    { billingPeriodStart := toordinal 2026 7 1
      billingPeriodEnd := toordinal 2026 7 31
      totalMonthlyCostEur := 1240
      availableDays := 31
      fixedCostEur := 30
      variableCostEur := 105 / 10
      fixedAndAllocatedCostsEur := 405 / 10
      perBookingCostEur := 0
      p := 12 / 100
      costLinesCount := some 3
      costBreakdown :=
        [⟨.electricity, 105 / 10, .property, .variable', .time, .fixedAmount, .monthly, .direct⟩] }
  marketInputs :=
    { marketArea := "Barcelona"
      avgNightlyRateEur := 12025 / 100
      occupancyRate := none
      sampleSize := some 8
      collectedAt := 1785837599500000
      dataAgeSeconds := 0 }
  calculation :=
    { targetMargin := 0
      minimumPriceEur := 4602 / 100
      breakEvenRevenueEur := 4602 / 100
      profitableFloorEur := 4602 / 100
      floorPolicy := .hard
      commissionPct := 12 / 100
      commissionBase := .totalRevenue
      daysToArrival := 32
      competitivenessDiscount := 5 / 100
      pricingStrategyVersion := 1
      propertyAttributeFactor := 1
      propertyReferencePriceEur := 12025 / 100
      marketReferencePriceEur := 11424 / 100
      ruleApplied := .marketCompetitive
      losFloorMatrix :=
        [⟨1, 4602 / 100, .hard, .marketCompetitive, 11424 / 100, 1, [⟨.ruleMarketCompetitive, "Market", 6822 / 100⟩]⟩]
      decisionComponents := [⟨.ruleMarketCompetitive, "Market", 6822 / 100⟩, ⟨.manualOverrideApplied, "", -24 / 100⟩]
      manualOverride := some ⟨114, "event", "ops", 1785924000000000, 0⟩
      minimumStayRecommendation := ⟨some 1, some 0, some (405 / 10), none⟩
      channelPriceMatrix :=
        [⟨.airbnb, 130, 12 / 100, 1235 / 10, 4602 / 100, .hard, .marketCompetitive, 1235 / 10, 1,
          [⟨.ruleMarketCompetitive, "Market", 7748 / 100⟩]⟩]
      viabilityStatus := .overrideActive
      floorBreachDays := 0 }
  output := ⟨114, 1, -24 / 100⟩

def overriddenDecision : PriceDecision := ⟨overriddenRecord, by unfold PriceDecisionRecord.Valid; decide +kernel⟩

theorem overridden_calendar : overriddenDecision.OnCalendar fun _ => 120 :=
  ⟨by decide +kernel, by decide +kernel, by decide +kernel⟩

theorem overridden_survives : ordinaryNumbers.Survives (overriddenDecision.modelDump fun _ => 120) := by
  unfold NumberText.Survives Value.Leaves
  decide +kernel

theorem overriddenDecision_row :
    (do
      let image ← deserializeImage (typeDeserializer ordinaryNumbers)
        (some (← toDynamodbItem ordinaryNumbers (overriddenDecision.modelDump fun _ => 120)))
      rowFromNewImage ordinaryNumbers image "INSERT" 1785837601000000) =
        .ok (overriddenDecision.row "INSERT" 1785837601000000) :=
  decision_row_exact (typeDeserializer_deserializes _) overriddenDecision overridden_calendar overridden_survives _ _

/-- Decided an hour later for the same night. -/
def laterDecision : PriceDecision :=
  ⟨{ overriddenRecord with
      decisionId := "33333333-3333-3333-3333-333333333333"
      decidedAt := overriddenRecord.decidedAt + 3600000000 }, by unfold PriceDecisionRecord.Valid; decide +kernel⟩

def nextNightDecision : PriceDecision :=
  ⟨{ overriddenRecord with
      decisionId := "44444444-4444-4444-4444-444444444444"
      targetDate := overriddenRecord.targetDate + 1
      calculation := { overriddenRecord.calculation with daysToArrival := 33 } }, by
    unfold PriceDecisionRecord.Valid
    decide +kernel⟩

def nightDecisions : List PriceDecision := [overriddenDecision, laterDecision, nextNightDecision]

theorem nightDecisions_calendar : ∀ d ∈ nightDecisions, d.OnCalendar fun _ => 120 := by
  have hlater : laterDecision.OnCalendar fun _ => 120 := ⟨by decide +kernel, by decide +kernel, by decide +kernel⟩
  have hnext : nextNightDecision.OnCalendar fun _ => 120 := ⟨by decide +kernel, by decide +kernel, by decide +kernel⟩
  exact List.forall_mem_cons.mpr ⟨overridden_calendar, List.forall_mem_cons.mpr ⟨hlater, List.forall_mem_singleton.mpr hnext⟩⟩

theorem nightDecisions_survive : ∀ d ∈ nightDecisions, ordinaryNumbers.Survives (d.modelDump fun _ => 120) := by
  unfold NumberText.Survives Value.Leaves
  decide +kernel

end PriceEngine
