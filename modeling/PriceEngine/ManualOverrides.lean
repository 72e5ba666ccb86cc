import PriceEngine.DecisionSound

/-!
# Manual overrides

Stage C keeps the last override broadcast for each apartment and night, and
republishes the price of a decision while its override is valid. The state and
the decision build the key in two places; `manualOverrideKey_inj` keeps them
apart. An overridden decision is the original with another price and margin,
the details of the override, and one more component (`OverriddenBy`).
-/

namespace PriceEngine

/-! ## Rows and decisions -/

structure ManualOverrideAssignment where
  overridePriceEur : ℚ
  reason : String
  authorizedBy : String
  validUntil : Instant

structure ManualOverrideRow where
  apartmentId : String
  targetDate : Date
  overridePriceEur : ℚ
  reason : String
  authorizedBy : String
  validUntil : Instant

def ManualOverrideRow.broadcastKey (row : ManualOverrideRow) : String :=
  row.apartmentId ++ ":" ++ isoformat row.targetDate

def ManualOverrideRow.toAssignment (row : ManualOverrideRow) : ManualOverrideAssignment :=
  { overridePriceEur := row.overridePriceEur
    reason := row.reason
    authorizedBy := row.authorizedBy
    validUntil := row.validUntil }

/-- The key a decision is looked up with. -/
def PriceDecisionRecord.overrideKey (decision : PriceDecisionRecord) : String :=
  decision.apartmentId ++ ":" ++ isoformat decision.targetDate

def overrideComponent (decision : PriceDecisionRecord) (assignment : ManualOverrideAssignment) : DecisionComponent :=
  { code := .manualOverrideApplied
    label := "Manual override by " ++ assignment.authorizedBy ++ ": " ++ assignment.reason ++ " (published " ++
      fmtFloat assignment.overridePriceEur ++ " EUR instead of the " ++
      fmtFloat decision.output.suggestedPriceEur ++ " EUR algorithmic suggestion)"
    impact := pyRound (assignment.overridePriceEur - decision.output.suggestedPriceEur) 2 }

def expectedLossEur (decision : PriceDecisionRecord) (overridePriceEur : ℚ) : ℚ :=
  pyRound (max 0 (decision.calculation.minimumPriceEur - overridePriceEur)) 2

def overrideMargin (decision : PriceDecisionRecord) (overridePriceEur : ℚ) : ℚ :=
  let totalCostEur := decision.costInputs.fixedAndAllocatedCostsEur + decision.costInputs.perBookingCostEur
  if totalCostEur ≠ 0 then overridePriceEur / totalCostEur - 1 else 0

/-- The two nested copies of `apply_manual_override`. -/
def overrideApplied (decision : PriceDecisionRecord) (assignment : ManualOverrideAssignment) : PriceDecisionRecord :=
  { decision with
    calculation :=
      { decision.calculation with
        manualOverride := some
          { overridePriceEur := assignment.overridePriceEur
            reason := assignment.reason
            authorizedBy := assignment.authorizedBy
            validUntil := assignment.validUntil
            expectedLossEur := expectedLossEur decision assignment.overridePriceEur }
        decisionComponents := decision.calculation.decisionComponents ++ [overrideComponent decision assignment]
        viabilityStatus := .overrideActive }
    output :=
      { decision.output with
        suggestedPriceEur := assignment.overridePriceEur
        effectiveMargin := pyRound (overrideMargin decision assignment.overridePriceEur) 4 } }

theorem expectedLossEur_nonneg (decision : PriceDecisionRecord) (overridePriceEur : ℚ) :
    0 ≤ expectedLossEur decision overridePriceEur := pyRound_nonneg (le_max_left _ _) 2

theorem expectedLossEur_eq_zero_iff (decision : PriceDecisionRecord) (overridePriceEur : ℚ) :
    expectedLossEur decision overridePriceEur = 0 ↔
      decision.calculation.minimumPriceEur - overridePriceEur ≤ 1 / 200 := by
  unfold expectedLossEur
  rw [pyRound_eq_zero_iff (le_max_left _ _), max_le_iff]
  exact and_iff_right (by norm_num)

theorem overrideApplied_valid {decision : PriceDecisionRecord} {assignment : ManualOverrideAssignment}
    (h : decision.Valid) (hprice : 0 ≤ assignment.overridePriceEur) :
    (overrideApplied decision assignment).Valid := by
  obtain ⟨hbreakdown, hcost, hmarket, hlos, -, hstay, hchannel, hcalculation, -⟩ :=
    PriceDecisionRecord.valid_iff.mp h
  have hbounds := Calculation.fieldChecks_iff.mp hcalculation
  refine PriceDecisionRecord.valid_iff.mpr ⟨hbreakdown, hcost, hmarket, hlos, ?_, hstay, hchannel, ?_, ?_⟩
  · intro m hm
    obtain rfl := Option.some.inj hm
    simp [ManualOverrideDetails.fieldChecks, hprice, expectedLossEur_nonneg]
  · refine Calculation.fieldChecks_iff.mpr ?_
    have hcomponents : decision.calculation.decisionComponents ++ [overrideComponent decision assignment] ≠ [] := by
      simp
    exact ⟨hbounds.1, hbounds.2.1, hbounds.2.2.1, hbounds.2.2.2.1, hbounds.2.2.2.2.1, hbounds.2.2.2.2.2.1,
      hbounds.2.2.2.2.2.2.1, hbounds.2.2.2.2.2.2.2.1, hbounds.2.2.2.2.2.2.2.2.1, hbounds.2.2.2.2.2.2.2.2.2.1,
      hcomponents, hbounds.2.2.2.2.2.2.2.2.2.2.2⟩
  · exact Output.fieldChecks_iff.mpr hprice

/-- `apply_manual_override`: only the details of the override are validated. -/
def applyManualOverride (decision : PriceDecision) (assignment : ManualOverrideAssignment) :
    Except PricingError PriceDecision :=
  if h : 0 ≤ assignment.overridePriceEur then
    .ok ⟨overrideApplied decision.toPriceDecisionRecord assignment, overrideApplied_valid decision.valid h⟩
  else .error (.validationError "ManualOverrideDetails" "override_price_eur")

/-! ## The stage -/

structure ManualOverrideEnrichment where
  assignments : Dict String ManualOverrideAssignment := .empty

/-- A decision comes with the clock reading at its processing. -/
inductive ManualOverrideEvent where
  | element (decision : PriceDecision) (now : Instant)
  | broadcastElement (row : ManualOverrideRow)

namespace ManualOverrideEnrichment

def processElement (stage : ManualOverrideEnrichment) (value : PriceDecision) (now : Instant) :
    Except PricingError PriceDecision :=
  match stage.assignments.get? value.overrideKey with
  | none => .ok value
  | some assignment =>
    if assignment.validUntil < now then .ok value else applyManualOverride value assignment

def processBroadcastElement (stage : ManualOverrideEnrichment) (value : ManualOverrideRow) :
    ManualOverrideEnrichment :=
  { stage with assignments := stage.assignments.put value.broadcastKey value.toAssignment }

def handle (stage : ManualOverrideEnrichment) :
    ManualOverrideEvent → Except PricingError (ManualOverrideEnrichment × List PriceDecision)
  | .element decision now => do
    let d ← stage.processElement decision now
    .ok (stage, [d])
  | .broadcastElement row => .ok (stage.processBroadcastElement row, [])

end ManualOverrideEnrichment

def ManualOverrideEvent.row? : ManualOverrideEvent → Option ManualOverrideRow
  | .element _ _ => none
  | .broadcastElement row => some row

/-- The last row broadcast for an apartment and night. -/
def lastOverride (events : List ManualOverrideEvent) (apartmentId : String) (targetDate : Date) :
    Option ManualOverrideRow :=
  (events.filterMap ManualOverrideEvent.row?).reverse.find? fun row =>
    row.apartmentId = apartmentId ∧ row.targetDate = targetDate

/-- An override is authorised for the decision at this clock reading. -/
def ActiveOverride (events : List ManualOverrideEvent) (decision : PriceDecision) (now : Instant)
    (row : ManualOverrideRow) : Prop :=
  lastOverride events decision.apartmentId decision.targetDate = some row ∧ now ≤ row.validUntil

/-! ## Keys -/

theorem manualOverrideKey_inj {a b : String} {d e : Date} :
    a ++ ":" ++ isoformat d = b ++ ":" ++ isoformat e ↔ a = b ∧ d = e := by
  refine ⟨fun h => ?_, fun ⟨ha, hd⟩ => by rw [ha, hd]⟩
  have h' := congrArg String.toList h
  simp only [String.toList_append, toList_isoformat, List.append_assoc] at h'
  obtain ⟨ha, hd⟩ := append_cons_isoChars_inj colon_notMem_isoChars h'
  exact ⟨String.toList_inj.mp ha, hd⟩

theorem broadcastKey_eq_overrideKey {row : ManualOverrideRow} {decision : PriceDecisionRecord} :
    row.broadcastKey = decision.overrideKey ↔
      row.apartmentId = decision.apartmentId ∧ row.targetDate = decision.targetDate := manualOverrideKey_inj

/-! ## The state of a run -/

namespace ManualOverrideEnrichment

/-- What a run leaves in the broadcast state: its rows, and nothing of its decisions. -/
def afterRows (rows : List ManualOverrideRow) : ManualOverrideEnrichment :=
  ⟨rows.foldl (fun assignments row => assignments.put row.broadcastKey row.toAssignment) .empty⟩

theorem afterRows_concat (rows : List ManualOverrideRow) (row : ManualOverrideRow) :
    afterRows (rows ++ [row]) = (afterRows rows).processBroadcastElement row := by
  rw [afterRows, List.foldl_concat]
  rfl

theorem handle_state {stage stage' : ManualOverrideEnrichment} {event : ManualOverrideEvent}
    {ds : List PriceDecision} (h : handle stage event = .ok (stage', ds)) :
    stage' = (event.row?.map stage.processBroadcastElement).getD stage := by
  cases event with
  | element decision now =>
    obtain ⟨d, -, h⟩ := bind_eq_ok.mp h
    cases h; rfl
  | broadcastElement row => cases h; rfl

theorem run_state {events : List ManualOverrideEvent} {stage : ManualOverrideEnrichment} {ds : List PriceDecision}
    (h : run handle {} events = .ok (stage, ds)) :
    stage = afterRows (events.filterMap ManualOverrideEvent.row?) := by
  refine run_prefix (I := fun p s _ => s = afterRows (p.filterMap ManualOverrideEvent.row?)) rfl ?_ h
  intro p event q s os s' o _ _ hs hstep
  rw [handle_state hstep, hs, List.filterMap_append]
  cases event with
  | element decision now => exact congrArg afterRows (List.append_nil _).symm
  | broadcastElement row => exact (afterRows_concat _ row).symm

theorem run_lookup {events : List ManualOverrideEvent} {stage : ManualOverrideEnrichment} {ds : List PriceDecision}
    (h : run handle {} events = .ok (stage, ds)) (decision : PriceDecisionRecord) :
    stage.assignments.get? decision.overrideKey =
      (lastOverride events decision.apartmentId decision.targetDate).map ManualOverrideRow.toAssignment := by
  rw [run_state h, afterRows, Dict.get?_foldl_put]
  refine congrArg (Option.map _) (congrArg (List.find? · _) (funext fun row => ?_))
  rw [Bool.eq_iff_iff, beq_iff_eq, decide_eq_true_iff]
  exact broadcastKey_eq_overrideKey

theorem handle_element {events : List ManualOverrideEvent} {stage : ManualOverrideEnrichment}
    {ds : List PriceDecision} (h : run handle {} events = .ok (stage, ds)) (decision : PriceDecision)
    (now : Instant) :
    handle stage (.element decision now) =
      match lastOverride events decision.apartmentId decision.targetDate with
      | some row =>
        if row.validUntil < now then .ok (stage, [decision])
        else do
          let d ← applyManualOverride decision row.toAssignment
          .ok (stage, [d])
      | none => .ok (stage, [decision]) := by
  simp only [handle, processElement, run_lookup h]
  cases lastOverride events decision.apartmentId decision.targetDate with
  | none => rfl
  | some row =>
    simp only [Option.map_some, ManualOverrideRow.toAssignment]
    split <;> rfl

end ManualOverrideEnrichment

/-! ## What an override changes -/

/-- The engine's arguments of one night with the decision's costs, under which it suggests this price. -/
structure SuggestedAt (decision : PriceDecisionRecord) (priceEur : ℚ) (a : PriceArgs) : Prop where
  stayLength : a.stayLength = 1
  perNight : a.fixedAndAllocatedCostsPerNightEur = decision.costInputs.fixedAndAllocatedCostsEur
  perBooking : a.perBookingCostEur = decision.costInputs.perBookingCostEur
  suggested : (priceTerms a).guardrails.suggestedPriceEur = priceEur

structure OverriddenBy (assignment : ManualOverrideAssignment) (decision d : PriceDecisionRecord) : Prop where
  /-- With these five fields put back, the decision is the original. -/
  frame :
    { d with
      calculation :=
        { d.calculation with
          manualOverride := decision.calculation.manualOverride
          viabilityStatus := decision.calculation.viabilityStatus
          decisionComponents := decision.calculation.decisionComponents }
      output :=
        { d.output with
          suggestedPriceEur := decision.output.suggestedPriceEur
          effectiveMargin := decision.output.effectiveMargin } } = decision
  details : ∃ expectedLossEur, d.calculation.manualOverride =
      some ⟨assignment.overridePriceEur, assignment.reason, assignment.authorizedBy, assignment.validUntil,
        expectedLossEur⟩ ∧
    expectedLossEur = pyRound (max 0 (decision.calculation.minimumPriceEur - assignment.overridePriceEur)) 2 ∧
    0 ≤ expectedLossEur ∧
    (expectedLossEur = 0 ↔ decision.calculation.minimumPriceEur - 1 / 200 ≤ assignment.overridePriceEur)
  viabilityStatus : d.calculation.viabilityStatus = .overrideActive
  component : ∃ c, c.code = .manualOverrideApplied ∧
    c.impact = pyRound (assignment.overridePriceEur - decision.output.suggestedPriceEur) 2 ∧
    d.calculation.decisionComponents = decision.calculation.decisionComponents ++ [c]
  suggestedPrice : d.output.suggestedPriceEur = assignment.overridePriceEur
  margin : d.output.effectiveMargin =
    pyRound (if decision.costInputs.fixedAndAllocatedCostsEur + decision.costInputs.perBookingCostEur = 0 then 0
      else assignment.overridePriceEur /
        (decision.costInputs.fixedAndAllocatedCostsEur + decision.costInputs.perBookingCostEur) - 1) 4
  decided : (∃ a, SuggestedAt decision assignment.overridePriceEur a) ∧
    ∀ a, SuggestedAt decision assignment.overridePriceEur a →
      (decidePrice a).effectiveMargin = d.output.effectiveMargin

theorem overrideMargin_eq_decidePrice {decision : PriceDecisionRecord} {priceEur : ℚ} {a : PriceArgs}
    (h : SuggestedAt decision priceEur a) :
    (decidePrice a).effectiveMargin = pyRound (overrideMargin decision priceEur) 4 := by
  have hcost : (priceTerms a).fixedAndAllocatedCostsEur =
      decision.costInputs.fixedAndAllocatedCostsEur + decision.costInputs.perBookingCostEur := by
    simp only [priceTerms, h.stayLength, h.perNight, h.perBooking, PNat.one_coe, Nat.cast_one, div_one]
  have hmargin : (priceTerms a).effectiveMargin =
      if (priceTerms a).fixedAndAllocatedCostsEur ≠ 0 then
        (priceTerms a).guardrails.suggestedPriceEur / (priceTerms a).fixedAndAllocatedCostsEur - 1
      else 0 := rfl
  unfold overrideMargin
  rw [← hcost, ← h.suggested, ← hmargin]
  rfl

/-- A price is suggested where the netting leaves it to be recovered and the market asks for nothing. -/
theorem exists_suggestedAt (decision : PriceDecisionRecord) {priceEur : ℚ} (h : 0 ≤ priceEur) :
    ∃ a, SuggestedAt decision priceEur a := by
  let a : PriceArgs :=
    { fixedAndAllocatedCostsPerNightEur := decision.costInputs.fixedAndAllocatedCostsEur
      perBookingCostEur := decision.costInputs.perBookingCostEur
      p := 0
      targetMargin := 0
      avgNightlyRateEur := 0
      competitivenessDiscount := 0
      nettingEur :=
        decision.costInputs.fixedAndAllocatedCostsEur + decision.costInputs.perBookingCostEur - priceEur }
  have hfloor : (priceTerms a).profitableFloorEur = priceEur := by
    rw [priceTerms_floor]
    simp only [toRecover, denominator, a, PNat.one_coe, Nat.cast_one]
    ring
  have hmarket : (priceTerms a).marketReferencePriceEur = 0 := by
    simp only [priceTerms, propertyReferencePrice, marketReferencePrice, a, zero_mul]
  refine ⟨a, rfl, rfl, rfl, ?_⟩
  rw [priceTerms_suggested, hfloor, hmarket, max_eq_left h]

theorem overrideApplied_overriddenBy (decision : PriceDecisionRecord) {assignment : ManualOverrideAssignment}
    (hprice : 0 ≤ assignment.overridePriceEur) :
    OverriddenBy assignment decision (overrideApplied decision assignment) where
  frame := rfl
  details := by
    refine ⟨expectedLossEur decision assignment.overridePriceEur, rfl, rfl, expectedLossEur_nonneg _ _, ?_⟩
    rw [expectedLossEur_eq_zero_iff, sub_le_comm]
  viabilityStatus := rfl
  component := ⟨_, rfl, rfl, rfl⟩
  suggestedPrice := rfl
  margin := by
    change pyRound (overrideMargin decision assignment.overridePriceEur) 4 = _
    simp only [overrideMargin, ne_eq, ite_not]
  decided := ⟨exists_suggestedAt decision hprice, fun _ ha => overrideMargin_eq_decidePrice ha⟩

theorem OverriddenBy.ne {assignment : ManualOverrideAssignment} {decision d : PriceDecisionRecord}
    (h : OverriddenBy assignment decision d) : d ≠ decision := by
  rintro rfl
  obtain ⟨c, -, -, hc⟩ := h.component
  exact absurd (congrArg List.length hc) (by simp)

theorem applyManualOverride_ok (decision : PriceDecision) {assignment : ManualOverrideAssignment}
    (h : 0 ≤ assignment.overridePriceEur) :
    ∃ d, applyManualOverride decision assignment = .ok d ∧
      OverriddenBy assignment decision.toPriceDecisionRecord d.toPriceDecisionRecord :=
  ⟨_, dif_pos h, overrideApplied_overriddenBy _ h⟩

/-! ## Every run -/

namespace ManualOverrideEnrichment

def PricesNonneg (stage : ManualOverrideEnrichment) : Prop :=
  stage.assignments.All fun _ assignment => 0 ≤ assignment.overridePriceEur

theorem run_isOk {events : List ManualOverrideEvent}
    (hprices : ∀ row ∈ events.filterMap ManualOverrideEvent.row?, 0 ≤ row.overridePriceEur) :
    ∃ r, run handle {} events = .ok r := by
  refine run_ok (I := PricesNonneg) (C := fun _ event => ∀ row ∈ event.row?, 0 ≤ row.overridePriceEur)
    ?_ ?_ (Dict.all_empty _) (along_of_forall (fun _ event he row hrow => ?_) _)
  · intro s event s' o hs hc hstep
    rw [handle_state hstep]
    cases event with
    | element decision now => exact hs
    | broadcastElement row => exact Dict.All.put hs (hc row rfl)
  · intro s event hs hc
    cases event with
    | broadcastElement row => exact ⟨_, rfl⟩
    | element decision now =>
      suffices h : ∃ d, s.processElement decision now = .ok d from
        h.elim fun d hd => ⟨_, bind_eq_ok.mpr ⟨d, hd, rfl⟩⟩
      unfold processElement
      split
      · exact ⟨_, rfl⟩
      · rename_i assignment hget
        split
        · exact ⟨_, rfl⟩
        · exact ⟨_, dif_pos (hs _ _ hget)⟩
  · exact hprices row (List.mem_filterMap.mpr ⟨event, he, hrow⟩)

end ManualOverrideEnrichment

section
variable {events : List ManualOverrideEvent} {decision : PriceDecision} {now : Instant} {row : ManualOverrideRow}

theorem lastOverride_mem {apartmentId : String} {targetDate : Date}
    (h : lastOverride events apartmentId targetDate = some row) :
    row ∈ events.filterMap ManualOverrideEvent.row? := List.mem_reverse.mp (List.mem_of_find?_eq_some h)

theorem handle_active {stage : ManualOverrideEnrichment} {ds : List PriceDecision}
    (h : run ManualOverrideEnrichment.handle {} events = .ok (stage, ds))
    (hrow : ActiveOverride events decision now row) (hprice : 0 ≤ row.overridePriceEur) :
    ∃ d, stage.handle (.element decision now) = .ok (stage, [d]) ∧
      OverriddenBy row.toAssignment decision.toPriceDecisionRecord d.toPriceDecisionRecord := by
  have hassignment : 0 ≤ row.toAssignment.overridePriceEur := hprice
  obtain ⟨d, hd, hby⟩ := applyManualOverride_ok decision hassignment
  refine ⟨d, ?_, hby⟩
  rw [ManualOverrideEnrichment.handle_element h, hrow.1]
  dsimp only
  rw [if_neg (not_lt.mpr hrow.2), hd]
  rfl

theorem handle_inactive {stage : ManualOverrideEnrichment} {ds : List PriceDecision}
    (h : run ManualOverrideEnrichment.handle {} events = .ok (stage, ds))
    (hnone : ∀ row, ¬ ActiveOverride events decision now row) :
    stage.handle (.element decision now) = .ok (stage, [decision]) := by
  rw [ManualOverrideEnrichment.handle_element h]
  split
  · rename_i row hrow
    exact if_pos (not_le.mp fun hle => hnone row ⟨hrow, hle⟩)
  · rfl

theorem ActiveOverride.unique {row' : ManualOverrideRow} (h : ActiveOverride events decision now row)
    (h' : ActiveOverride events decision now row') : row = row' := Option.some.inj (h.1.symm.trans h'.1)

end

/-- A decision is overridden exactly when the last row of its apartment and night is still valid. -/
theorem manual_override_exact {events : List ManualOverrideEvent}
    (hprices : ∀ row ∈ events.filterMap ManualOverrideEvent.row?, 0 ≤ row.overridePriceEur) :
    (∀ row row' : ManualOverrideRow, row.broadcastKey = row'.broadcastKey ↔
      row.apartmentId = row'.apartmentId ∧ row.targetDate = row'.targetDate) ∧
    (∀ d d' : PriceDecisionRecord, d.overrideKey = d'.overrideKey ↔
      d.apartmentId = d'.apartmentId ∧ d.targetDate = d'.targetDate) ∧
    (∀ (row : ManualOverrideRow) (d : PriceDecisionRecord), row.broadcastKey = d.overrideKey ↔
      row.apartmentId = d.apartmentId ∧ row.targetDate = d.targetDate) ∧
    ∃ stage ds, run ManualOverrideEnrichment.handle {} events = .ok (stage, ds) ∧
      ∀ (decision : PriceDecision) (now : Instant), ∃ d,
        stage.handle (.element decision now) = .ok (stage, [d]) ∧
        (d.toPriceDecisionRecord ≠ decision.toPriceDecisionRecord ↔
          ∃ row, ActiveOverride events decision now row) ∧
        ∀ row, ActiveOverride events decision now row →
          OverriddenBy row.toAssignment decision.toPriceDecisionRecord d.toPriceDecisionRecord := by
  refine ⟨fun _ _ => manualOverrideKey_inj, fun _ _ => manualOverrideKey_inj,
    fun _ _ => broadcastKey_eq_overrideKey, ?_⟩
  obtain ⟨⟨stage, ds⟩, hrun⟩ := ManualOverrideEnrichment.run_isOk hprices
  refine ⟨stage, ds, hrun, fun decision now => ?_⟩
  by_cases hactive : ∃ row, ActiveOverride events decision now row
  · obtain ⟨row, hrow⟩ := hactive
    obtain ⟨d, hd, hby⟩ := handle_active hrun hrow (hprices row (lastOverride_mem hrow.1))
    refine ⟨d, hd, iff_of_true hby.ne ⟨row, hrow⟩, fun row' hrow' => ?_⟩
    rw [← hrow.unique hrow']
    exact hby
  · have hnone := not_exists.mp hactive
    exact ⟨decision, handle_inactive hrun hnone, iff_of_false (not_not.mpr rfl) hactive,
      fun row hrow => absurd hrow (hnone row)⟩

def september5 : Date := toordinal 2026 9 5

def replacedOverride : List ManualOverrideEvent :=
  [.broadcastElement ⟨"apt-1", september5, 80, "trade fair", "ana", 1788000000000000⟩,
   .broadcastElement ⟨"apt-1", september5, 95, "trade fair moved", "ana", 1788600000000000⟩]

theorem replacedOverride_published :
    ∃ stage ds, run ManualOverrideEnrichment.handle {} replacedOverride = .ok (stage, ds) ∧
      ∀ (decision : PriceDecision) (now : Instant), decision.apartmentId = "apt-1" →
        decision.targetDate = september5 → now ≤ 1788600000000000 →
        ∃ d, stage.handle (.element decision now) = .ok (stage, [d]) ∧ d.output.suggestedPriceEur = 95 := by
  have hprices : ∀ row ∈ replacedOverride.filterMap ManualOverrideEvent.row?, 0 ≤ row.overridePriceEur := by
    simp [replacedOverride, ManualOverrideEvent.row?]
  obtain ⟨-, -, -, stage, ds, hrun, hall⟩ := manual_override_exact hprices
  refine ⟨stage, ds, hrun, fun decision now hid hdate hnow => ?_⟩
  obtain ⟨d, hd, -, hby⟩ := hall decision now
  have hlast : lastOverride replacedOverride decision.apartmentId decision.targetDate =
      some ⟨"apt-1", september5, 95, "trade fair moved", "ana", 1788600000000000⟩ := by
    rw [hid, hdate]
    rfl
  exact ⟨d, hd, (hby _ ⟨hlast, hnow⟩).suggestedPrice⟩

end PriceEngine
