import PriceEngine.CostSound
import PriceEngine.PipelineSound

/-!
# Costs are recomputed, not accumulated

The bookings operator keeps the last aggregate of Stage A as it came and sends
it again on every booking. `recomputedCost` is what leaves A4 for it, as one
function of that aggregate, of the bookings and of A4's rows. `builtCosts` is
the history of what Stage A has emitted: all of it is still on the way to the
bookings operator, or is what the operator holds, or came before that.
-/

namespace PriceEngine

/-! ## One function -/

def recomputedCost (company : CompanyCostEnrichment) (bookings : List BookingRow) (latest : CostAggregate) :
    CostAggregate :=
  company.processElement (applyCorrections (recompute bookings latest))

def correctionTotal (cost : CostAggregate) (keep : Behavior → Bool) : ℚ :=
  ((cost.pendingAllocationCorrections.filter fun c => keep c.behavior).map (correctionPerNight cost)).sum

def shareTotal (company : CompanyCostEnrichment) (cost : CostAggregate) (keep : Behavior → Bool) : ℚ :=
  (((company.occurrences.values.filterMap (occurrenceShare company cost)).filter fun share =>
    keep share.1).map (·.2)).sum

structure CostAggregate.InCents (cost : CostAggregate) : Prop where
  fixed : pyRound cost.fixedCostEur 2 = cost.fixedCostEur
  variable' : pyRound cost.variableCostEur 2 = cost.variableCostEur

theorem applyCorrections_idem (cost : CostAggregate) :
    applyCorrections (applyCorrections cost) = applyCorrections cost := by
  by_cases h : cost.pendingAllocationCorrections.isEmpty
  · have hsame : applyCorrections cost = cost := if_pos h
    rw [hsame, hsame]
  · have hnone : (applyCorrections cost).pendingAllocationCorrections = [] := by
      rw [applyCorrections, if_neg h]
    rw [applyCorrections, if_pos (by rw [hnone]; rfl)]

theorem applyCorrections_none {cost : CostAggregate} (h : cost.pendingAllocationCorrections = []) :
    applyCorrections cost = cost := by
  rw [applyCorrections, if_pos (by rw [h]; rfl)]

def CompanyCostEnrichment.Applies (s : CompanyCostEnrichment) (cost : CostAggregate)
    (occurrence : CompanyCostOccurrenceRow) : Prop :=
  ∃ definition allocation weightMap weight, s.definitions.get? occurrence.costDefinitionId = some definition ∧
    s.allocations.get? occurrence.costDefinitionId = some allocation ∧
    allocation.weightConfig = some weightMap ∧ weightMap.get? cost.apartmentId = some weight ∧
    definition.scope = .company ∧ 0 < weight

theorem occurrenceShare_applies {s : CompanyCostEnrichment} {cost : CostAggregate}
    {occurrence : CompanyCostOccurrenceRow} {share : Behavior × ℚ}
    (h : occurrenceShare s cost occurrence = some share) : s.Applies cost occurrence := by
  simp only [occurrenceShare, Option.bind_eq_bind, Option.bind_eq_some_iff] at h
  obtain ⟨definition, hd, allocation, ha, weightMap, hm, h⟩ := h
  split at h
  · cases h
  · rename_i hin
    rw [not_or, not_not, not_le] at hin
    cases hw : weightMap.get? cost.apartmentId with
    | none => exact absurd hin.2 (by rw [hw]; exact lt_irrefl 0)
    | some weight =>
      exact ⟨definition, allocation, weightMap, weight, hd, ha, hm, hw, hin.1, by simpa [hw] using hin.2⟩

theorem shares_none {s : CompanyCostEnrichment} {cost : CostAggregate}
    (h : ∀ o ∈ s.occurrences.values, ¬ s.Applies cost o) :
    s.occurrences.values.filterMap (occurrenceShare s cost) = [] := by
  refine List.filterMap_eq_nil_iff.mpr fun o ho => ?_
  cases hs : occurrenceShare s cost o with
  | none => rfl
  | some share => exact absurd (occurrenceShare_applies hs) (h o ho)

theorem companyCosts_none {s : CompanyCostEnrichment} {cost : CostAggregate}
    (h : ∀ o ∈ s.occurrences.values, ¬ s.Applies cost o) : s.processElement cost = cost := by
  rw [CompanyCostEnrichment.processElement, shares_none h]
  exact if_pos ⟨rfl, rfl⟩

/-! ## Every amount once -/

section
variable {cost : CostAggregate} (h : cost.InCents)
include h

theorem corrections_once :
    (applyCorrections cost).fixedCostEur = pyRound (cost.fixedCostEur + correctionTotal cost (· == .fixed)) 2 ∧
    (applyCorrections cost).variableCostEur =
      pyRound (cost.variableCostEur + correctionTotal cost (!· == .fixed)) 2 := by
  by_cases hnone : cost.pendingAllocationCorrections = []
  · rw [applyCorrections_none hnone]
    simp [correctionTotal, hnone, h.fixed, h.variable']
  · rw [applyCorrections, if_neg (by simpa using hnone)]
    exact ⟨rfl, rfl⟩

theorem shares_once (s : CompanyCostEnrichment) :
    (s.processElement cost).fixedCostEur = pyRound (cost.fixedCostEur + shareTotal s cost (· == .fixed)) 2 ∧
    (s.processElement cost).variableCostEur =
      pyRound (cost.variableCostEur + shareTotal s cost (!· == .fixed)) 2 := by
  unfold CompanyCostEnrichment.processElement
  dsimp only
  split
  · rename_i hzero
    have hfixed : shareTotal s cost (· == .fixed) = 0 := hzero.1
    have hvariable : shareTotal s cost (!· == .fixed) = 0 := hzero.2
    rw [hfixed, hvariable, add_zero, add_zero, h.fixed, h.variable']
    exact ⟨rfl, rfl⟩
  · exact ⟨rfl, rfl⟩

theorem corrections_inCents : (applyCorrections cost).InCents := by
  obtain ⟨hfixed, hvariable⟩ := corrections_once h
  exact ⟨by rw [hfixed, pyRound_pyRound], by rw [hvariable, pyRound_pyRound]⟩

end

theorem shareTotal_congr {s : CompanyCostEnrichment} {c d : CostAggregate}
    (ha : c.apartmentId = d.apartmentId) (hd : c.availableDays = d.availableDays) (keep : Behavior → Bool) :
    shareTotal s c keep = shareTotal s d keep := by
  have hshare : occurrenceShare s c = occurrenceShare s d := by
    funext o
    simp only [occurrenceShare, ha, hd]
  rw [shareTotal, hshare, ← shareTotal]

/-- The cost of an aggregate that has left A4, each correction and each share in it once. -/
structure RecomputedFrom (company : CompanyCostEnrichment) (bookings : List BookingRow)
    (latest cost : CostAggregate) : Prop where
  fixed : cost.fixedCostEur = pyRound (pyRound (latest.fixedCostEur +
    correctionTotal (recompute bookings latest) (· == .fixed)) 2 + shareTotal company latest (· == .fixed)) 2
  variable' : cost.variableCostEur = pyRound (pyRound (latest.variableCostEur +
    correctionTotal (recompute bookings latest) (!· == .fixed)) 2 + shareTotal company latest (!· == .fixed)) 2
  occupied : cost.occupiedNights =
    occupiedNights bookings latest.billingPeriodStart latest.billingPeriodEnd
  count : cost.bookingCount = bookingCount bookings latest.billingPeriodStart latest.billingPeriodEnd
  guests : cost.avgGuests = avgGuests bookings latest.billingPeriodStart latest.billingPeriodEnd

theorem applyCorrections_kept (cost : CostAggregate) : ∃ fixed variable' pending,
    applyCorrections cost = { cost with
      fixedCostEur := fixed, variableCostEur := variable', pendingAllocationCorrections := pending } := by
  unfold applyCorrections
  split
  · exact ⟨_, _, _, rfl⟩
  · exact ⟨_, _, _, rfl⟩

theorem companyCosts_kept (s : CompanyCostEnrichment) (cost : CostAggregate) : ∃ fixed variable',
    s.processElement cost = { cost with fixedCostEur := fixed, variableCostEur := variable' } := by
  unfold CompanyCostEnrichment.processElement
  dsimp only
  split
  · exact ⟨_, _, rfl⟩
  · exact ⟨_, _, rfl⟩

theorem recomputedCost_kept (company : CompanyCostEnrichment) (bookings : List BookingRow) (latest : CostAggregate) :
    ∃ fixed variable' pending, recomputedCost company bookings latest = { recompute bookings latest with
      fixedCostEur := fixed, variableCostEur := variable', pendingAllocationCorrections := pending } := by
  obtain ⟨_, _, pending, hcorrected⟩ := applyCorrections_kept (recompute bookings latest)
  obtain ⟨fixed, variable', hcompany⟩ := companyCosts_kept company (applyCorrections (recompute bookings latest))
  exact ⟨fixed, variable', pending, by rw [recomputedCost, hcompany, hcorrected]⟩

theorem recomputedCost_from (company : CompanyCostEnrichment) (bookings : List BookingRow)
    {latest : CostAggregate} (h : latest.InCents) :
    RecomputedFrom company bookings latest (recomputedCost company bookings latest) := by
  have hseen : (recompute bookings latest).InCents := ⟨h.fixed, h.variable'⟩
  obtain ⟨hcfixed, hcvariable⟩ := corrections_once hseen
  obtain ⟨hfixed, hvariable⟩ := shares_once (corrections_inCents hseen) company
  obtain ⟨_, _, _, hkept⟩ := applyCorrections_kept (recompute bookings latest)
  obtain ⟨_, _, _, hkept'⟩ := recomputedCost_kept company bookings latest
  have hshare : ∀ keep, shareTotal company (applyCorrections (recompute bookings latest)) keep =
      shareTotal company latest keep :=
    shareTotal_congr (by rw [hkept]; rfl) (by rw [hkept]; rfl)
  refine ⟨?_, ?_, ?_, ?_, ?_⟩
  · rw [recomputedCost, hfixed, hcfixed, hshare]
    rfl
  · rw [recomputedCost, hvariable, hcvariable, hshare]
    rfl
  · rw [hkept']
    rfl
  · rw [hkept']
    rfl
  · rw [hkept']
    rfl

/-- What reaches Stage B is what leaves A4, under the owner's contract. -/
theorem enrichedAggregates_eq {bookings : List BookingRow} {company : CompanyCostEnrichment}
    {stage : OwnerContractEnrichment} {latest cost : CostAggregate}
    (h : cost ∈ enrichedAggregates bookings company stage latest) : ∃ owner,
    (stage.ownerContracts.get? latest.apartmentId).bind
      (fun assignment => stage.costDefinitions.get? assignment.costDefinitionId) = some owner ∧
    cost = { recomputedCost company bookings latest with
      commissionBase := owner.revenueBase.getD .totalRevenue, commissionPct := owner.rate.getD 0 } := by
  obtain ⟨_, _, _, hkept⟩ := recomputedCost_kept company bookings latest
  have hmem : cost ∈ stage.processElement (recomputedCost company bookings latest) := h
  have hid : (recomputedCost company bookings latest).apartmentId = latest.apartmentId := by
    rw [hkept]
    rfl
  unfold OwnerContractEnrichment.processElement at hmem
  split at hmem
  · cases hmem
  · rename_i owner howner
    rw [hid] at howner
    exact ⟨owner, howner, List.mem_singleton.mp hmem⟩

/-! ## What Stage A emits and what leaves A4 -/

def Chain.built (c : Chain) (now : Instant) : PipelineEvent → List CostAggregate
  | .operate _ .costEnrichment =>
    match c.toCostEnrichment with
    | [] => []
    | (_, line) :: _ => (c.costEnrichment.processElement now line).2
  | _ => []

def Chain.leaving (c : Chain) : PipelineEvent → List CostAggregate
  | .operate _ .companyCostEnrichment =>
    match c.toCompanyCostEnrichment with
    | [] => []
    | m :: _ => [c.companyCostEnrichment.processElement (applyCorrections m.cost)]
  | _ => []

def noteBuilt (a : String) (s : Pipeline) (e : Env × PipelineEvent) (_ : List Emitted)
    (costs : List CostAggregate) : List CostAggregate :=
  if e.2.apartment = some a then costs ++ (s.chains a).built (e.1.now 0) e.2 else costs

/-- The aggregates Stage A has emitted for the apartment, in order, in a run from the empty state. -/
def builtCosts (a : String) (es : List (Env × PipelineEvent)) : List CostAggregate :=
  observed Pipeline.step (noteBuilt a) {} [] es

theorem pyRound_perDay (availableDays : ℤ) (total : ℚ) :
    pyRound (perDay availableDays total) 2 = perDay availableDays total := by
  unfold perDay
  split
  · exact pyRound_pyRound _ 2
  · exact pyRound_zero 2

theorem processElement_inCents {s : CostEnrichment} {now : Instant} {line : EnrichedPaymentLine} :
    ∀ cost ∈ (s.processElement now line).2, cost.InCents := by
  intro cost hc
  obtain ⟨aggregation, profile, strategy, hagg, -, -, rfl⟩ := CostEnrichment.mem_processElement hc
  obtain ⟨first, -, rfl⟩ := aggregateCost_eq_some hagg
  exact ⟨pyRound_perDay _ _, pyRound_perDay _ _⟩

theorem built_inCents {c : Chain} {now : Instant} {e : PipelineEvent} :
    ∀ cost ∈ c.built now e, cost.InCents := by
  intro cost hc
  unfold Chain.built at hc
  split at hc
  · split at hc
    · cases hc
    · exact processElement_inCents cost hc
  · cases hc

section
variable {c : Chain} {step : ℕ} {now : Instant} {e : PipelineEvent}

/-- The aggregates that leave A4 are what a step puts into the channel behind it. -/
theorem Chain.react_leaving : ∃ rest, rest <:+ c.toOwnerContractEnrichment ∧
    (c.react step now e).toOwnerContractEnrichment.map (·.cost) = rest.map (·.cost) ++ c.leaving e := by
  have hreacts := c.reacts step now e
  generalize c.react step now e = c' at hreacts
  cases hreacts with
  | configure a row => cases row <;> exact ⟨_, List.suffix_rfl, (List.append_nil _).symm⟩
  | @idle a operator hidle =>
    refine ⟨_, List.suffix_rfl, ?_⟩
    cases operator with
    | companyCostEnrichment => rw [Chain.leaving, show c.toCompanyCostEnrichment = [] from hidle, List.append_nil]
    | _ => exact (List.append_nil _).symm
  | companyCostEnrichment a hq =>
    refine ⟨_, List.suffix_rfl, ?_⟩
    rw [Chain.leaving, hq, List.map_append]
    rfl
  | @ownerContractEnrichment a m rest hq => exact ⟨rest, hq ▸ List.suffix_cons m rest, (List.append_nil _).symm⟩
  | _ => exact ⟨_, List.suffix_rfl, (List.append_nil _).symm⟩

variable (c step now e) in
/-- What a step does around the bookings operator: it takes an aggregate of Stage A, it handles a booking,
or it keeps its state and at most its channels move. -/
theorem Chain.bookings_cases :
    (∃ a m rest, e = .operate a .bookingEnrichment ∧ c.toBookingEnrichment = m :: rest ∧
      (c.react step now e).toBookingEnrichment = rest ∧
      (c.react step now e).bookingEnrichment = { c.bookingEnrichment with latestCostAggregate := some m.cost } ∧
      (c.react step now e).toCompanyCostEnrichment.map (·.cost) = c.toCompanyCostEnrichment.map (·.cost) ++
        [recompute c.bookingEnrichment.bookings.values m.cost]) ∨
    (∃ value, e = .booking value ∧
      (c.react step now e).toBookingEnrichment = c.toBookingEnrichment ∧
      (c.react step now e).bookingEnrichment.latestCostAggregate = c.bookingEnrichment.latestCostAggregate ∧
      (c.react step now e).toCompanyCostEnrichment.map (·.cost) = c.toCompanyCostEnrichment.map (·.cost) ++
        (c.bookingEnrichment.latestCostAggregate.map
          (recompute (c.react step now e).bookingEnrichment.bookings.values)).toList) ∨
    ((c.react step now e).bookingEnrichment = c.bookingEnrichment ∧
      (c.react step now e).toBookingEnrichment.map (·.cost) =
        c.toBookingEnrichment.map (·.cost) ++ c.built now e ∧
      (c.react step now e).toCompanyCostEnrichment <:+ c.toCompanyCostEnrichment) := by
  have hreacts := c.reacts step now e
  generalize c.react step now e = c' at hreacts
  have hkept : ∀ {costs : List Message}, costs.map (·.cost) = costs.map (·.cost) ++ [] := (List.append_nil _).symm
  cases hreacts with
  | booking value bookings =>
    refine Or.inr (Or.inl ⟨value, rfl, rfl, rfl, ?_⟩)
    cases c.bookingEnrichment.latestCostAggregate <;> simp
  | bookingEnrichment a hq => exact Or.inl ⟨a, _, _, rfl, hq, rfl, rfl, List.map_append ..⟩
  | @idle a operator hidle =>
    refine Or.inr (Or.inr ⟨rfl, ?_, List.suffix_rfl⟩)
    cases operator with
    | costEnrichment => rw [Chain.built, show c.toCostEnrichment = [] from hidle, List.append_nil]
    | _ => exact hkept
  | costEnrichment a hq =>
    refine Or.inr (Or.inr ⟨rfl, ?_, List.suffix_rfl⟩)
    rw [Chain.built, hq, List.map_append, List.map_map]
    exact congrArg _ (List.map_id _)
  | @companyCostEnrichment a m rest hq =>
    exact Or.inr (Or.inr ⟨rfl, hkept, hq ▸ List.suffix_cons m rest⟩)
  | configure a row => cases row <;> exact Or.inr (Or.inr ⟨rfl, hkept, List.suffix_rfl⟩)
  | _ => exact Or.inr (Or.inr ⟨rfl, hkept, List.suffix_rfl⟩)

end

/-! ## Runs -/

/-- What Stage A has emitted: before what the bookings operator holds, that, and what is on the way to it. -/
def Pipeline.Holds (a : String) (costs : List CostAggregate) (s : Pipeline) : Prop :=
  ∃ past, costs = past ++ (s.chains a).bookingEnrichment.latestCostAggregate.toList ++
    (s.chains a).toBookingEnrichment.map (·.cost)

/-- The cost was sent by the bookings operator at some moment of the run, in the state it had then. -/
def SentBy (a : String) (es : List (Env × PipelineEvent)) (cost : CostAggregate) : Prop :=
  ∃ p q t ot past latest, es = p ++ q ∧ run Pipeline.step {} p = .ok (t, ot) ∧
    (t.chains a).bookingEnrichment.latestCostAggregate = some latest ∧
    builtCosts a p = past ++ latest :: (t.chains a).toBookingEnrichment.map (·.cost) ∧
    cost = recompute (t.chains a).bookingEnrichment.bookings.values latest

section
variable {s s' : Pipeline} {e : Env × PipelineEvent} {os : List Emitted} {a : String}

theorem noteBuilt_inCents {costs : List CostAggregate} (hs : ∀ cost ∈ costs, cost.InCents) :
    ∀ cost ∈ noteBuilt a s e os costs, cost.InCents := by
  unfold noteBuilt
  split
  · exact List.forall_mem_append.mpr ⟨hs, built_inCents⟩
  · exact hs

theorem step_holds (h : s.step e = .ok (s', os)) {costs : List CostAggregate} (hs : s.Holds a costs) :
    s'.Holds a (noteBuilt a s e os costs) := by
  obtain ⟨-, hchains, -⟩ := Pipeline.step_cases h
  obtain ⟨past, rfl⟩ := hs
  unfold Pipeline.Holds noteBuilt
  rw [hchains]
  by_cases ha : e.2.apartment = some a
  · rw [if_pos ha, if_pos ha]
    rcases (s.chains a).bookings_cases s.steps (e.1.now 0) e.2 with
      ⟨b, m, rest, he, hq, hq', hb, -⟩ | ⟨value, he, hq', hl, -⟩ | ⟨hb, hq', -⟩
    · refine ⟨past ++ (s.chains a).bookingEnrichment.latestCostAggregate.toList, ?_⟩
      rw [hb, hq', hq, he]
      simp [Chain.built]
    · refine ⟨past, ?_⟩
      rw [hq', hl, he]
      simp [Chain.built]
    · refine ⟨past, ?_⟩
      rw [hb, hq', List.append_assoc]
  · rw [if_neg ha, if_neg ha]
    exact ⟨past, rfl⟩

end

section
variable {es : List (Env × PipelineEvent)} {s : Pipeline} {os : List Emitted} {a : String}

theorem run_holds (h : run Pipeline.step {} es = .ok (s, os)) : s.Holds a (builtCosts a es) := by
  refine run_prefix (I := fun p t _ => t.Holds a (builtCosts a p)) ⟨[], rfl⟩ ?_ h
  intro p e q t os t' o _ hr ht hstep
  rw [builtCosts, observed_concat hr hstep]
  exact step_holds hstep ht

theorem run_inCents (h : run Pipeline.step {} es = .ok (s, os)) : ∀ cost ∈ builtCosts a es, cost.InCents := by
  refine run_prefix (I := fun p _ _ => ∀ cost ∈ builtCosts a p, cost.InCents)
    (fun _ hc => absurd hc List.not_mem_nil) ?_ h
  intro p e q t os t' o _ hr ht hstep
  rw [builtCosts, observed_concat hr hstep]
  exact noteBuilt_inCents ht

theorem SentBy.concat {cost : CostAggregate} (hs : SentBy a es cost) (e : Env × PipelineEvent) :
    SentBy a (es ++ [e]) cost := by
  obtain ⟨p, q, t, ot, past, latest, rfl, h⟩ := hs
  exact ⟨p, q ++ [e], t, ot, past, latest, List.append_assoc .., h⟩

theorem run_sent (h : run Pipeline.step {} es = .ok (s, os)) :
    ∀ cost ∈ (s.chains a).toCompanyCostEnrichment.map (·.cost), SentBy a es cost := by
  refine run_prefix (I := fun p t _ => ∀ cost ∈ (t.chains a).toCompanyCostEnrichment.map (·.cost),
    SentBy a p cost) (fun _ hc => absurd hc List.not_mem_nil) ?_ h
  intro p e q t os t' o _ hr ht hstep cost hc
  have hold := fun hc => (ht cost hc).concat e
  have hr' : run Pipeline.step {} (p ++ [e]) = .ok (t', os ++ o) :=
    run_append.mpr ⟨t, os, o, hr, run_singleton.mpr hstep, rfl⟩
  -- what the bookings operator has just sent was computed in the state it is in now
  have hnow : ∀ latest, (t'.chains a).bookingEnrichment.latestCostAggregate = some latest →
      SentBy a (p ++ [e]) (recompute (t'.chains a).bookingEnrichment.bookings.values latest) := by
    intro latest hl
    obtain ⟨past, hpast⟩ := run_holds (a := a) hr'
    rw [hl, Option.toList_some, List.append_assoc, List.singleton_append] at hpast
    exact ⟨_, [], t', _, past, latest, (List.append_nil _).symm, hr', hl, hpast, rfl⟩
  have hchain := (Pipeline.step_cases hstep).2.1 a
  split at hchain
  · rcases (t.chains a).bookings_cases t.steps (e.1.now 0) e.2 with
      ⟨b, m, rest, he, hq, hq', hb, hsent⟩ | ⟨value, he, hq', hl, hsent⟩ | ⟨hb, hq', hsuffix⟩
    · rw [hchain, hsent, List.mem_append, List.mem_singleton] at hc
      rcases hc with hc | rfl
      · exact hold hc
      · have hlatest := hnow m.cost (by rw [hchain, hb])
        rwa [hchain, hb] at hlatest
    · rw [hchain, hsent, List.mem_append, Option.mem_toList, Option.map_eq_some_iff] at hc
      rcases hc with hc | ⟨latest, hlatest, rfl⟩
      · exact hold hc
      · have hsame := hnow latest (by rw [hchain, hl]; exact hlatest)
        rwa [hchain] at hsame
    · rw [hchain] at hc
      exact hold ((hsuffix.sublist.map _).subset hc)
  · rw [hchain] at hc
    exact hold hc

end

/-! ## One input at a time -/

def PipelineEvent.feedsBookings : PipelineEvent → Bool
  | .booking _ => true
  | .operate _ .costEnrichment => true
  | _ => false

/-- The bookings operator is given a booking, or Stage A emits for it, once what was sent before has left A4. -/
def Unhurried (a : String) (s : Pipeline) (e : Env × PipelineEvent) : Prop :=
  e.2.apartment = some a → e.2.feedsBookings = true →
    (s.chains a).toBookingEnrichment = [] ∧ (s.chains a).toCompanyCostEnrichment = []

instance (a : String) (s : Pipeline) (e : Env × PipelineEvent) : Decidable (Unhurried a s e) :=
  inferInstanceAs (Decidable (_ → _ → _ ∧ _))

/-- What waits in front of A4 is what the bookings operator would send now. -/
structure Chain.Current (c : Chain) : Prop where
  sent : ∀ cost ∈ c.toCompanyCostEnrichment.map (·.cost), ∃ latest,
    c.bookingEnrichment.latestCostAggregate = some latest ∧
      cost = recompute c.bookingEnrichment.bookings.values latest
  one : c.toBookingEnrichment.length ≤ 1
  apart : c.toBookingEnrichment = [] ∨ c.toCompanyCostEnrichment = []

theorem chainCurrent_empty : ({} : Chain).Current where
  sent _ h := absurd h List.not_mem_nil
  one := Nat.zero_le 1
  apart := Or.inl rfl

theorem built_length (c : Chain) (now : Instant) (e : PipelineEvent) : (c.built now e).length ≤ 1 := by
  unfold Chain.built
  split
  · split
    · exact Nat.zero_le 1
    · simp only [CostEnrichment.processElement]
      split
      · exact Nat.zero_le 1
      · split
        · exact le_refl 1
        · exact Nat.zero_le 1
  · exact Nat.zero_le 1

theorem built_nil {c : Chain} {now : Instant} {e : PipelineEvent} (h : e.feedsBookings = false) :
    c.built now e = [] := by
  unfold Chain.built
  split
  · cases h
  · rfl

theorem react_current {c : Chain} (hs : c.Current) {step : ℕ} {now : Instant} {e : PipelineEvent}
    (hidle : e.feedsBookings = true → c.toBookingEnrichment = [] ∧ c.toCompanyCostEnrichment = []) :
    (c.react step now e).Current := by
  rcases c.bookings_cases step now e with
    ⟨b, m, rest, he, hq, hq', hb, hsent⟩ | ⟨value, he, hq', hl, hsent⟩ | ⟨hb, hq', hsuffix⟩
  · -- the only aggregate in front of the operator moves behind it
    have hone := hs.one
    rw [hq, List.length_cons, Nat.succ_le_succ_iff, Nat.le_zero, List.length_eq_zero_iff] at hone
    have hbehind := hs.apart.resolve_left (by rw [hq]; exact List.cons_ne_nil _ _)
    rw [hbehind, List.map_nil, List.nil_append] at hsent
    refine ⟨fun cost hc => ?_, by rw [hq', hone]; exact Nat.zero_le 1, Or.inl (by rw [hq', hone])⟩
    rw [hsent, List.mem_singleton] at hc
    rw [hb, hc]
    exact ⟨m.cost, rfl, rfl⟩
  · obtain ⟨hfront, hbehind⟩ := hidle (by rw [he]; rfl)
    rw [hbehind, List.map_nil, List.nil_append] at hsent
    refine ⟨fun cost hc => ?_, by rw [hq', hfront]; exact Nat.zero_le 1, Or.inl (by rw [hq', hfront])⟩
    rw [hsent, Option.mem_toList, Option.map_eq_some_iff] at hc
    obtain ⟨latest, hlatest, rfl⟩ := hc
    exact ⟨latest, hl.trans hlatest, rfl⟩
  · have hlength := congrArg List.length hq'
    rw [List.length_map, List.length_append, List.length_map] at hlength
    refine ⟨fun cost hc => ?_, ?_, ?_⟩
    · rw [hb]
      exact hs.sent cost ((hsuffix.sublist.map _).subset hc)
    · cases hfeeds : e.feedsBookings with
      | true =>
        rw [hlength, (hidle hfeeds).1]
        exact (Nat.zero_add _).trans_le (built_length c now e)
      | false =>
        rw [hlength, built_nil hfeeds]
        exact hs.one
    · cases hfeeds : e.feedsBookings with
      | true =>
        rw [(hidle hfeeds).2] at hsuffix
        exact Or.inr (List.suffix_nil.mp hsuffix)
      | false =>
        rw [built_nil hfeeds, List.append_nil] at hq'
        refine hs.apart.imp (fun hfront => ?_) fun hbehind => ?_
        · rwa [hfront, List.map_nil, List.map_eq_nil_iff] at hq'
        · rw [hbehind] at hsuffix
          exact List.suffix_nil.mp hsuffix

theorem run_chainCurrent {a : String} {es : List (Env × PipelineEvent)} {s : Pipeline} {os : List Emitted}
    (hc : Along Pipeline.step (Unhurried a) {} es) (h : run Pipeline.step {} es = .ok (s, os)) :
    (s.chains a).Current := by
  refine run_invariant (I := fun t => (t.chains a).Current) ?_ chainCurrent_empty hc h
  intro t e t' o ht hidle hstep
  have hchain := (Pipeline.step_cases hstep).2.1 a
  split at hchain
  · rename_i ha
    rw [hchain]
    exact react_current ht (hidle ha)
  · rw [hchain]
    exact ht

/-! ## The costs that leave A4 -/

theorem mem_leaving {c : Chain} {e : PipelineEvent} {cost : CostAggregate} (h : cost ∈ c.leaving e) :
    ∃ m ∈ c.toCompanyCostEnrichment,
      cost = c.companyCostEnrichment.processElement (applyCorrections m.cost) := by
  unfold Chain.leaving at h
  split at h
  · split at h
    · cases h
    · rename_i m rest hq
      exact ⟨m, hq ▸ List.mem_cons_self .., List.mem_singleton.mp h⟩
  · cases h

/-- What leaves A4 is what a step puts into the channel behind it, and is one function of an aggregate just as
Stage A emitted it, the bookings and A4's rows: those of the moment it was sent, or, handling one input at a
time, those of the moment it leaves. -/
theorem costs_recomputed {es : List (Env × PipelineEvent)} {s : Pipeline} {os : List Emitted}
    (h : run Pipeline.step {} es = .ok (s, os)) :
    (∀ a step now e, ∃ rest, rest <:+ (s.chains a).toOwnerContractEnrichment ∧
      ((s.chains a).react step now e).toOwnerContractEnrichment.map (·.cost) =
        rest.map (·.cost) ++ (s.chains a).leaving e) ∧
    (∀ a e, ∀ cost ∈ (s.chains a).leaving e,
      (∃ p q t ot past latest, es = p ++ q ∧ run Pipeline.step {} p = .ok (t, ot) ∧
        builtCosts a p = past ++ latest :: (t.chains a).toBookingEnrichment.map (·.cost) ∧
        RecomputedFrom (s.chains a).companyCostEnrichment (t.chains a).bookingEnrichment.bookings.values
          latest cost) ∧
      (Along Pipeline.step (Unhurried a) {} es → ∃ latest, (builtCosts a es).getLast? = some latest ∧
        RecomputedFrom (s.chains a).companyCostEnrichment (s.chains a).bookingEnrichment.bookings.values
          latest cost)) ∧
    (∀ cost, applyCorrections (applyCorrections cost) = applyCorrections cost) ∧
    ∀ (company : CompanyCostEnrichment) cost, cost.pendingAllocationCorrections = [] →
      (∀ o ∈ company.occurrences.values, ¬ company.Applies cost o) →
      company.processElement (applyCorrections cost) = cost := by
  refine ⟨fun a step now e => Chain.react_leaving, fun a e cost hc => ⟨?_, fun hcalm => ?_⟩, applyCorrections_idem,
    fun company cost hnone hout => ?_⟩
  · obtain ⟨m, hm, rfl⟩ := mem_leaving hc
    obtain ⟨p, q, t, ot, past, latest, hes, hp, -, hbuilt, hcost⟩ :=
      run_sent (a := a) h m.cost (List.mem_map_of_mem hm)
    refine ⟨p, q, t, ot, past, latest, hes, hp, hbuilt, ?_⟩
    rw [hcost]
    exact recomputedCost_from _ _ (run_inCents (a := a) hp latest (by rw [hbuilt]; simp))
  · obtain ⟨m, hm, rfl⟩ := mem_leaving hc
    have hcurrent := run_chainCurrent hcalm h
    obtain ⟨latest, hlatest, hcost⟩ := hcurrent.sent m.cost (List.mem_map_of_mem hm)
    have hfront := hcurrent.apart.resolve_right (List.ne_nil_of_mem hm)
    obtain ⟨past, hpast⟩ := run_holds (a := a) h
    rw [hlatest, hfront, List.map_nil, List.append_nil, Option.toList_some] at hpast
    refine ⟨latest, by rw [hpast, List.getLast?_concat], ?_⟩
    rw [hcost]
    exact recomputedCost_from _ _ (run_inCents (a := a) h latest (by rw [hpast]; simp))
  · rw [applyCorrections_none hnone]
    exact companyCosts_none hout

def flatStay (bookingId : String) (checkIn checkOut : Date) : BookingRow :=
  { bookingId := bookingId
    apartmentId := "a1"
    checkIn := checkIn
    checkOut := checkOut
    guests := 2
    status := .confirmed }

def cleaningDefinition : CostDefinitionRow :=
  { electricityDefinition with costDefinitionId := "cleaning", concept := .cleaning }

def softwareDefinition : CostDefinitionRow :=
  { costDefinitionId := "software"
    concept := .pmsSubscription
    scope := .company
    behavior := .fixed
    trigger := .time
    calculationBase := .fixedAmount
    recurrence := .monthly
    revenueBase := none }

/-- Cleaning is allocated by occupied night; a quarter of the company's software is the flat's. -/
def sharedRows : List PipelineEvent :=
  [.configure "a1" (.costConfig (.definition cleaningDefinition)),
   .configure "a1" (.costConfig (.allocationRule
     { costDefinitionId := "cleaning", method := .occupiedNight, weightConfig := none })),
   .configure "a1" (.companyConfig (.definition softwareDefinition)),
   .configure "a1" (.companyConfig (.allocationRule
     { costDefinitionId := "software", method := .weighted, weightConfig := some (Dict.empty.put "a1" (1 / 4)) })),
   .configure "a1" (.companyConfig (.occurrence
     { companyCostOccurrenceId := "o1"
       costDefinitionId := "software"
       billingPeriodStart := toordinal 2026 9 1
       billingPeriodEnd := toordinal 2026 9 30
       amountGross := 480 }))]

/-- The costs of the flat leave A4, a booking sends them again, and another one once more. -/
def rebookedFlat : List (Env × PipelineEvent) :=
  jobFrom 0 (flatRows ++ sharedRows ++
    [.payment (flatLine "e1" 900 0)] ++ flatOperators ++
    [.payment { flatLine "e2" 60 1 with costDefinitionId := "cleaning" }] ++ flatOperators ++
    [.booking (flatStay "b1" (toordinal 2026 9 3) (toordinal 2026 9 6)), .operate "a1" .companyCostEnrichment,
     .booking (flatStay "b2" (toordinal 2026 9 10) (toordinal 2026 9 12))])

/-- Sent for the third time, the aggregate has the correction of 60 / 5 and the share of 120 / 30 in it once. -/
theorem rebookedFlat_recomputed : ∃ s os cost latest, run Pipeline.step {} rebookedFlat = .ok (s, os) ∧
    cost ∈ (s.chains "a1").leaving (.operate "a1" .companyCostEnrichment) ∧
    (cost.occupiedNights, cost.fixedCostEur, cost.variableCostEur) = (5, 4, 900 / 30 + 60 / 5) ∧
    (builtCosts "a1" rebookedFlat).getLast? = some latest ∧
    RecomputedFrom (s.chains "a1").companyCostEnrichment (s.chains "a1").bookingEnrichment.bookings.values
      latest cost ∧
    CompanyCostEnrichment.processElement {} (applyCorrections cost) = cost := by
  have hrun : ((run Pipeline.step {} rebookedFlat).toOption.map fun r =>
      ((r.1.chains "a1").leaving (.operate "a1" .companyCostEnrichment)).map fun cost =>
        ((cost.occupiedNights, cost.fixedCostEur, cost.variableCostEur), cost.pendingAllocationCorrections)) =
      some [((5, 4, 900 / 30 + 60 / 5), [])] := by
    decide +kernel
  obtain ⟨⟨s, os⟩, h, hcosts⟩ := ok_of_map hrun
  obtain ⟨cost, hcost, hfacts⟩ := List.map_eq_singleton_iff.mp hcosts
  obtain ⟨hamounts, hpending⟩ := Prod.mk.inj hfacts
  have hmem : cost ∈ (s.chains "a1").leaving (.operate "a1" .companyCostEnrichment) := by
    rw [hcost]
    exact List.mem_singleton_self cost
  have hcalm : Along Pipeline.step (Unhurried "a1") {} rebookedFlat := by decide +kernel
  obtain ⟨-, hleaves, -, hunchanged⟩ := costs_recomputed h
  obtain ⟨latest, hlatest, hfrom⟩ := (hleaves "a1" _ cost hmem).2 hcalm
  exact ⟨s, os, cost, latest, h, hmem, hamounts, hlatest, hfrom,
    hunchanged {} cost hpending fun o ho => absurd ho List.not_mem_nil⟩

end PriceEngine
