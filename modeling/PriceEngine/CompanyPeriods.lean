import Mathlib.Algebra.BigOperators.Ring.List
import PriceEngine.Grouping
import PriceEngine.Recomputation

/-!
# Company costs of other periods

Stage A4 keeps every occurrence it has been sent and charges each of them to every
aggregate, whatever period it is of. The part of an apartment is its weight of the
monthly amount, over the days. What the occurrences of the aggregate's own period
add up to is their monthly amount; those of other periods come on top, unless
their part of a night rounds away.
-/

namespace PriceEngine

def isOfPeriod (periodStart periodEnd : Date) (occurrence : CompanyCostOccurrenceRow) : Bool :=
  occurrence.billingPeriodStart == periodStart && occurrence.billingPeriodEnd == periodEnd

def CostAggregate.hasOccurrence (cost : CostAggregate) : CompanyCostOccurrenceRow → Bool :=
  isOfPeriod cost.billingPeriodStart cost.billingPeriodEnd

/-- A4 as it would be with none but these occurrences. -/
def CompanyCostEnrichment.keeping (s : CompanyCostEnrichment) (keep : CompanyCostOccurrenceRow → Bool) :
    CompanyCostEnrichment :=
  { s with occurrences := s.occurrences.filterValues keep }

def companyMonthly (s : CompanyCostEnrichment) (occurrence : CompanyCostOccurrenceRow) : ℚ :=
  match s.definitions.get? occurrence.costDefinitionId with
  | some definition => occurrence.amountGross / recurrenceMonthlyDivisor definition.recurrence
  | none => 0

def companyWeight (s : CompanyCostEnrichment) (occurrence : CompanyCostOccurrenceRow) (apartmentId : String) : ℚ :=
  (((s.allocations.get? occurrence.costDefinitionId).bind (·.weightConfig)).bind (·.get? apartmentId)).getD 0

/-- What A4 adds to the nightly costs of an aggregate. -/
def addedPerNight (s : CompanyCostEnrichment) (cost : CostAggregate) : ℚ :=
  ((s.processElement cost).fixedCostEur - cost.fixedCostEur) +
    ((s.processElement cost).variableCostEur - cost.variableCostEur)

/-- The occurrences are of company-scoped definitions with weights of the apartments that sum to one. -/
structure SharedAmong (s : CompanyCostEnrichment) (costs : List CostAggregate) : Prop where
  definition : ∀ o ∈ s.occurrences.values, ∃ definition, s.definitions.get? o.costDefinitionId = some definition ∧
    definition.scope = .company
  allocation : ∀ o ∈ s.occurrences.values, ∃ allocation weights,
    s.allocations.get? o.costDefinitionId = some allocation ∧ allocation.weightConfig = some weights
  amount : ∀ o ∈ s.occurrences.values, 0 ≤ o.amountGross
  weight : ∀ o ∈ s.occurrences.values, ∀ cost ∈ costs, 0 ≤ companyWeight s o cost.apartmentId
  weights : ∀ o ∈ s.occurrences.values, (costs.map fun cost => companyWeight s o cost.apartmentId).sum = 1

variable {s : CompanyCostEnrichment} {costs : List CostAggregate} {cost : CostAggregate}

/-! ## The part of one occurrence -/

def shareAmount (s : CompanyCostEnrichment) (cost : CostAggregate) (o : CompanyCostOccurrenceRow) : ℚ :=
  ((occurrenceShare s cost o).map (·.2)).getD 0

theorem companyMonthly_nonneg (h : SharedAmong s costs) {o : CompanyCostOccurrenceRow}
    (ho : o ∈ s.occurrences.values) : 0 ≤ companyMonthly s o := by
  unfold companyMonthly
  split
  · exact div_nonneg (h.amount o ho) (recurrenceMonthlyDivisor_pos _).le
  · exact le_rfl

theorem shareAmount_eq (h : SharedAmong s costs) (hdays : 1 ≤ cost.availableDays) {o : CompanyCostOccurrenceRow}
    (ho : o ∈ s.occurrences.values) (hmem : cost ∈ costs) :
    shareAmount s cost o = pyRound (companyMonthly s o * companyWeight s o cost.apartmentId / cost.availableDays) 2 := by
  obtain ⟨definition, hd, hscope⟩ := h.definition o ho
  obtain ⟨allocation, weights, ha, hweights⟩ := h.allocation o ho
  have hweight : companyWeight s o cost.apartmentId = (weights.get? cost.apartmentId).getD 0 := by
    simp only [companyWeight, ha, Option.bind_some, hweights]
  have hmonthly : companyMonthly s o = o.amountGross / recurrenceMonthlyDivisor definition.recurrence := by
    simp only [companyMonthly, hd]
  have hnonneg := h.weight o ho cost hmem
  rw [hmonthly, hweight] at *
  simp only [shareAmount, occurrenceShare, hd, ha, hweights, Option.bind_eq_bind, Option.bind_some, hscope, ne_eq,
    not_true_eq_false, false_or]
  split_ifs with hzero
  · rw [le_antisymm hzero hnonneg, mul_zero, zero_div, pyRound_zero]
    rfl
  · simp only [Option.map_some, Option.getD_some, perDay, if_pos (show cost.availableDays > 0 by omega)]

theorem shareAmount_nonneg (h : SharedAmong s costs) (hdays : 1 ≤ cost.availableDays) {o : CompanyCostOccurrenceRow}
    (ho : o ∈ s.occurrences.values) (hmem : cost ∈ costs) : 0 ≤ shareAmount s cost o := by
  rw [shareAmount_eq h hdays ho hmem]
  have hd : (0 : ℚ) ≤ cost.availableDays := by exact_mod_cast (by omega : (0 : ℤ) ≤ cost.availableDays)
  exact pyRound_nonneg (div_nonneg (mul_nonneg (companyMonthly_nonneg h ho) (h.weight o ho cost hmem)) hd) 2

/-! ## All occurrences -/

theorem shareTotal_inCents (s : CompanyCostEnrichment) (cost : CostAggregate) (keep : Behavior → Bool) :
    pyRound (shareTotal s cost keep) 2 = shareTotal s cost keep := by
  refine pyRound_sum_eq_self fun x hx => ?_
  obtain ⟨share, hshare, rfl⟩ := List.mem_map.mp hx
  obtain ⟨o, -, ho⟩ := List.mem_filterMap.mp (List.mem_of_mem_filter hshare)
  simp only [occurrenceShare, Option.bind_eq_bind, Option.bind_eq_some_iff] at ho
  obtain ⟨definition, -, allocation, -, weights, -, ho⟩ := ho
  split_ifs at ho
  rw [← Option.some.inj ho]
  exact pyRound_perDay _ _

theorem shareTotal_both (s : CompanyCostEnrichment) (cost : CostAggregate) :
    shareTotal s cost (· == .fixed) + shareTotal s cost (!· == .fixed) =
      (s.occurrences.values.map (shareAmount s cost)).sum := by
  rw [shareTotal, shareTotal, sum_filter_add_sum_filter_not (fun share : Behavior × ℚ => share.2)
    (fun share => share.1 == .fixed), sum_filterMap_getD]
  rfl

theorem addedPerNight_eq (h : cost.InCents) (s : CompanyCostEnrichment) :
    addedPerNight s cost = (s.occurrences.values.map (shareAmount s cost)).sum := by
  obtain ⟨hfixed, hvariable⟩ := shares_once h s
  rw [pyRound_add_eq_self h.fixed (shareTotal_inCents ..)] at hfixed
  rw [pyRound_add_eq_self h.variable' (shareTotal_inCents ..)] at hvariable
  rw [addedPerNight, hfixed, hvariable, ← shareTotal_both]
  ring

/-! ## Own and other periods -/

theorem shareTotal_eq_sum (s : CompanyCostEnrichment) (cost : CostAggregate) (keep : Behavior → Bool) :
    shareTotal s cost keep = (s.occurrences.values.map fun o =>
      (((occurrenceShare s cost o).filter fun share => keep share.1).map (·.2)).getD 0).sum := by
  rw [shareTotal, List.filter_filterMap, sum_filterMap_getD]

theorem shareTotal_split (s : CompanyCostEnrichment) (cost : CostAggregate) (keep : Behavior → Bool)
    (own : CompanyCostOccurrenceRow → Bool) :
    shareTotal s cost keep = shareTotal (s.keeping own) cost keep + shareTotal (s.keeping (!own ·)) cost keep := by
  rw [shareTotal_eq_sum, shareTotal_eq_sum, shareTotal_eq_sum, CompanyCostEnrichment.keeping,
    CompanyCostEnrichment.keeping, Dict.values_filterValues, Dict.values_filterValues]
  exact (sum_filter_add_sum_filter_not _ own _).symm

theorem shareTotal_eq_zero {keep : Behavior → Bool} (h : ∀ o ∈ s.occurrences.values, shareAmount s cost o = 0) :
    shareTotal s cost keep = 0 := by
  rw [shareTotal_eq_sum]
  refine List.sum_eq_zero fun x hx => ?_
  obtain ⟨o, ho, rfl⟩ := List.mem_map.mp hx
  have hzero := h o ho
  rw [shareAmount] at hzero
  cases hshare : occurrenceShare s cost o with
  | none => rfl
  | some share =>
    rw [hshare] at hzero
    rw [Option.filter_some]
    split_ifs
    · exact hzero
    · rfl

theorem keeping_shared (h : SharedAmong s costs) (keep : CompanyCostOccurrenceRow → Bool) :
    SharedAmong (s.keeping keep) costs := by
  have hmem : ∀ o ∈ (s.keeping keep).occurrences.values, o ∈ s.occurrences.values := by
    intro o ho
    rw [CompanyCostEnrichment.keeping, Dict.values_filterValues] at ho
    exact List.mem_of_mem_filter ho
  exact {
    definition := fun o ho => h.definition o (hmem o ho)
    allocation := fun o ho => h.allocation o (hmem o ho)
    amount := fun o ho => h.amount o (hmem o ho)
    weight := fun o ho => h.weight o (hmem o ho)
    weights := fun o ho => h.weights o (hmem o ho) }

/-- The nightly costs are what they would be without the other occurrences exactly if the part of each of these
rounds away. -/
theorem others_unnoticed_iff (h : SharedAmong s costs) (hmem : cost ∈ costs) (hcents : cost.InCents)
    (hdays : 1 ≤ cost.availableDays) (own : CompanyCostOccurrenceRow → Bool) :
    ((s.processElement cost).fixedCostEur = ((s.keeping own).processElement cost).fixedCostEur ∧
      (s.processElement cost).variableCostEur = ((s.keeping own).processElement cost).variableCostEur) ↔
    ∀ o ∈ s.occurrences.values, own o = false → shareAmount s cost o = 0 := by
  let others := s.keeping (!own ·)
  have hvalues : others.occurrences.values = s.occurrences.values.filter (!own ·) := Dict.values_filterValues ..
  have hiff : (∀ o ∈ s.occurrences.values, own o = false → shareAmount s cost o = 0) ↔
      ∀ o ∈ others.occurrences.values, shareAmount others cost o = 0 := by
    rw [hvalues]
    simp only [List.mem_filter, Bool.not_eq_true', and_imp]
    rfl
  have hfixed : ∀ s : CompanyCostEnrichment, (s.processElement cost).fixedCostEur =
      cost.fixedCostEur + shareTotal s cost (· == .fixed) := fun s => by
    rw [(shares_once hcents s).1, pyRound_add_eq_self hcents.fixed (shareTotal_inCents ..)]
  have hvariable : ∀ s : CompanyCostEnrichment, (s.processElement cost).variableCostEur =
      cost.variableCostEur + shareTotal s cost (!· == .fixed) := fun s => by
    rw [(shares_once hcents s).2, pyRound_add_eq_self hcents.variable' (shareTotal_inCents ..)]
  rw [hiff, hfixed, hfixed, hvariable, hvariable, shareTotal_split s cost (· == .fixed) own,
    shareTotal_split s cost (!· == .fixed) own]
  constructor
  · rintro ⟨hf, hv⟩
    have hsum : (others.occurrences.values.map (shareAmount others cost)).sum = 0 := by
      rw [← shareTotal_both]
      linarith
    intro o ho
    refine List.all_zero_of_le_zero_le_of_sum_eq_zero ?_ hsum (List.mem_map_of_mem ho)
    intro x hx
    obtain ⟨o, ho, rfl⟩ := List.mem_map.mp hx
    exact shareAmount_nonneg (keeping_shared h _) hdays ho hmem
  · intro hzero
    have hf : shareTotal others cost (· == .fixed) = 0 := shareTotal_eq_zero hzero
    have hv : shareTotal others cost (!· == .fixed) = 0 := shareTotal_eq_zero hzero
    rw [hf, hv, add_zero, add_zero]
    exact ⟨rfl, rfl⟩

/-! ## One month -/

theorem parts_of_occurrence (h : SharedAmong s costs) {days : ℤ} (hdays : 1 ≤ days)
    (hall : ∀ cost ∈ costs, cost.availableDays = days) {o : CompanyCostOccurrenceRow}
    (ho : o ∈ s.occurrences.values) :
    |days * (costs.map fun cost => shareAmount s cost o).sum - companyMonthly s o| ≤ days / 200 * costs.length := by
  have hpos : (0 : ℚ) < days := by exact_mod_cast hdays
  have hmonthly : companyMonthly s o =
      (costs.map fun cost => companyMonthly s o * companyWeight s o cost.apartmentId).sum := by
    rw [List.sum_map_mul_left, h.weights o ho, mul_one]
  have hbound : ∀ cost ∈ costs,
      |days * shareAmount s cost o - companyMonthly s o * companyWeight s o cost.apartmentId| ≤ days / 200 := by
    intro cost hmem
    let part := companyMonthly s o * companyWeight s o cost.apartmentId / days
    have hpart : companyMonthly s o * companyWeight s o cost.apartmentId = days * part :=
      (mul_div_cancel₀ _ hpos.ne').symm
    have hshare : shareAmount s cost o = pyRound part 2 := by
      rw [shareAmount_eq h (by rw [hall cost hmem]; exact hdays) ho hmem, hall cost hmem]
    have hcent : |pyRound part 2 - part| ≤ 1 / 200 := halfCent_pyRound part
    rw [hshare, hpart, ← mul_sub, abs_mul, abs_of_pos hpos]
    have hmul := mul_le_mul_of_nonneg_left hcent hpos.le
    linarith
  rw [hmonthly, ← List.sum_map_mul_left]
  refine (abs_sum_sub_sum_le hbound).trans_eq ?_
  ring

theorem occurrences_of_own_period (h : SharedAmong s costs) {days : ℤ} (hdays : 1 ≤ days)
    (hcents : ∀ cost ∈ costs, cost.InCents) (hall : ∀ cost ∈ costs, cost.availableDays = days) :
    |days * (costs.map (addedPerNight s)).sum - (s.occurrences.values.map (companyMonthly s)).sum| ≤
      days / 200 * (costs.length * s.occurrences.values.length) := by
  have hadded : (costs.map (addedPerNight s)).sum =
      (s.occurrences.values.map fun o => (costs.map fun cost => shareAmount s cost o).sum).sum := by
    rw [← sum_sum_comm]
    exact congrArg List.sum (List.map_congr_left fun cost hmem => addedPerNight_eq (hcents cost hmem) s)
  rw [hadded, ← List.sum_map_mul_left]
  refine (abs_sum_sub_sum_le fun o ho => parts_of_occurrence h hdays hall ho).trans_eq ?_
  ring

/-- A4 charges the apartments the occurrences of their own period, and no others. -/
structure ChargedOnce (s : CompanyCostEnrichment) (costs : List CostAggregate) (periodStart periodEnd : Date)
    (days : ℤ) : Prop where
  others : ∀ cost ∈ costs,
    (s.processElement cost).fixedCostEur = ((s.keeping cost.hasOccurrence).processElement cost).fixedCostEur ∧
    (s.processElement cost).variableCostEur = ((s.keeping cost.hasOccurrence).processElement cost).variableCostEur
  total : |days * (costs.map (addedPerNight s)).sum -
    ((s.occurrences.values.filter (isOfPeriod periodStart periodEnd)).map (companyMonthly s)).sum| ≤
      days / 200 * (costs.length * (s.occurrences.values.filter (isOfPeriod periodStart periodEnd)).length)

def OthersRoundAway (s : CompanyCostEnrichment) (costs : List CostAggregate) (periodStart periodEnd : Date)
    (days : ℤ) : Prop :=
  ∀ o ∈ s.occurrences.values, isOfPeriod periodStart periodEnd o = false → ∀ cost ∈ costs,
    companyMonthly s o * companyWeight s o cost.apartmentId / days ≤ 1 / 200

/-- Company costs are charged once, for their own period, exactly if those of other periods round away. -/
theorem company_costs_once_iff (h : SharedAmong s costs) {periodStart periodEnd : Date} {days : ℤ} (hdays : 1 ≤ days)
    (hcents : ∀ cost ∈ costs, cost.InCents) (hall : ∀ cost ∈ costs, cost.availableDays = days)
    (hperiod : ∀ cost ∈ costs, cost.billingPeriodStart = periodStart ∧ cost.billingPeriodEnd = periodEnd) :
    ChargedOnce s costs periodStart periodEnd days ↔ OthersRoundAway s costs periodStart periodEnd days := by
  have hpos : (0 : ℚ) ≤ days := by exact_mod_cast (by omega : (0 : ℤ) ≤ days)
  have hdays' : ∀ cost ∈ costs, 1 ≤ cost.availableDays := fun cost hmem => by rw [hall cost hmem]; exact hdays
  have hown : ∀ cost ∈ costs, cost.hasOccurrence = isOfPeriod periodStart periodEnd := fun cost hmem => by
    rw [CostAggregate.hasOccurrence, (hperiod cost hmem).1, (hperiod cost hmem).2]
  have hothers := fun cost (hmem : cost ∈ costs) =>
    others_unnoticed_iff h hmem (hcents cost hmem) (hdays' cost hmem) cost.hasOccurrence
  have hround : ∀ cost ∈ costs, ∀ o ∈ s.occurrences.values, shareAmount s cost o = 0 ↔
      companyMonthly s o * companyWeight s o cost.apartmentId / days ≤ 1 / 200 := by
    intro cost hmem o ho
    rw [shareAmount_eq h (hdays' cost hmem) ho hmem, hall cost hmem]
    exact pyRound_eq_zero_iff (div_nonneg (mul_nonneg (companyMonthly_nonneg h ho) (h.weight o ho cost hmem)) hpos)
  constructor
  · intro hcharged o ho hother cost hmem
    rw [← hown cost hmem] at hother
    exact (hround cost hmem o ho).mp ((hothers cost hmem).mp (hcharged.others cost hmem) o ho hother)
  · intro haway
    have hsame := fun cost (hmem : cost ∈ costs) => (hothers cost hmem).mpr fun o ho hother =>
      (hround cost hmem o ho).mpr (haway o ho (hown cost hmem ▸ hother) cost hmem)
    refine ⟨hsame, ?_⟩
    have hadded : costs.map (addedPerNight s) =
        costs.map (addedPerNight (s.keeping (isOfPeriod periodStart periodEnd))) :=
      List.map_congr_left fun cost hmem => by
        rw [addedPerNight, addedPerNight, (hsame cost hmem).1, (hsame cost hmem).2, hown cost hmem]
    have htotal := occurrences_of_own_period (keeping_shared h (isOfPeriod periodStart periodEnd)) hdays hcents hall
    rw [CompanyCostEnrichment.keeping, Dict.values_filterValues] at htotal
    rw [hadded]
    exact htotal

/-! ## A rent with a history -/

def twoFlats : List CostAggregate := [flatCost "BCN-001" 0, flatCost "BCN-002" 0]

def rentRows : List CompanyConfigRow :=
  [.definition ⟨"rent", .officeRent, .company, .fixed, .time, .fixedAmount, .monthly, none, none⟩,
    .allocationRule ⟨"rent", .weighted, some ((Dict.empty.put "BCN-001" (1 / 2)).put "BCN-002" (1 / 2))⟩]

def rentOf (month : String) (periodStart periodEnd : Date) : CompanyConfigRow :=
  .occurrence ⟨month, "rent", periodStart, periodEnd, 1200⟩

def septemberRent : CompanyConfigRow := rentOf "september" (toordinal 2026 9 1) (toordinal 2026 9 30)

def augustRent : CompanyConfigRow := rentOf "august" (toordinal 2026 8 1) (toordinal 2026 8 31)

def companyCosts (rows : List CompanyConfigRow) : CompanyCostEnrichment :=
  (rentRows ++ rows).foldl CompanyCostEnrichment.processBroadcastElement {}

theorem rent_shared {rows : List CompanyConfigRow}
    (hdefinition : ((companyCosts rows).definitions.get? "rent").map (·.scope) = some .company)
    (hallocation : ((companyCosts rows).allocations.get? "rent").bind (·.weightConfig) =
      some ((Dict.empty.put "BCN-001" (1 / 2)).put "BCN-002" (1 / 2)))
    (hrent : ∀ o ∈ (companyCosts rows).occurrences.values, o.costDefinitionId = "rent" ∧ 0 ≤ o.amountGross) :
    SharedAmong (companyCosts rows) twoFlats := by
  have hweight : ∀ o ∈ (companyCosts rows).occurrences.values, ∀ cost ∈ twoFlats,
      companyWeight (companyCosts rows) o cost.apartmentId = 1 / 2 := by
    intro o ho cost hmem
    rw [companyWeight, (hrent o ho).1, hallocation]
    rcases List.mem_pair.mp hmem with rfl | rfl <;> decide +kernel
  refine ⟨fun o ho => ?_, fun o ho => ?_, fun o ho => (hrent o ho).2, fun o ho cost hmem => ?_, fun o ho => ?_⟩
  · obtain ⟨definition, hd, hscope⟩ := Option.map_eq_some_iff.mp hdefinition
    rw [(hrent o ho).1]
    exact ⟨definition, hd, hscope⟩
  · obtain ⟨allocation, ha, hweights⟩ := Option.bind_eq_some_iff.mp hallocation
    rw [(hrent o ho).1]
    exact ⟨allocation, _, ha, hweights⟩
  · rw [hweight o ho cost hmem]
    norm_num
  · rw [List.map_congr_left fun cost hmem => hweight o ho cost hmem]
    decide +kernel

theorem twoFlats_inCents : ∀ cost ∈ twoFlats, cost.InCents := by
  have hflat : ∀ id, (flatCost id 0).InCents := fun id =>
    ⟨(by decide +kernel : pyRound 20 2 = 20), (by decide +kernel : pyRound 10 2 = 10)⟩
  exact List.forall_mem_cons.mpr ⟨hflat _, List.forall_mem_singleton.mpr (hflat _)⟩

theorem rent_of_one_month :
    ChargedOnce (companyCosts [septemberRent]) twoFlats (toordinal 2026 9 1) (toordinal 2026 9 30) 30 ∧
    ¬ ChargedOnce (companyCosts [augustRent, septemberRent]) twoFlats (toordinal 2026 9 1) (toordinal 2026 9 30) 30 := by
  have hperiod : ∀ cost ∈ twoFlats, cost.billingPeriodStart = toordinal 2026 9 1 ∧
      cost.billingPeriodEnd = toordinal 2026 9 30 := by decide
  have hdays : ∀ cost ∈ twoFlats, cost.availableDays = 30 := by decide
  have hiff := fun rows (h : SharedAmong (companyCosts rows) twoFlats) =>
    company_costs_once_iff h (by decide) twoFlats_inCents hdays hperiod
  refine ⟨(hiff _ (rent_shared rfl rfl (by decide))).mpr ?_, fun h => ?_⟩
  · unfold OthersRoundAway
    decide
  · have haway := (hiff _ (rent_shared rfl rfl (by decide))).mp h
    unfold OthersRoundAway at haway
    revert haway
    decide +kernel

/-- The rent of August is charged in September as well. -/
theorem other_periods_charged : ¬ ∀ (s : CompanyCostEnrichment) (costs : List CostAggregate)
    (periodStart periodEnd : Date) (days : ℤ), SharedAmong s costs → 1 ≤ days → (∀ cost ∈ costs, cost.InCents) →
      (∀ cost ∈ costs, cost.availableDays = days) →
      (∀ cost ∈ costs, cost.billingPeriodStart = periodStart ∧ cost.billingPeriodEnd = periodEnd) →
        ChargedOnce s costs periodStart periodEnd days := by
  intro hall
  have hcharged := hall (companyCosts [augustRent, septemberRent]) twoFlats (toordinal 2026 9 1) (toordinal 2026 9 30)
    30 (rent_shared rfl rfl (by decide)) (by decide) twoFlats_inCents (by decide) (by decide)
  have hadded : (twoFlats.map (addedPerNight (companyCosts [augustRent, septemberRent]))).sum = 80 := by decide +kernel
  have htotal := hcharged.total
  rw [hadded] at htotal
  revert htotal
  decide +kernel

end PriceEngine
