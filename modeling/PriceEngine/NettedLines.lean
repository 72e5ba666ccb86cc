import PriceEngine.CompanyPeriods
import PriceEngine.DeferredCosts
import PriceEngine.NettingBases
import PriceEngine.PercentageCosts

/-!
# Lines that are netted and lines that are charged

A percentage cost nets the lines of its base out of the floor, each with its
whole amount. Charged is a line with its own share only: a quarterly line with
a third, a percentage or a deferred one with nothing. `lineExcess` adds up
what the lines are netted beyond what they are charged. The aggregates of a
period round every total to cents a day; `roundings` is what that leaves over.
-/

namespace PriceEngine

/-! ## Rates on lines -/

/-- A rate and the base it is taken on. -/
abbrev Netting := ℚ × RevenueBase

def nets : RevenueBase → EnrichedPaymentLine → Bool
  | .totalRevenue, _ => false
  | .revenueMinusOta, line => otaRelatedConcepts.contains line.concept
  | .revenueMinusOtaMinusCleaning, line => (otaRelatedConcepts ++ cleaningConcepts).contains line.concept
  | .revenueMinusOtaMinusCleaningMinusLaundry, line => isNetted line
  | .revenueMinusAllBookingCosts, line => isBookingScoped line

/-- The rates that are taken on a base without the line, together. -/
def nettingRate (nettings : List Netting) (line : EnrichedPaymentLine) : ℚ :=
  (nettings.map fun netting => if nets netting.2 line then netting.1 else 0).sum

/-- The part of a line's amount that the nights of its period are charged, over a stay of `stay` nights; `once` lines
of the period are one-time costs, and a booking is charged their average. -/
def chargedShare (days : ℤ) (stay once : ℕ) (line : EnrichedPaymentLine) : ℚ :=
  if isPercentage line then 0
  else if isOneTime line then days / (stay * once)
  else if isImmediate line then 1 / recurrenceMonthlyDivisor line.recurrence
  else 0

/-- What the lines are netted beyond what they are charged, in the whole period. -/
def lineExcess (days : ℤ) (stay : ℕ) (nettings : List Netting) (lines : List EnrichedPaymentLine) : ℚ :=
  (lines.map fun line => line.amountGross *
    (nettingRate nettings line - chargedShare days stay (oneTimeLines lines).length line)).sum

/-! ## Rounding -/

def netPerNight (days : ℤ) (lines : List EnrichedPaymentLine) (base : RevenueBase) : ℚ :=
  let perNight (keep : EnrichedPaymentLine → Bool) := perDay days (grossTotal (lines.filter keep))
  nettedRevenueBaseAmount base (perNight fun line => otaRelatedConcepts.contains line.concept)
    (perNight fun line => cleaningConcepts.contains line.concept)
    (perNight fun line => laundryConcepts.contains line.concept) (perNight isBookingScoped)

/-- What rounding the sub-totals of a base to cents a day leaves over. -/
def netRemainder (days : ℤ) (lines : List EnrichedPaymentLine) (base : RevenueBase) : ℚ :=
  let remainderOf (keep : EnrichedPaymentLine → Bool) := centRemainder days (grossTotal (lines.filter keep))
  nettedRevenueBaseAmount base (remainderOf fun line => otaRelatedConcepts.contains line.concept)
    (remainderOf fun line => cleaningConcepts.contains line.concept)
    (remainderOf fun line => laundryConcepts.contains line.concept) (remainderOf isBookingScoped)

def centsLeft (x : ℚ) : ℚ := x - pyRound x 2

def nettingRoundings (days : ℤ) (nettings : List Netting) (lines : List EnrichedPaymentLine) : ℚ :=
  (nettings.map fun netting => netting.1 * netRemainder days lines netting.2 +
    days * centsLeft (netting.1 * netPerNight days lines netting.2)).sum

def chargeRoundings (days : ℤ) (stay : ℕ) (lines : List EnrichedPaymentLine) : ℚ :=
  centRemainder days (monthlyTotal (fixedLines lines)) + centRemainder days (monthlyTotal (variableLines lines)) +
    days / stay * centsLeft (grossTotal (oneTimeLines lines) / (oneTimeLines lines).length)

/-- What the roundings leave over, in the whole period. -/
def roundings (days : ℤ) (stay : ℕ) (nettings : List Netting) (lines : List EnrichedPaymentLine) : ℚ :=
  nettingRoundings days nettings lines - chargeRoundings days stay lines

/-! ## Totals of lines -/

theorem amountIf_nets (base : RevenueBase) (line : EnrichedPaymentLine) : amountIf (nets base) line =
    nettedRevenueBaseAmount base (amountIf (fun line => otaRelatedConcepts.contains line.concept) line)
      (amountIf (fun line => cleaningConcepts.contains line.concept) line)
      (amountIf (fun line => laundryConcepts.contains line.concept) line) (amountIf isBookingScoped line) := by
  unfold amountIf
  cases base with
  | totalRevenue => rfl
  | revenueMinusOta => rfl
  | revenueMinusAllBookingCosts => rfl
  | revenueMinusOtaMinusCleaning =>
    -- a concept is in at most one of the lists
    cases hconcept : line.concept <;>
      simp [nets, nettedRevenueBaseAmount, otaRelatedConcepts, cleaningConcepts, hconcept]
  | revenueMinusOtaMinusCleaningMinusLaundry =>
    cases hconcept : line.concept <;> simp [nets, isNetted, nettedRevenueBaseAmount, otaRelatedConcepts,
      cleaningConcepts, laundryConcepts, hconcept]

theorem nettedRevenueBaseAmount_add (base : RevenueBase) (a b c d a' b' c' d' : ℚ) :
    nettedRevenueBaseAmount base (a + a') (b + b') (c + c') (d + d') =
      nettedRevenueBaseAmount base a b c d + nettedRevenueBaseAmount base a' b' c' d' := by
  cases base <;> simp only [nettedRevenueBaseAmount] <;> ring

theorem nettedRevenueBaseAmount_mul (base : RevenueBase) (a b c d x : ℚ) :
    nettedRevenueBaseAmount base (a * x) (b * x) (c * x) (d * x) = nettedRevenueBaseAmount base a b c d * x := by
  cases base <;> simp only [nettedRevenueBaseAmount] <;> ring

theorem grossTotal_nets (base : RevenueBase) (lines : List EnrichedPaymentLine) :
    grossTotal (lines.filter (nets base)) =
      nettedRevenueBaseAmount base (grossTotal (lines.filter fun line => otaRelatedConcepts.contains line.concept))
        (grossTotal (lines.filter fun line => cleaningConcepts.contains line.concept))
        (grossTotal (lines.filter fun line => laundryConcepts.contains line.concept))
        (grossTotal (lines.filter isBookingScoped)) := by
  induction lines with
  | nil => cases base <;> simp [grossTotal, nettedRevenueBaseAmount]
  | cons line lines ih =>
    simp only [grossTotal_filter_cons]
    rw [nettedRevenueBaseAmount_add, ← amountIf_nets, ih]

theorem netPerNight_mul (days : ℤ) (lines : List EnrichedPaymentLine) (base : RevenueBase) :
    netPerNight days lines base * days =
      grossTotal (lines.filter (nets base)) - netRemainder days lines base := by
  rw [grossTotal_nets, netPerNight, netRemainder, ← nettedRevenueBaseAmount_mul]
  unfold centRemainder
  cases base <;> simp only [nettedRevenueBaseAmount] <;> ring

theorem sum_nettingRate (nettings : List Netting) (lines : List EnrichedPaymentLine) :
    (lines.map fun line => line.amountGross * nettingRate nettings line).sum =
      (nettings.map fun netting => netting.1 * grossTotal (lines.filter (nets netting.2))).sum := by
  have hline : ∀ line : EnrichedPaymentLine, line.amountGross * nettingRate nettings line =
      (nettings.map fun netting => netting.1 * amountIf (nets netting.2) line).sum := by
    intro line
    rw [nettingRate, ← List.sum_map_mul_left]
    refine congrArg List.sum (List.map_congr_left fun netting _ => ?_)
    unfold amountIf
    split_ifs <;> ring
  have htotal : ∀ netting : Netting, netting.1 * grossTotal (lines.filter (nets netting.2)) =
      (lines.map fun line => netting.1 * amountIf (nets netting.2) line).sum := by
    intro netting
    rw [List.sum_map_mul_left]
    congr 1
    induction lines with
    | nil => rfl
    | cons line lines ih => rw [grossTotal_filter_cons, ih, List.map_cons, List.sum_cons]
  simp only [hline, htotal]
  exact sum_sum_comm _ _ _

theorem monthlyTotal_immediate (lines : List EnrichedPaymentLine) :
    monthlyTotal (immediateLines lines) = monthlyTotal (fixedLines lines) + monthlyTotal (variableLines lines) := by
  have hvariable : variableLines lines = (immediateLines lines).filter fun line => !(line.behavior == .fixed) :=
    List.filter_congr fun line _ => by cases line.behavior <;> rfl
  rw [hvariable]
  exact (sum_filter_add_sum_filter_not monthlyEquivalent (fun line => line.behavior == .fixed) _).symm

theorem sum_chargedShare (days : ℤ) (stay once : ℕ) (lines : List EnrichedPaymentLine) :
    (lines.map fun line => line.amountGross * chargedShare days stay once line).sum =
      monthlyTotal (fixedLines lines) + monthlyTotal (variableLines lines) +
        days / (stay * once) * grossTotal (oneTimeLines lines) := by
  rw [← monthlyTotal_immediate]
  induction lines with
  | nil => simp [monthlyTotal, grossTotal, immediateLines, oneTimeLines, chargedLines]
  | cons line lines ih =>
    rw [List.map_cons, List.sum_cons, ih]
    unfold chargedShare immediateLines oneTimeLines chargedLines
    cases hpercentage : isPercentage line with
    | true => simp [hpercentage]
    | false =>
      cases honce : isOneTime line with
      | true =>
        simp [hpercentage, honce, grossTotal]
        ring
      | false =>
        cases himmediate : isImmediate line with
        | true =>
          simp [hpercentage, honce, himmediate, monthlyTotal, monthlyEquivalent]
          ring
        | false => simp [hpercentage, honce, himmediate]

theorem sum_pyRound_netting (days : ℤ) (nettings : List Netting) (lines : List EnrichedPaymentLine) :
    days * (nettings.map fun netting => pyRound (netting.1 * netPerNight days lines netting.2) 2).sum =
      (lines.map fun line => line.amountGross * nettingRate nettings line).sum -
        nettingRoundings days nettings lines := by
  rw [eq_sub_iff_add_eq, sum_nettingRate, nettingRoundings, ← List.sum_map_mul_left, ← List.sum_map_add]
  refine congrArg List.sum (List.map_congr_left fun netting _ => ?_)
  rw [centsLeft]
  calc _ = netting.1 * (netPerNight days lines netting.2 * days) + netting.1 * netRemainder days lines netting.2 := by
        ring
    _ = _ := by
        rw [netPerNight_mul]
        ring

/-- The netting a night is within what the night is charged exactly if the lines are not netted beyond what they are
charged, up to what the roundings leave over. -/
theorem netted_le_iff {days : ℤ} (hdays : 0 < days) (stay : ℕ) (nettings : List Netting)
    (lines : List EnrichedPaymentLine) (x : ℚ) :
    (nettings.map fun netting => pyRound (netting.1 * netPerNight days lines netting.2) 2).sum ≤
      perDay days (monthlyTotal (fixedLines lines)) + perDay days (monthlyTotal (variableLines lines)) +
        pyRound (grossTotal (oneTimeLines lines) / (oneTimeLines lines).length) 2 / stay + x ↔
      lineExcess days stay nettings lines ≤ days * x + roundings days stay nettings lines := by
  have hpos : (0 : ℚ) < days := by exact_mod_cast hdays
  have hnetted := sum_pyRound_netting days nettings lines
  have hcharged := sum_chargedShare days stay (oneTimeLines lines).length lines
  have hexcess : lineExcess days stay nettings lines =
      (lines.map fun line => line.amountGross * nettingRate nettings line).sum -
        (lines.map fun line => line.amountGross * chargedShare days stay (oneTimeLines lines).length line).sum := by
    rw [eq_sub_iff_add_eq, lineExcess, ← List.sum_map_add]
    exact congrArg List.sum (List.map_congr_left fun line _ => by rw [mul_sub, sub_add_cancel])
  rw [← mul_le_mul_iff_of_pos_left hpos, hnetted, hexcess, hcharged, roundings, chargeRoundings, centsLeft]
  unfold centRemainder
  rw [div_mul_eq_div_div]
  simp only [div_eq_mul_inv]
  constructor <;> intro hle <;> linarith

/-! ## Bounds -/

theorem abs_centsLeft_le (x : ℚ) : |centsLeft x| ≤ 1 / 200 := by
  rw [centsLeft, abs_sub_comm]
  exact halfCent_pyRound x

section
variable {days : ℤ} (hdays : 0 < days) {nettings : List Netting} (lines : List EnrichedPaymentLine)
include hdays

theorem abs_netRemainder_le (base : RevenueBase) : |netRemainder days lines base| ≤ 3 * (days / 200) := by
  have hbound (keep : EnrichedPaymentLine → Bool) :=
    abs_le.mp (centRemainder_abs_le hdays (grossTotal (lines.filter keep)))
  obtain ⟨hota, hota'⟩ := hbound fun line => otaRelatedConcepts.contains line.concept
  obtain ⟨hcleaning, hcleaning'⟩ := hbound fun line => cleaningConcepts.contains line.concept
  obtain ⟨hlaundry, hlaundry'⟩ := hbound fun line => laundryConcepts.contains line.concept
  obtain ⟨hbooking, hbooking'⟩ := hbound isBookingScoped
  have hnonneg : (0 : ℚ) ≤ days / 200 := div_nonneg (by exact_mod_cast hdays.le) (by norm_num)
  rw [netRemainder, abs_le]
  cases base <;> simp only [nettedRevenueBaseAmount] <;> constructor <;> linarith

theorem abs_nettingRoundings_le (hrates : ∀ netting ∈ nettings, 0 ≤ netting.1 ∧ netting.1 ≤ 1) :
    |nettingRoundings days nettings lines| ≤ nettings.length * (4 * (days / 200)) := by
  have hpos : (0 : ℚ) < days := by exact_mod_cast hdays
  have hbound := abs_sum_sub_sum_le (f := fun netting : Netting => netting.1 * netRemainder days lines netting.2 +
    days * centsLeft (netting.1 * netPerNight days lines netting.2)) (g := fun _ => 0) (l := nettings)
    (e := 4 * (days / 200)) fun netting hnetting => ?_
  · simpa [nettingRoundings] using hbound
  · obtain ⟨hrate, hone⟩ := hrates netting hnetting
    have hrem := mul_le_mul hone (abs_netRemainder_le hdays lines netting.2) (abs_nonneg _) zero_le_one
    have hcents := mul_le_mul_of_nonneg_left (abs_centsLeft_le (netting.1 * netPerNight days lines netting.2)) hpos.le
    rw [sub_zero]
    calc _ ≤ |netting.1 * netRemainder days lines netting.2| +
          |days * centsLeft (netting.1 * netPerNight days lines netting.2)| := abs_add_le _ _
      _ = netting.1 * |netRemainder days lines netting.2| +
          days * |centsLeft (netting.1 * netPerNight days lines netting.2)| := by
        rw [abs_mul, abs_mul, abs_of_nonneg hrate, abs_of_pos hpos]
      _ ≤ 4 * (days / 200) := by linarith

theorem abs_chargeRoundings_le {stay : ℕ} (hstay : 0 < stay) :
    |chargeRoundings days stay lines| ≤ 3 * (days / 200) := by
  have hpos : (0 : ℚ) < days := by exact_mod_cast hdays
  have hfixed := abs_le.mp (centRemainder_abs_le hdays (monthlyTotal (fixedLines lines)))
  have hvariable := abs_le.mp (centRemainder_abs_le hdays (monthlyTotal (variableLines lines)))
  have honce : |(days : ℚ) / stay * centsLeft (grossTotal (oneTimeLines lines) / (oneTimeLines lines).length)| ≤
      days / 200 := by
    have hstay' : (1 : ℚ) ≤ stay := by exact_mod_cast hstay
    have hday : (days : ℚ) / stay ≤ days := div_le_self hpos.le hstay'
    rw [abs_mul, abs_of_nonneg (div_nonneg hpos.le (zero_le_one.trans hstay'))]
    have h := mul_le_mul hday (abs_centsLeft_le (grossTotal (oneTimeLines lines) / (oneTimeLines lines).length))
      (abs_nonneg _) hpos.le
    linarith
  have honce' := abs_le.mp honce
  rw [chargeRoundings, abs_le]
  constructor <;> linarith [hfixed.1, hfixed.2, hvariable.1, hvariable.2, honce'.1, honce'.2]

/-- All roundings together come to half a cent a day for each total that is rounded. -/
theorem abs_roundings_le {stay : ℕ} (hstay : 0 < stay) (hrates : ∀ netting ∈ nettings, 0 ≤ netting.1 ∧ netting.1 ≤ 1) :
    |roundings days stay nettings lines| ≤ (4 * nettings.length + 3) * (days / 200) := by
  have hnetting := abs_nettingRoundings_le hdays lines hrates
  have hcharge := abs_chargeRoundings_le hdays lines hstay
  calc |roundings days stay nettings lines|
    _ ≤ |nettingRoundings days nettings lines| + |chargeRoundings days stay lines| := abs_sub _ _
    _ ≤ (4 * nettings.length + 3) * (days / 200) := by linarith

end

/-! ## From the lines to the decision -/

/-- The percentage costs of the lines, one for each concept, and the owner's commission. -/
def nettingsOf (lines : List EnrichedPaymentLine) (owner : CostDefinitionRow) : List Netting :=
  ((percentageCostsOf (lines.filter isPercentage)).map fun pc => (pc.rate, pc.revenueBase.getD .totalRevenue)) ++
    [(owner.rate.getD 0, owner.revenueBase.getD .totalRevenue)]

/-- The nights or the bookings of a period that a deferred cost is shared over; its days when there are none. -/
def deferredOver (bookings : List BookingRow) (periodStart periodEnd : Date) (method : AllocationMethod) : ℤ :=
  let count :=
    match method with
    | .occupiedNight => occupiedNights bookings periodStart periodEnd
    | .booking => bookingCount bookings periodStart periodEnd
    | _ => 0
  if count = 0 then periodEnd - periodStart + 1 else count

/-- What the deferred lines of a period add a night, those of one concept together. -/
def deferredPerNight (bookings : List BookingRow) (lines : List EnrichedPaymentLine) : ℚ :=
  match lines with
  | [] => 0
  | first :: _ => ((pendingCorrectionsOf (deferredLines lines)).map fun c =>
      perDay (deferredOver bookings first.billingPeriodStart first.billingPeriodEnd c.allocationMethod)
        c.monthlyEquivalentEur).sum

/-- What the company's costs add a night. -/
def companyPerNight (s : CompanyCostEnrichment) (apartmentId : String) (days : ℤ) : ℚ :=
  (s.occurrences.values.map fun o =>
    if (s.definitions.get? o.costDefinitionId).map (·.scope) = some .company then
      perDay days (companyMonthly s o * max (companyWeight s o apartmentId) 0)
    else 0).sum

def PricingInput.extraPerNight (i : PricingInput) : ℚ :=
  deferredPerNight i.bookings (currentLines i.lines) +
    companyPerNight i.company i.value.apartmentId (periodDays i.lines)

def PricingInput.ownerDefinition (i : PricingInput) : Option CostDefinitionRow :=
  (i.owner.ownerContracts.get? i.value.apartmentId).bind
    fun assignment => i.owner.costDefinitions.get? assignment.costDefinitionId

/-- The lines of the period are not netted beyond what they are charged, by all rates together over the longest stay
and by each channel's commission over one night; costs that are not among them, the rest of a floor that rounds to
zero and the roundings may make up for it. -/
structure PricingInput.LinesCover (i : PricingInput) (owner : CostDefinitionRow) : Prop where
  stays :
    let nettings := nettingsOf (currentLines i.lines) owner
    lineExcess (periodDays i.lines) 14 nettings (currentLines i.lines) ≤
      periodDays i.lines * (i.extraPerNight +
        (1 - pyRound (nettings.map (·.1)).sum 4 - i.strategy.targetMargin) / 200) +
        roundings (periodDays i.lines) 14 nettings (currentLines i.lines)
  channels : ∀ platform ∈ i.night.channels.keys, ∃ commission, channelCommissionPct platform = some commission ∧
    let nettings := [(commission, owner.revenueBase.getD .totalRevenue)]
    lineExcess (periodDays i.lines) 1 nettings (currentLines i.lines) ≤
      periodDays i.lines * (i.extraPerNight +
        (1 - sumOfRates (percentageCostsOf ((currentLines i.lines).filter isPercentage)) - commission -
          i.strategy.targetMargin) / 200) +
        roundings (periodDays i.lines) 1 nettings (currentLines i.lines)

/-- The lines are charged more than they are netted, by as much as the roundings may come to. -/
structure PricingInput.LinesChargeMore (i : PricingInput) (owner : CostDefinitionRow) : Prop where
  stays :
    let nettings := nettingsOf (currentLines i.lines) owner
    lineExcess (periodDays i.lines) 14 nettings (currentLines i.lines) +
      (4 * nettings.length + 3) * (periodDays i.lines / 200) ≤ 0
  channels : ∀ platform ∈ i.night.channels.keys, ∃ commission, channelCommissionPct platform = some commission ∧
    lineExcess (periodDays i.lines) 1 [(commission, owner.revenueBase.getD .totalRevenue)] (currentLines i.lines) +
      7 * (periodDays i.lines / 200) ≤ 0

theorem shareAmount_congr {s : CompanyCostEnrichment} {c d : CostAggregate} (ha : c.apartmentId = d.apartmentId)
    (hd : c.availableDays = d.availableDays) : shareAmount s c = shareAmount s d := by
  funext o
  simp only [shareAmount, occurrenceShare, ha, hd]

theorem recomputedCost_perNight (company : CompanyCostEnrichment) (bookings : List BookingRow) {latest : CostAggregate}
    (h : latest.AllInCents) : fixedAndAllocatedCostsPerNightEur (recomputedCost company bookings latest) =
      latest.fixedCostEur + latest.variableCostEur +
        ((latest.pendingAllocationCorrections.map (correctionPerNight (recompute bookings latest))).sum +
        (company.occurrences.values.map (shareAmount company latest)).sum) := by
  let corrected := applyCorrections (recompute bookings latest)
  have hseen : (recompute bookings latest).AllInCents := ⟨⟨h.fixed, h.variable'⟩, h.perBooking⟩
  have hcorrected : corrected.InCents := corrections_inCents hseen.toInCents
  obtain ⟨_, _, _, hkept⟩ := applyCorrections_kept (recompute bookings latest)
  have hshare : shareAmount company corrected = shareAmount company latest := by
    refine shareAmount_congr ?_ ?_ <;> exact (congrArg _ hkept).trans rfl
  obtain ⟨hfixed, hvariable⟩ := shares_once hcorrected company
  rw [pyRound_add_eq_self hcorrected.fixed (shareTotal_inCents ..)] at hfixed
  rw [pyRound_add_eq_self hcorrected.variable' (shareTotal_inCents ..)] at hvariable
  have hnight := corrected_perNight hseen
  rw [fixedAndAllocatedCostsPerNightEur, pyRound_add_eq_self hcorrected.fixed hcorrected.variable'] at hnight
  have hboth := shareTotal_both company corrected
  rw [hshare] at hboth
  have hfixedCents := pyRound_add_eq_self hcorrected.fixed (shareTotal_inCents company corrected (· == .fixed))
  have hvariableCents := pyRound_add_eq_self hcorrected.variable' (shareTotal_inCents company corrected (!· == .fixed))
  change pyRound ((company.processElement corrected).fixedCostEur +
    (company.processElement corrected).variableCostEur) 2 = _
  rw [hfixed, hvariable, pyRound_add_eq_self hfixedCents hvariableCents]
  have hpending : (recompute bookings latest).pendingAllocationCorrections = latest.pendingAllocationCorrections := rfl
  change corrected.fixedCostEur + corrected.variableCostEur = latest.fixedCostEur + latest.variableCostEur + _ at hnight
  rw [hpending] at hnight
  linarith

theorem nettingsOf_rates {lines : List EnrichedPaymentLine} (h : ∀ line ∈ lines, line.Admissible)
    {owner : CostDefinitionRow} (howner : ∀ r ∈ owner.rate, 0 ≤ r ∧ r ≤ 1) :
    ∀ netting ∈ nettingsOf lines owner, 0 ≤ netting.1 ∧ netting.1 ≤ 1 := by
  have hdefault : ∀ rate : Option ℚ, (∀ r ∈ rate, 0 ≤ r ∧ r ≤ 1) → 0 ≤ rate.getD 0 ∧ rate.getD 0 ≤ 1 := by
    intro rate hrate
    cases rate with
    | none => exact ⟨le_rfl, zero_le_one⟩
    | some r => exact hrate r rfl
  intro netting hnetting
  rcases List.mem_append.mp hnetting with hline | hline
  · obtain ⟨pc, hpc, rfl⟩ := List.mem_map.mp hline
    obtain ⟨concept, -, rfl⟩ := List.mem_map.mp hpc
    refine hdefault _ fun r hr => ?_
    obtain ⟨line, hfirst, hrate⟩ := Option.bind_eq_some_iff.mp hr
    exact (h line (List.mem_of_mem_filter (List.mem_of_find?_eq_some hfirst))).rate r hrate
  · rw [List.mem_singleton.mp hline]
    exact hdefault _ howner

theorem shareAmount_eq_perDay (s : CompanyCostEnrichment) (cost : CostAggregate) (o : CompanyCostOccurrenceRow) :
    shareAmount s cost o = if (s.definitions.get? o.costDefinitionId).map (·.scope) = some .company then
      perDay cost.availableDays (companyMonthly s o * max (companyWeight s o cost.apartmentId) 0) else 0 := by
  have hzero : perDay cost.availableDays 0 = 0 := by rw [perDay, zero_div, pyRound_zero, ite_self]
  unfold shareAmount occurrenceShare companyMonthly companyWeight
  rcases s.definitions.get? o.costDefinitionId with - | definition
  · rfl
  rcases s.allocations.get? o.costDefinitionId with - | allocation
  · simp [hzero]
  rcases hconfig : allocation.weightConfig with - | weights
  · simp [hconfig, hzero]
  · simp only [Option.bind_eq_bind, Option.bind_some, Option.map_some, Option.some.injEq, hconfig]
    -- the weight of an apartment that A4 does not have is 0
    by_cases hscope : definition.scope = .company
    · rw [if_pos hscope]
      by_cases hweight : (weights.get? cost.apartmentId).getD 0 ≤ 0
      · rw [if_pos (Or.inr hweight), max_eq_right hweight, mul_zero, hzero]
        rfl
      · rw [if_neg (not_or.mpr ⟨not_not.mpr hscope, hweight⟩), max_eq_left (not_le.mp hweight).le]
        rfl
    · rw [if_neg hscope, if_pos (Or.inl hscope)]
      rfl

/-- The latest aggregate of Stage A brings the deferred lines along, and A4 its own costs. -/
theorem extraPerNight_eq {i : PricingInput} {r : CostAggregationResult} (hr : aggregateCost i.lines = some r) :
    let latest := costAggregateOf i.now i.value i.profile i.strategy r
    i.extraPerNight = (latest.pendingAllocationCorrections.map (correctionPerNight (recompute i.bookings latest))).sum +
      (i.company.occurrences.values.map (shareAmount i.company latest)).sum := by
  rw [aggregateCost_eq] at hr
  unfold PricingInput.extraPerNight deferredPerNight companyPerNight periodDays
  cases hcurrent : currentLines i.lines with
  | nil => rw [hcurrent] at hr; cases hr
  | cons first rest =>
    rw [hcurrent] at hr
    obtain rfl := Option.some.inj hr
    congr 1
    · refine congrArg List.sum (List.map_congr_left fun c _ => congrArg (perDay · c.monthlyEquivalentEur) ?_)
      unfold deferredOver allocationDenominator
      cases c.allocationMethod <;> simp [recompute, costAggregateOf, aggregatePeriod]
    · refine congrArg List.sum (List.map_congr_left fun o _ => ?_)
      rw [shareAmount_eq_perDay]
      rfl

theorem extraPerNight_nonneg {i : PricingInput} (h : i.Admissible) : 0 ≤ i.extraPerNight := by
  obtain ⟨r, hr⟩ := aggregateCost_isSome h.lines_ne
  rw [extraPerNight_eq hr]
  refine add_nonneg (List.sum_nonneg (List.forall_mem_map.mpr fun c hc => ?_))
    (List.sum_nonneg (List.forall_mem_map.mpr fun o ho => ?_))
  · exact perDay_nonneg ((aggregateCost_sound h.lines hr).pending c hc) _
  · unfold shareAmount
    cases hshare : occurrenceShare i.company _ o with
    | none => exact le_rfl
    | some share => exact occurrenceShare_nonneg (h.company o ho) hshare

/-- What the aggregate that reaches Stage B says of the lines of the period. -/
structure PricingInput.Sums (i : PricingInput) (owner : CostDefinitionRow) (cost : CostAggregate) : Prop where
  nettedBy : ∀ rate base, nettedBy cost rate base =
    pyRound (rate * netPerNight (periodDays i.lines) (currentLines i.lines) base) 2
  perNight : pyRound (cost.fixedCostEur + cost.variableCostEur) 2 =
    perDay (periodDays i.lines) (monthlyTotal (fixedLines (currentLines i.lines))) +
      perDay (periodDays i.lines) (monthlyTotal (variableLines (currentLines i.lines))) + i.extraPerNight
  perBooking : cost.perBookingCostEur = pyRound (grossTotal (oneTimeLines (currentLines i.lines)) /
    (oneTimeLines (currentLines i.lines)).length) 2
  percentageCosts : cost.percentageCosts = percentageCostsOf ((currentLines i.lines).filter isPercentage)
  commission : cost.commissionPct = owner.rate.getD 0
  commissionBase : cost.commissionBase = owner.revenueBase.getD .totalRevenue
  margin : cost.targetMargin = i.strategy.targetMargin

theorem PricingInput.Reaches.sums {i : PricingInput} (h : i.Admissible) {cost : CostAggregate} (hr : i.Reaches cost) :
    ∃ owner, i.ownerDefinition = some owner ∧ i.Sums owner cost := by
  obtain ⟨r, haggregation, hmem⟩ := hr
  obtain ⟨periodStart, currentEnd, hcurrent, hdays, -⟩ := aggregateCost_current h.lines_ne
  obtain rfl := Option.some.inj (haggregation.symm.trans hcurrent)
  obtain ⟨owner, howner, rfl⟩ := enrichedAggregates_eq hmem
  have hextra := recomputedCost_perNight i.company i.bookings
    (costAggregateOf_allInCents haggregation i.now i.value i.profile i.strategy)
  obtain ⟨_, _, _, hkept⟩ := recomputedCost_kept i.company i.bookings
    (costAggregateOf i.now i.value i.profile i.strategy (aggregatePeriod currentEnd periodStart (currentLines i.lines)))
  refine ⟨owner, howner, fun rate base => ?_, ?_, ?_, ?_, rfl, rfl, ?_⟩
  · rw [hkept, hdays]
    rfl
  · rw [extraPerNight_eq haggregation, hdays]
    exact hextra
  · rw [hkept, ← perBooking_eq periodStart currentEnd]
    rfl
  · rw [hkept]
    rfl
  · rw [hkept]
    rfl

section
variable {i : PricingInput} (h : i.Admissible) {owner : CostDefinitionRow} {cost : CostAggregate} (hs : i.Sums owner cost)
include hs

theorem PricingInput.Sums.rates : sumOfRates (allPercentageCosts cost) =
    pyRound ((nettingsOf (currentLines i.lines) owner).map (·.1)).sum 4 := by
  rw [sumOfRates, allPercentageCosts, hs.percentageCosts, hs.commission, hs.commissionBase, nettingsOf, List.map_append,
    List.map_append, List.map_map]
  rfl

theorem PricingInput.Sums.netted : pyRound ((allPercentageCosts cost).map fun pc =>
    PriceEngine.nettedBy cost pc.rate (pc.revenueBase.getD .totalRevenue)).sum 2 =
      ((nettingsOf (currentLines i.lines) owner).map fun netting =>
        pyRound (netting.1 * netPerNight (periodDays i.lines) (currentLines i.lines) netting.2) 2).sum := by
  have hnettings : (allPercentageCosts cost).map (fun pc => (pc.rate, pc.revenueBase.getD .totalRevenue)) =
      nettingsOf (currentLines i.lines) owner := by
    rw [allPercentageCosts, hs.percentageCosts, hs.commission, hs.commissionBase, List.map_append, nettingsOf]
    rfl
  rw [← hnettings, List.map_map]
  simp only [hs.nettedBy]
  refine pyRound_sum_eq_self fun x hx => ?_
  obtain ⟨pc, -, rfl⟩ := List.mem_map.mp hx
  exact pyRound_pyRound _ 2

include h

theorem nettingCovered_iff_linesCover : NettingCovered cost i.night ↔ i.LinesCover owner := by
  have hpos := periodDays_pos h.lines_ne h.lines
  have hstays := netted_le_iff hpos 14 (nettingsOf (currentLines i.lines) owner) (currentLines i.lines)
    (i.extraPerNight + (1 - sumOfRates (allPercentageCosts cost) - i.strategy.targetMargin) / 200)
  have hchannel := fun commission : ℚ => netted_le_iff hpos 1 [(commission, owner.revenueBase.getD .totalRevenue)]
    (currentLines i.lines) (i.extraPerNight + (1 - sumOfRates (percentageCostsOf ((currentLines i.lines).filter
      isPercentage)) - commission - i.strategy.targetMargin) / 200)
  rw [← hs.netted, ← hs.perBooking, hs.rates] at hstays
  simp only [List.map_cons, List.map_nil, List.sum_singleton, ← hs.perBooking, Nat.cast_one, div_one] at hchannel
  refine ⟨fun hcovered => ⟨?_, fun platform hk => ?_⟩, fun hcover => ⟨?_, fun platform hk => ?_⟩⟩
  · have hle := hcovered.1
    rw [hs.rates, hs.margin, hs.perNight] at hle
    exact hstays.mp (by push_cast; linarith)
  · obtain ⟨commission, hcommission, hle⟩ := hcovered.2 platform hk
    rw [hs.percentageCosts, hs.margin, hs.perNight, hs.nettedBy, hs.commissionBase] at hle
    exact ⟨commission, hcommission, (hchannel commission).mp (by linarith)⟩
  · rw [hs.rates, hs.margin, hs.perNight]
    have hle := hstays.mpr hcover.stays
    push_cast at hle
    linarith
  · obtain ⟨commission, hcommission, hle⟩ := hcover.channels platform hk
    refine ⟨commission, hcommission, ?_⟩
    rw [hs.percentageCosts, hs.margin, hs.perNight, hs.nettedBy, hs.commissionBase]
    have hle := (hchannel commission).mpr hle
    linarith

/-- Half a cent a day for each total that is rounded is enough, whatever the bookings and the company costs. -/
theorem linesCover_of_chargeMore (howner : i.ownerDefinition = some owner) (hrates : RatesLeaveRoom cost i.night)
    (hcharge : i.LinesChargeMore owner) : i.LinesCover owner := by
  have hpos := periodDays_pos h.lines_ne h.lines
  have hdays : (0 : ℚ) ≤ periodDays i.lines := by exact_mod_cast hpos.le
  have hextra := extraPerNight_nonneg h
  have hlines : ∀ line ∈ currentLines i.lines, line.Admissible := fun line hline =>
    h.lines line (currentLines_subset line hline)
  have hdefinition : ∀ r ∈ owner.rate, 0 ≤ r ∧ r ≤ 1 := by
    obtain ⟨assignment, -, hget⟩ := Option.bind_eq_some_iff.mp howner
    exact h.owner owner (Dict.mem_values.mpr ⟨_, hget⟩)
  -- what a floor may fall short, and the extra costs, only help
  have hslack : ∀ room : ℚ, 0 ≤ room → 0 ≤ periodDays i.lines * (i.extraPerNight + room / 200) := fun room hroom =>
    mul_nonneg hdays (add_nonneg hextra (div_nonneg hroom (by norm_num)))
  constructor
  · have hroom := hrates.total
    rw [hs.rates, hs.margin] at hroom
    have hround := (abs_le.mp (abs_roundings_le hpos (currentLines i.lines) (by norm_num : 0 < 14)
      (nettingsOf_rates hlines hdefinition))).1
    have hcovered := hcharge.stays
    have hroom' := hslack (1 - pyRound ((nettingsOf (currentLines i.lines) owner).map (·.1)).sum 4 -
      i.strategy.targetMargin) (by linarith)
    dsimp only at hcovered ⊢
    linarith
  · intro platform hk
    obtain ⟨commission, hcommission, hcovered⟩ := hcharge.channels platform hk
    have hroom := hrates.channels platform hk commission hcommission
    rw [hs.percentageCosts, hs.margin] at hroom
    have hrate : ∀ netting ∈ [(commission, owner.revenueBase.getD .totalRevenue)], 0 ≤ netting.1 ∧ netting.1 ≤ 1 :=
      List.forall_mem_singleton.mpr (channelCommissionPct_mem hcommission).2
    have hround := (abs_le.mp (abs_roundings_le hpos (currentLines i.lines) Nat.one_pos hrate)).1
    rw [List.length_singleton, Nat.cast_one] at hround
    have hroom' := hslack (1 - sumOfRates (percentageCostsOf ((currentLines i.lines).filter isPercentage)) -
      commission - i.strategy.targetMargin) (by linarith)
    refine ⟨commission, hcommission, ?_⟩
    dsimp only
    linarith

end

/-! ## Any amounts -/

theorem nets_withAmount (base : RevenueBase) (line : EnrichedPaymentLine) (x : ℚ) :
    nets base { line with amountGross := x } = nets base line := by
  cases base <;> rfl

theorem lineExcess_withAmounts (days : ℤ) (stay : ℕ) (nettings : List Netting) (lines : List EnrichedPaymentLine)
    (amount : EnrichedPaymentLine → ℚ) : lineExcess days stay nettings (withAmounts amount lines) =
      (lines.map fun line => amount line *
        (nettingRate nettings line - chargedShare days stay (oneTimeLines lines).length line)).sum := by
  have honce : (oneTimeLines (withAmounts amount lines)).length = (oneTimeLines lines).length := by
    rw [oneTimeLines, chargedLines, withAmounts, List.filter_map, List.filter_map, List.length_map]
    rfl
  rw [lineExcess, honce, withAmounts, List.map_map]
  refine congrArg List.sum (List.map_congr_left fun line _ => ?_)
  simp only [Function.comp_apply, nettingRate, nets_withAmount]
  rfl

theorem lineExcess_nonpos_iff (days : ℤ) (stay : ℕ) (nettings : List Netting) (lines : List EnrichedPaymentLine) :
    (∀ amount : EnrichedPaymentLine → ℚ, (∀ line, 0 ≤ amount line) →
      lineExcess days stay nettings (withAmounts amount lines) ≤ 0) ↔
    ∀ line ∈ lines, nettingRate nettings line ≤ chargedShare days stay (oneTimeLines lines).length line := by
  refine ⟨fun hall line hline => ?_, fun hshare amount hamount => ?_⟩
  · by_contra hover
    have hone : ∀ l, (0 : ℚ) ≤ if l = line then 1 else 0 := fun l => ite_nonneg zero_le_one le_rfl
    have hexcess := hall (fun l => if l = line then 1 else 0) hone
    rw [lineExcess_withAmounts] at hexcess
    have hpos : 0 < nettingRate nettings line - chargedShare days stay (oneTimeLines lines).length line :=
      sub_pos.mpr (not_le.mp hover)
    refine absurd hexcess (not_le.mpr (hpos.trans_le ?_))
    refine List.single_le_sum (List.forall_mem_map.mpr fun l _ => ?_) _
      (List.mem_map.mpr ⟨line, hline, by rw [if_pos rfl, one_mul]⟩)
    split_ifs with hl
    · rw [one_mul, hl]
      exact hpos.le
    · rw [zero_mul]
  · rw [lineExcess_withAmounts]
    exact (List.sum_le_card_nsmul _ 0 (List.forall_mem_map.mpr fun line hline =>
      mul_nonpos_of_nonneg_of_nonpos (hamount line) (sub_nonpos.mpr (hshare line hline)))).trans_eq (nsmul_zero _)

/-- A cost that reaches Stage B is priced exactly if the lines are not netted beyond what they are charged, where
other costs, the half cent and the roundings may make up for it. For all amounts the lines may have, no line is
netted beyond what it is charged exactly if the rates that net it come to no more than its share. -/
theorem priced_iff_linesCover {i : PricingInput} (h : i.Admissible) :
    (∃ aggregation, aggregateCost i.lines = some aggregation) ∧
    (∀ cost, i.Reaches cost → RatesLeaveRoom cost i.night → ∃ owner, i.ownerDefinition = some owner ∧
      (i.Priced cost ↔ i.LinesCover owner) ∧ (i.LinesChargeMore owner → i.Priced cost)) ∧
    ∀ stay nettings, (∀ amount : EnrichedPaymentLine → ℚ, (∀ line, 0 ≤ amount line) →
      lineExcess (periodDays i.lines) stay nettings (withAmounts amount (currentLines i.lines)) ≤ 0) ↔
      ∀ line ∈ currentLines i.lines, nettingRate nettings line ≤
        chargedShare (periodDays i.lines) stay (oneTimeLines (currentLines i.lines)).length line := by
  refine ⟨aggregateCost_isSome h.lines_ne, fun cost hr hrates => ?_, fun stay nettings => lineExcess_nonpos_iff ..⟩
  obtain ⟨owner, howner, hs⟩ := hr.sums h
  have hiff := ((priced_iff_nettingCovered h).2 cost hr hrates).trans (nettingCovered_iff_linesCover h hs)
  exact ⟨owner, howner, hiff, fun hcharge => hiff.mpr (linesCover_of_chargeMore h hs howner hrates hcharge)⟩

def otaInvoiceLine : EnrichedPaymentLine :=
  { electricityLine with
    eventId := "e3"
    amountGross := 300
    concept := .otaFee
    scope := .booking
    trigger := .reservation }

/-- September with an OTA invoice that is charged in full and a fee of 15 % that is not; the owner's commission is taken
on what is left after OTA costs, and so is that of the one channel. -/
def nettedInput : PricingInput :=
  { septemberInput [electricityLine, otaInvoiceLine, otaFeeLine] with
    owner :=
      { ownerContracts := Dict.empty.put "a1" { costDefinitionId := "d1" }
        costDefinitions := Dict.empty.put "d1" { ownerDefinition with revenueBase := some .revenueMinusOta } }
    night :=
      { (septemberInput []).night with
        channels := Dict.empty.put .booking
          { marketArea := "Barcelona/Gracia"
            avgNightlyRateEur := 130
            occupancyRate := none
            sampleSize := some 5
            collectedAt := 0 } } }

def nettedCost : CostAggregate :=
  { septemberCost [electricityLine, otaInvoiceLine, otaFeeLine] with commissionBase := .revenueMinusOta }

theorem nettedInput_admissible : nettedInput.Admissible := by
  have hseptember := @septemberInput_admissible [electricityLine, otaInvoiceLine, otaFeeLine]
    (List.cons_ne_nil _ _) (by
      simp only [List.forall_mem_cons]
      exact ⟨electricityLine_admissible, ⟨by decide +kernel, by decide +kernel, by intro r h; cases h⟩,
        otaFeeLine_admissible, by intro line h; cases h⟩)
  refine { hseptember with owner := ?_, night := ⟨hseptember.night.blended, ?_⟩ }
  · intro row hrow r hr
    obtain rfl : row = { ownerDefinition with revenueBase := some .revenueMinusOta } := List.mem_singleton.mp hrow
    obtain rfl : r = 10 / 100 := Option.some.inj hr.symm
    norm_num
  · exact Dict.All.put (Dict.all_empty _) ⟨by norm_num, by (intro r h; cases h), by (intro n h; cases h; decide)⟩

/-- 20 EUR of OTA costs a night are netted at 25 %, from the 11 EUR a night that are charged. -/
theorem nettedInput_priced : nettedInput.Priced nettedCost ∧ nettingEur nettedCost = 5 := by
  have hreaches : nettedInput.Reaches nettedCost := ⟨_, rfl, by decide +kernel⟩
  have hrates : RatesLeaveRoom nettedCost nettedInput.night := by
    refine ⟨by decide +kernel, fun platform hk commission hcommission => ?_⟩
    obtain rfl : platform = .booking := List.mem_singleton.mp hk
    obtain rfl := Option.some.inj hcommission
    decide +kernel
  obtain ⟨owner, howner, hiff, -⟩ := (priced_iff_linesCover nettedInput_admissible).2.1 nettedCost hreaches hrates
  obtain rfl := Option.some.inj howner
  refine ⟨hiff.mpr ⟨by decide +kernel, fun platform hk => ?_⟩, by decide +kernel⟩
  obtain rfl : platform = .booking := List.mem_singleton.mp hk
  exact ⟨_, rfl, by decide +kernel⟩

end PriceEngine
