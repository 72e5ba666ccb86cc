import Mathlib.Algebra.Notation.Lemmas
import PriceEngine.CostBuckets

/-!
# The widest revenue base

Four of the sub-totals a revenue base nets are picked by the concept of a line,
and the one of all booking costs by the scope of its definition. The bases by
concept are ordered; the base by scope is as wide as the widest of them where
the OTA, cleaning and laundry lines are those of scope booking.
-/

namespace PriceEngine

/-! ## Lines by concept and by scope -/

def isNetted (line : EnrichedPaymentLine) : Bool :=
  (otaRelatedConcepts ++ cleaningConcepts ++ laundryConcepts).contains line.concept

def isBookingScoped (line : EnrichedPaymentLine) : Bool := line.scope == .booking

/-- The lines netted by concept that the base of all booking costs leaves out. -/
def uncoveredTotal (lines : List EnrichedPaymentLine) : ℚ :=
  grossTotal (lines.filter fun line => isNetted line && !isBookingScoped line)

def otherBookingTotal (lines : List EnrichedPaymentLine) : ℚ :=
  grossTotal (lines.filter fun line => !isNetted line && isBookingScoped line)

/-- The days of the period, as its first line gives them. -/
def periodDays (lines : List EnrichedPaymentLine) : ℤ :=
  match currentLines lines with
  | [] => 0
  | first :: _ => first.billingPeriodEnd - first.billingPeriodStart + 1

/-- What is left over when a total is rounded to cents a day: at most half a cent a day. -/
def centRemainder (days : ℤ) (total : ℚ) : ℚ := total - perDay days total * days

/-- What rounding the four sub-totals leaves over. -/
def nettingRemainder (days : ℤ) (lines : List EnrichedPaymentLine) : ℚ :=
  let remainderOf (keep : EnrichedPaymentLine → Bool) := centRemainder days (grossTotal (lines.filter keep))
  remainderOf (fun line => otaRelatedConcepts.contains line.concept) +
    remainderOf (fun line => cleaningConcepts.contains line.concept) +
    remainderOf (fun line => laundryConcepts.contains line.concept) - remainderOf isBookingScoped

theorem centRemainder_abs_le {days : ℤ} (hdays : 0 < days) (total : ℚ) : |centRemainder days total| ≤ days / 200 := by
  rw [centRemainder, abs_sub_comm]
  exact abs_perDay_mul_sub_le hdays total

theorem nettingRemainder_abs_le {days : ℤ} (hdays : 0 < days) (lines : List EnrichedPaymentLine) :
    |nettingRemainder days lines| ≤ days / 50 := by
  have hbound (keep : EnrichedPaymentLine → Bool) :=
    abs_le.mp (centRemainder_abs_le hdays (grossTotal (lines.filter keep)))
  obtain ⟨hota, hota'⟩ := hbound fun line => otaRelatedConcepts.contains line.concept
  obtain ⟨hcleaning, hcleaning'⟩ := hbound fun line => cleaningConcepts.contains line.concept
  obtain ⟨hlaundry, hlaundry'⟩ := hbound fun line => laundryConcepts.contains line.concept
  obtain ⟨hbooking, hbooking'⟩ := hbound isBookingScoped
  rw [nettingRemainder, abs_le]
  dsimp only
  constructor <;> linarith

def amountIf (keep : EnrichedPaymentLine → Bool) (line : EnrichedPaymentLine) : ℚ :=
  if keep line then line.amountGross else 0

theorem grossTotal_filter_cons (keep : EnrichedPaymentLine → Bool) (line : EnrichedPaymentLine)
    (lines : List EnrichedPaymentLine) :
    grossTotal ((line :: lines).filter keep) = amountIf keep line + grossTotal (lines.filter keep) := by
  unfold amountIf grossTotal
  cases hkeep : keep line with
  | true => rw [List.filter_cons_of_pos hkeep, List.map_cons, List.sum_cons, if_pos rfl]
  | false => rw [List.filter_cons_of_neg (by simp [hkeep]), if_neg Bool.false_ne_true, zero_add]

theorem amountIf_netted (line : EnrichedPaymentLine) :
    amountIf (fun line => otaRelatedConcepts.contains line.concept) line +
      amountIf (fun line => cleaningConcepts.contains line.concept) line +
      amountIf (fun line => laundryConcepts.contains line.concept) line - amountIf isBookingScoped line =
    amountIf (fun line => isNetted line && !isBookingScoped line) line -
      amountIf (fun line => !isNetted line && isBookingScoped line) line := by
  unfold amountIf isNetted
  -- a concept is in at most one of the three lists
  cases hconcept : line.concept <;> cases hscope : isBookingScoped line <;>
    simp [otaRelatedConcepts, cleaningConcepts, laundryConcepts, hconcept, hscope]

theorem netted_sub_booking (lines : List EnrichedPaymentLine) :
    grossTotal (lines.filter fun line => otaRelatedConcepts.contains line.concept) +
      grossTotal (lines.filter fun line => cleaningConcepts.contains line.concept) +
      grossTotal (lines.filter fun line => laundryConcepts.contains line.concept) -
      grossTotal (lines.filter isBookingScoped) = uncoveredTotal lines - otherBookingTotal lines := by
  unfold uncoveredTotal otherBookingTotal
  induction lines with
  | nil => simp [grossTotal]
  | cons line lines ih =>
    have hline := amountIf_netted line
    simp only [grossTotal_filter_cons]
    linarith

/-! ## The bases -/

def CostAggregationResult.netted (r : CostAggregationResult) (base : RevenueBase) : ℚ :=
  nettedRevenueBaseAmount base r.otaRelatedCostEur r.cleaningCostEur r.laundryCostEur r.bookingScopeCostEur

def CostAggregationResult.nettedAt (r : CostAggregationResult) (rate : ℚ) (base : RevenueBase) : ℚ :=
  pyRound (rate * r.netted base) 2

structure WidestBase (r : CostAggregationResult) : Prop where
  ota : r.netted .totalRevenue ≤ r.netted .revenueMinusOta
  cleaning : r.netted .revenueMinusOta ≤ r.netted .revenueMinusOtaMinusCleaning
  laundry : r.netted .revenueMinusOtaMinusCleaning ≤ r.netted .revenueMinusOtaMinusCleaningMinusLaundry
  widest : ∀ base, r.netted base ≤ r.netted .revenueMinusAllBookingCosts + 2 / 100
  contracts : ∀ rate, 0 ≤ rate → rate ≤ 1 → ∀ base,
    r.nettedAt rate base ≤ r.nettedAt rate .revenueMinusAllBookingCosts + 2 / 100

/-- The lines left out are made up for by the booking costs of other concepts, to two cents a day and what the
rounding leaves over. -/
def NettedWithin (lines : List EnrichedPaymentLine) : Prop :=
  uncoveredTotal (currentLines lines) ≤ otherBookingTotal (currentLines lines) + periodDays lines / 50 +
    nettingRemainder (periodDays lines) (currentLines lines)

theorem widestBase_iff {r : CostAggregationResult} (hota : 0 ≤ r.otaRelatedCostEur) (hcleaning : 0 ≤ r.cleaningCostEur)
    (hlaundry : 0 ≤ r.laundryCostEur) (hbooking : 0 ≤ r.bookingScopeCostEur) :
    WidestBase r ↔
      r.otaRelatedCostEur + r.cleaningCostEur + r.laundryCostEur ≤ r.bookingScopeCostEur + 2 / 100 := by
  refine ⟨fun h => h.widest .revenueMinusOtaMinusCleaningMinusLaundry, fun h => ?_⟩
  have hwidest : ∀ base, r.netted base ≤ r.netted .revenueMinusAllBookingCosts + 2 / 100 := by
    intro base
    cases base <;> simp only [CostAggregationResult.netted, nettedRevenueBaseAmount] <;> linarith
  refine ⟨hota, le_add_of_nonneg_right hcleaning, le_add_of_nonneg_right hlaundry, hwidest, ?_⟩
  intro rate hrate hone base
  have htwo := pyRound_add_even (rate * r.netted .revenueMinusAllBookingCosts) 2 1
  norm_num at htwo
  have hscaled := mul_le_mul_of_nonneg_left (hwidest base) hrate
  have hbound : rate * r.netted base ≤ rate * r.netted .revenueMinusAllBookingCosts + 1 / 50 := by
    rw [mul_add] at hscaled
    linarith
  calc r.nettedAt rate base
    _ ≤ pyRound (rate * r.netted .revenueMinusAllBookingCosts + 1 / 50) 2 := pyRound_mono hbound 2
    _ = r.nettedAt rate .revenueMinusAllBookingCosts + 1 / 50 := htwo
    _ = r.nettedAt rate .revenueMinusAllBookingCosts + 2 / 100 := by norm_num

theorem aggregateCost_current {lines : List EnrichedPaymentLine} (hne : lines ≠ []) :
    ∃ periodStart currentEnd, aggregateCost lines = some (aggregatePeriod currentEnd periodStart (currentLines lines)) ∧
      periodDays lines = currentEnd - periodStart + 1 ∧ ∃ first ∈ currentLines lines,
        first.billingPeriodStart = periodStart ∧ first.billingPeriodEnd = currentEnd := by
  obtain ⟨r, hr⟩ := aggregateCost_isSome hne
  rw [aggregateCost_eq] at hr ⊢
  unfold periodDays
  cases hl : currentLines lines with
  | nil => rw [hl] at hr; cases hr
  | cons first rest => exact ⟨_, _, rfl, rfl, first, List.mem_cons_self, rfl, rfl⟩

theorem currentLines_subset {lines : List EnrichedPaymentLine} : ∀ line ∈ currentLines lines, line ∈ lines := by
  intro line hline
  unfold currentLines at hline
  split at hline
  · cases hline
  · exact List.mem_of_mem_filter hline

def subtotalOf (keep : EnrichedPaymentLine → Bool) (lines : List EnrichedPaymentLine) : ℚ :=
  perDay (periodDays lines) (grossTotal ((currentLines lines).filter keep))

theorem aggregateCost_subtotals {lines : List EnrichedPaymentLine} (hne : lines ≠ []) :
    ∃ r, aggregateCost lines = some r ∧
      r.otaRelatedCostEur = subtotalOf (fun line => otaRelatedConcepts.contains line.concept) lines ∧
      r.cleaningCostEur = subtotalOf (fun line => cleaningConcepts.contains line.concept) lines ∧
      r.laundryCostEur = subtotalOf (fun line => laundryConcepts.contains line.concept) lines ∧
      r.bookingScopeCostEur = subtotalOf isBookingScoped lines := by
  obtain ⟨periodStart, currentEnd, hr, hdays, -⟩ := aggregateCost_current hne
  refine ⟨_, hr, ?_⟩
  unfold subtotalOf
  rw [hdays]
  exact ⟨rfl, rfl, rfl, rfl⟩

section
variable {lines : List EnrichedPaymentLine} (hne : lines ≠ []) (h : ∀ line ∈ lines, line.Admissible)
include hne h

theorem periodDays_pos : 0 < periodDays lines := by
  obtain ⟨periodStart, currentEnd, -, hdays, first, hfirst, rfl, rfl⟩ := aggregateCost_current hne
  have hperiod := (h first (currentLines_subset first hfirst)).period
  rw [hdays]
  exact Int.lt_add_one_of_le (Int.sub_nonneg_of_le hperiod)

omit hne in
theorem subtotalOf_nonneg (keep : EnrichedPaymentLine → Bool) : 0 ≤ subtotalOf keep lines :=
  perDay_nonneg (sumWhere_nonneg fun line hline => (h line (currentLines_subset line hline)).amount) _

omit hne h in
theorem subtotalOf_mul (keep : EnrichedPaymentLine → Bool) : subtotalOf keep lines * periodDays lines =
    grossTotal ((currentLines lines).filter keep) -
      centRemainder (periodDays lines) (grossTotal ((currentLines lines).filter keep)) := by
  rw [subtotalOf, centRemainder]
  ring

theorem widestBase_iff_within : ∃ r, aggregateCost lines = some r ∧ (WidestBase r ↔ NettedWithin lines) := by
  obtain ⟨r, hr, hota, hcleaning, hlaundry, hbooking⟩ := aggregateCost_subtotals hne
  have hpos : (0 : ℚ) < periodDays lines := by exact_mod_cast periodDays_pos hne h
  have hnonneg (keep : EnrichedPaymentLine → Bool) := subtotalOf_nonneg h keep
  have hsum := netted_sub_booking (currentLines lines)
  refine ⟨r, hr, (widestBase_iff (hota ▸ hnonneg _) (hcleaning ▸ hnonneg _) (hlaundry ▸ hnonneg _)
    (hbooking ▸ hnonneg _)).trans ?_⟩
  -- in the amounts of the whole period
  rw [← mul_le_mul_iff_of_pos_right hpos, hota, hcleaning, hlaundry, hbooking, add_mul, add_mul, add_mul,
    subtotalOf_mul, subtotalOf_mul, subtotalOf_mul, subtotalOf_mul, NettedWithin, nettingRemainder]
  dsimp only
  constructor <;> intro hle <;> linarith

end

/-! ## The same lines with any amounts -/

def withAmounts (amount : EnrichedPaymentLine → ℚ) (lines : List EnrichedPaymentLine) : List EnrichedPaymentLine :=
  lines.map fun line => { line with amountGross := amount line }

def BookingScoped (lines : List EnrichedPaymentLine) : Prop :=
  ∀ line ∈ currentLines lines, isNetted line → isBookingScoped line

section
variable {lines : List EnrichedPaymentLine} (amount : EnrichedPaymentLine → ℚ)

theorem currentLines_withAmounts : currentLines (withAmounts amount lines) = withAmounts amount (currentLines lines) := by
  have hends : (withAmounts amount lines).map (·.billingPeriodEnd) = lines.map (·.billingPeriodEnd) := by
    rw [withAmounts, List.map_map]
    rfl
  unfold currentLines
  rw [hends]
  split
  · rfl
  · rw [withAmounts, List.filter_map]
    rfl

theorem periodDays_withAmounts : periodDays (withAmounts amount lines) = periodDays lines := by
  unfold periodDays
  rw [currentLines_withAmounts]
  cases currentLines lines <;> rfl

theorem uncoveredTotal_withAmounts (l : List EnrichedPaymentLine) : uncoveredTotal (withAmounts amount l) =
    ((l.filter fun line => isNetted line && !isBookingScoped line).map amount).sum := by
  rw [uncoveredTotal, grossTotal, withAmounts, List.filter_map, List.map_map]
  rfl

theorem otherBookingTotal_withAmounts (l : List EnrichedPaymentLine) : otherBookingTotal (withAmounts amount l) =
    ((l.filter fun line => !isNetted line && isBookingScoped line).map amount).sum := by
  rw [otherBookingTotal, grossTotal, withAmounts, List.filter_map, List.map_map]
  rfl

theorem withAmounts_admissible (h : ∀ line ∈ lines, line.Admissible) (hamount : ∀ line, 0 ≤ amount line) :
    ∀ line ∈ withAmounts amount lines, line.Admissible := by
  refine List.forall_mem_map.mpr fun line hline => ?_
  obtain ⟨-, hperiod, hrate⟩ := h line hline
  exact ⟨hamount line, hperiod, hrate⟩

end

section
variable {lines : List EnrichedPaymentLine} (hne : lines ≠ []) (h : ∀ line ∈ lines, line.Admissible)
include hne h

theorem nettedWithin_of_bookingScoped (hscoped : BookingScoped lines) : NettedWithin lines := by
  have hnone : ((currentLines lines).filter fun line => isNetted line && !isBookingScoped line) = [] := by
    refine List.filter_eq_nil_iff.mpr fun line hline hkeep => ?_
    rw [Bool.and_eq_true, Bool.not_eq_true'] at hkeep
    rw [hscoped line hline hkeep.1] at hkeep
    exact Bool.noConfusion hkeep.2
  have hother : 0 ≤ otherBookingTotal (currentLines lines) :=
    sumWhere_nonneg fun line hline => (h line (currentLines_subset line hline)).amount
  have hremainder := (abs_le.mp (nettingRemainder_abs_le (periodDays_pos hne h) (currentLines lines))).1
  rw [NettedWithin, uncoveredTotal, hnone, grossTotal, List.map_nil, List.sum_nil]
  linarith

theorem not_nettedWithin {line : EnrichedPaymentLine} (hline : line ∈ currentLines lines) (hnetted : isNetted line)
    (hscope : isBookingScoped line = false) :
    ¬ NettedWithin (withAmounts (fun l => if l = line then (periodDays lines : ℚ) else 0) lines) := by
  let amount : EnrichedPaymentLine → ℚ := fun l => if l = line then (periodDays lines : ℚ) else 0
  have hpos : (0 : ℚ) < periodDays lines := by exact_mod_cast periodDays_pos hne h
  have hamount : ∀ l, 0 ≤ amount l := fun l => ite_nonneg hpos.le le_rfl
  have huncovered : (periodDays lines : ℚ) ≤ uncoveredTotal (withAmounts amount (currentLines lines)) := by
    rw [uncoveredTotal_withAmounts]
    have hkept : line ∈ (currentLines lines).filter fun line => isNetted line && !isBookingScoped line :=
      List.mem_filter.mpr ⟨hline, by rw [hnetted, hscope]; rfl⟩
    have hsum := List.single_le_sum (List.forall_mem_map.mpr fun l _ => hamount l) _ (List.mem_map_of_mem hkept)
    rwa [show amount line = periodDays lines from if_pos rfl] at hsum
  have hother : otherBookingTotal (withAmounts amount (currentLines lines)) = 0 := by
    rw [otherBookingTotal_withAmounts]
    refine List.sum_eq_zero (List.forall_mem_map.mpr fun l hl => if_neg ?_)
    rintro rfl
    have hkeep := (List.mem_filter.mp hl).2
    rw [hnetted] at hkeep
    exact Bool.noConfusion hkeep
  have hremainder := (abs_le.mp (nettingRemainder_abs_le (periodDays_pos hne h)
    (withAmounts amount (currentLines lines)))).2
  rw [NettedWithin, currentLines_withAmounts, periodDays_withAmounts]
  intro hle
  change uncoveredTotal (withAmounts amount _) ≤ otherBookingTotal (withAmounts amount _) + _ +
    nettingRemainder _ (withAmounts amount _) at hle
  rw [hother] at hle
  linarith

/-- The base of all booking costs is the widest exactly if other booking costs make up for the lines it leaves
out; for all amounts the lines may have, exactly if it leaves none out. -/
theorem widest_base_iff : (∃ r, aggregateCost lines = some r ∧ (WidestBase r ↔ NettedWithin lines)) ∧
    ((∀ amount : EnrichedPaymentLine → ℚ, (∀ line, 0 ≤ amount line) →
      ∃ r, aggregateCost (withAmounts amount lines) = some r ∧ WidestBase r) ↔ BookingScoped lines) := by
  have hmapped (amount : EnrichedPaymentLine → ℚ) : withAmounts amount lines ≠ [] := by simpa [withAmounts] using hne
  refine ⟨widestBase_iff_within hne h, fun hall line hline hnetted => ?_, fun hscoped amount hamount => ?_⟩
  · by_contra hscope
    have hpos : (0 : ℚ) < periodDays lines := by exact_mod_cast periodDays_pos hne h
    let amount : EnrichedPaymentLine → ℚ := fun l => if l = line then (periodDays lines : ℚ) else 0
    have hamount : ∀ l, 0 ≤ amount l := fun l => ite_nonneg hpos.le le_rfl
    obtain ⟨r, hr, hwidest⟩ := hall amount hamount
    obtain ⟨r', hr', hiff⟩ := widestBase_iff_within (hmapped amount) (withAmounts_admissible amount h hamount)
    rw [hr] at hr'
    obtain rfl := Option.some.inj hr'
    exact not_nettedWithin hne h hline hnetted (Bool.not_eq_true _ ▸ hscope) (hiff.mp hwidest)
  · have hadmissible := withAmounts_admissible amount h hamount
    obtain ⟨r, hr, hiff⟩ := widestBase_iff_within (hmapped amount) hadmissible
    refine ⟨r, hr, hiff.mpr (nettedWithin_of_bookingScoped (hmapped amount) hadmissible ?_)⟩
    rw [BookingScoped, currentLines_withAmounts]
    exact List.forall_mem_map.mpr hscoped

end

/-! ## The channel manager -/

/-- Seeded as a cost of the property, and netted as a cost of the OTAs. -/
def channelManagerLine : EnrichedPaymentLine :=
  { electricityLine with
    eventId := "e6"
    amountGross := 300
    concept := .channelManager
    behavior := .fixed
    allocationMethod := .calendarDay }

def turnoverLine : EnrichedPaymentLine :=
  { channelManagerLine with
    eventId := "e7"
    concept := .cleaning
    scope := .booking
    behavior := .variable'
    trigger := .reservation
    recurrence := .perBooking
    allocationMethod := .occupiedNight }

theorem channelManager_admissible : ∀ line ∈ [channelManagerLine, turnoverLine], line.Admissible := by
  have hline : channelManagerLine.Admissible :=
    ⟨by decide +kernel, by decide +kernel, fun r hr => by cases hr⟩
  simp only [List.forall_mem_cons]
  exact ⟨hline, ⟨hline.amount, hline.period, hline.rate⟩, fun _ hl => absurd hl List.not_mem_nil⟩

theorem turnover_widest : ∃ r, aggregateCost [turnoverLine] = some r ∧ WidestBase r := by
  have hadmissible : ∀ line ∈ [turnoverLine], line.Admissible := fun line hline =>
    channelManager_admissible line (List.mem_cons_of_mem _ hline)
  have hscoped : BookingScoped [turnoverLine] := fun line hline _ => by
    rw [List.mem_singleton.mp (currentLines_subset line hline)]
    rfl
  exact (widest_base_iff (List.cons_ne_nil _ _) hadmissible).2.mpr hscoped (fun _ => 300) fun _ => by norm_num

/-- The channel manager costs 10 a night, none of it in the base of all booking costs. -/
theorem channel_manager_wider : ¬ ∀ lines : List EnrichedPaymentLine, lines ≠ [] →
    (∀ line ∈ lines, line.Admissible) → ∃ r, aggregateCost lines = some r ∧ WidestBase r := by
  intro hall
  obtain ⟨r, hr, hwidest⟩ := hall [channelManagerLine] (List.cons_ne_nil _ _) fun line hline =>
    channelManager_admissible line (List.mem_cons.mpr (.inl (List.mem_singleton.mp hline)))
  have hten : (aggregateCost [channelManagerLine]).map (·.otaRelatedCostEur) = some 10 := by decide +kernel
  have hnone : (aggregateCost [channelManagerLine]).map (·.bookingScopeCostEur) = some 0 := by decide +kernel
  rw [hr] at hten hnone
  have hota : r.otaRelatedCostEur ≤ r.bookingScopeCostEur + 2 / 100 := hwidest.widest .revenueMinusOta
  have hten : r.otaRelatedCostEur = 10 := Option.some.inj hten
  have hnone : r.bookingScopeCostEur = 0 := Option.some.inj hnone
  rw [hten, hnone] at hota
  norm_num at hota

end PriceEngine
