import PriceEngine.Grouping
import PriceEngine.Recomputation

/-!
# What a deferred cost adds to a reservation

A correction is resolved into an amount a night, and a reservation counts that
amount once for each of its nights. A cost divided by the occupied nights comes
back in equal parts; a cost divided by the bookings is meant once for a booking
and comes back `n` times over from a stay of `n` nights.
-/

namespace PriceEngine

/-! ## The cost of a reservation -/

def CostAggregate.withPending (value : CostAggregate) (corrections : List PendingAllocationCorrection) :
    CostAggregate :=
  { value with pendingAllocationCorrections := corrections }

def reservationCost (stayLength : ℕ+) (cost : CostAggregate) : ℚ :=
  reservationCostEur stayLength (fixedAndAllocatedCostsPerNightEur cost) cost.perBookingCostEur

def totalNights (stays : List ℕ+) : ℕ := (stays.map fun n : ℕ+ => (n : ℕ)).sum

/-- What one correction adds to the cost of a stay, the others staying as they are. -/
def addedByCorrection (value : CostAggregate) (before : List PendingAllocationCorrection)
    (correction : PendingAllocationCorrection) (after : List PendingAllocationCorrection) (stayLength : ℕ+) : ℚ :=
  reservationCost stayLength (applyCorrections (value.withPending (before ++ correction :: after))) -
    reservationCost stayLength (applyCorrections (value.withPending (before ++ after)))

structure CostAggregate.AllInCents (cost : CostAggregate) : Prop extends cost.InCents where
  perBooking : pyRound cost.perBookingCostEur 2 = cost.perBookingCostEur

theorem costAggregateOf_allInCents {lines : List EnrichedPaymentLine} {r : CostAggregationResult}
    (h : aggregateCost lines = some r) (now : Instant) (value : EnrichedPaymentLine) (profile : PropertyPricingProfile)
    (strategy : PricingStrategy) : (costAggregateOf now value profile strategy r).AllInCents := by
  obtain ⟨first, -, rfl⟩ := aggregateCost_eq_some h
  refine ⟨⟨pyRound_perDay _ _, pyRound_perDay _ _⟩, ?_⟩
  simp only [costAggregateOf, aggregatePeriod]
  split
  · exact pyRound_zero 2
  · exact pyRound_pyRound _ 2

theorem correctionPerNight_inCents (value : CostAggregate) (correction : PendingAllocationCorrection) :
    pyRound (correctionPerNight value correction) 2 = correctionPerNight value correction :=
  pyRound_perDay _ _

theorem correctionTotal_inCents (value : CostAggregate) (keep : Behavior → Bool) :
    pyRound (correctionTotal value keep) 2 = correctionTotal value keep := by
  refine pyRound_sum_eq_self fun x hx => ?_
  obtain ⟨c, -, rfl⟩ := List.mem_map.mp hx
  exact correctionPerNight_inCents value c

section
variable {value : CostAggregate} (h : value.AllInCents)
include h

theorem corrected_perNight : fixedAndAllocatedCostsPerNightEur (applyCorrections value) =
    value.fixedCostEur + value.variableCostEur +
      (value.pendingAllocationCorrections.map (correctionPerNight value)).sum := by
  obtain ⟨hfixed, hvariable⟩ := corrections_once h.toInCents
  rw [pyRound_add_eq_self h.fixed (correctionTotal_inCents ..)] at hfixed
  rw [pyRound_add_eq_self h.variable' (correctionTotal_inCents ..)] at hvariable
  have hboth := corrections_inCents h.toInCents
  rw [fixedAndAllocatedCostsPerNightEur, pyRound_add_eq_self hboth.fixed hboth.variable', hfixed, hvariable,
    ← sum_filter_add_sum_filter_not (correctionPerNight value) (fun c => c.behavior == .fixed)]
  rw [correctionTotal, correctionTotal]
  ring

omit h in
theorem applyCorrections_perBooking (value : CostAggregate) :
    (applyCorrections value).perBookingCostEur = value.perBookingCostEur := by
  obtain ⟨_, _, _, hkept⟩ := applyCorrections_kept value
  rw [hkept]

theorem reservationCost_corrected (stayLength : ℕ+) : reservationCost stayLength (applyCorrections value) =
    (stayLength : ℕ) * (value.fixedCostEur + value.variableCostEur +
      (value.pendingAllocationCorrections.map (correctionPerNight value)).sum) + value.perBookingCostEur := by
  have hnight : pyRound (fixedAndAllocatedCostsPerNightEur (applyCorrections value)) 2 =
      fixedAndAllocatedCostsPerNightEur (applyCorrections value) := pyRound_pyRound _ 2
  rw [reservationCost, reservationCostEur, applyCorrections_perBooking,
    pyRound_add_eq_self (pyRound_natCast_mul_eq_self _ hnight) h.perBooking, corrected_perNight h]

theorem CostAggregate.AllInCents.withPending (corrections : List PendingAllocationCorrection) :
    (value.withPending corrections).AllInCents :=
  ⟨⟨h.fixed, h.variable'⟩, h.perBooking⟩

theorem addedByCorrection_eq (before : List PendingAllocationCorrection) (correction : PendingAllocationCorrection)
    (after : List PendingAllocationCorrection) (stayLength : ℕ+) :
    addedByCorrection value before correction after stayLength =
      (stayLength : ℕ) * correctionPerNight value correction := by
  rw [addedByCorrection, reservationCost_corrected (h.withPending _), reservationCost_corrected (h.withPending _)]
  have hperNight : ∀ cs, ((value.withPending cs).pendingAllocationCorrections.map
      (correctionPerNight (value.withPending cs))).sum = (cs.map (correctionPerNight value)).sum := fun _ => rfl
  rw [hperNight, hperNight, List.map_append, List.map_append, List.map_cons, List.sum_append, List.sum_append,
    List.sum_cons]
  show (stayLength : ℕ) * (value.fixedCostEur + value.variableCostEur + _) + value.perBookingCostEur -
    ((stayLength : ℕ) * (value.fixedCostEur + value.variableCostEur + _) + value.perBookingCostEur) = _
  ring

end

/-! ## What a unit owes -/

/-- A stay recovers of each deferred cost what is due: a part for each of its nights of a cost allocated by
occupied night, one part of a cost allocated by booking. -/
def RecoversItsUnits (value : CostAggregate) (stayLength : ℕ+) : Prop :=
  ∀ before correction after, value.pendingAllocationCorrections = before ++ correction :: after →
    (correction.allocationMethod = .occupiedNight →
      |addedByCorrection value before correction after stayLength -
        (stayLength : ℕ) * (correction.monthlyEquivalentEur / value.occupiedNights)| ≤ (stayLength : ℕ) / 200) ∧
    (correction.allocationMethod = .booking →
      |addedByCorrection value before correction after stayLength -
        correction.monthlyEquivalentEur / value.bookingCount| ≤ (stayLength : ℕ) / 200)

/-- The stay has one night, or the part of a booking is no more than half a cent; two nights also do with one
of a cent to a cent and a half. -/
def BookingPartOnce (value : CostAggregate) (stayLength : ℕ+) : Prop :=
  ∀ correction ∈ value.pendingAllocationCorrections, correction.allocationMethod = .booking →
    let part := |correction.monthlyEquivalentEur / value.bookingCount|
    stayLength = 1 ∨ part ≤ 1 / 200 ∨ ((stayLength : ℕ) = 2 ∧ 1 / 100 ≤ part ∧ part < 3 / 200)

section
variable {value : CostAggregate} (hnights : 1 ≤ value.occupiedNights) (hbookings : 1 ≤ value.bookingCount)

include hnights in
theorem correctionPerNight_occupied {correction : PendingAllocationCorrection}
    (hmethod : correction.allocationMethod = .occupiedNight) : correctionPerNight value correction =
      pyRound (correction.monthlyEquivalentEur / value.occupiedNights) 2 := by
  have hpos : ¬ (value.occupiedNights : ℤ) ≤ 0 := by omega
  have hden : allocationDenominator value .occupiedNight = value.occupiedNights := if_neg hpos
  rw [correctionPerNight, hmethod, hden, perDay, if_pos (by omega), Int.cast_natCast]

include hbookings in
theorem correctionPerNight_booking {correction : PendingAllocationCorrection}
    (hmethod : correction.allocationMethod = .booking) : correctionPerNight value correction =
      pyRound (correction.monthlyEquivalentEur / value.bookingCount) 2 := by
  have hpos : ¬ (value.bookingCount : ℤ) ≤ 0 := by omega
  have hden : allocationDenominator value .booking = value.bookingCount := if_neg hpos
  rw [correctionPerNight, hmethod, hden, perDay, if_pos (by omega), Int.cast_natCast]

include hnights hbookings in
theorem recoversItsUnits_iff (h : value.AllInCents) (stayLength : ℕ+) :
    RecoversItsUnits value stayLength ↔ BookingPartOnce value stayLength := by
  have hone : (stayLength : ℕ) = 1 ↔ stayLength = 1 := PNat.coe_eq_one_iff
  constructor
  · intro hrecovers correction hmem hmethod
    obtain ⟨before, after, hsplit⟩ := List.append_of_mem hmem
    have hbound := (hrecovers before correction after hsplit).2 hmethod
    rw [addedByCorrection_eq h, correctionPerNight_booking hbookings hmethod,
      abs_mul_pyRound_sub_le_iff _ stayLength.pos, hone] at hbound
    exact hbound
  · intro honce before correction after hsplit
    rw [addedByCorrection_eq h]
    refine ⟨fun hmethod => ?_, fun hmethod => ?_⟩
    · let part := correction.monthlyEquivalentEur / value.occupiedNights
      have hcent : |pyRound part 2 - part| ≤ 1 / 200 := halfCent_pyRound part
      have hnight := mul_le_mul_of_nonneg_left hcent (Nat.cast_nonneg (α := ℚ) (stayLength : ℕ))
      rw [correctionPerNight_occupied hnights hmethod, ← mul_sub, abs_mul, Nat.abs_cast]
      linarith
    · rw [correctionPerNight_booking hbookings hmethod, abs_mul_pyRound_sub_le_iff _ stayLength.pos, hone]
      exact honce correction (hsplit ▸ List.mem_append_right _ List.mem_cons_self) hmethod

theorem sum_stays_le (f : ℕ+ → ℚ) (perNight perBooking : ℚ) {stays : List ℕ+}
    (h : ∀ n ∈ stays, f n ≤ (n : ℕ) * perNight + perBooking + (n : ℕ) / 200) :
    (stays.map f).sum ≤ totalNights stays * perNight + stays.length * perBooking + totalNights stays / 200 := by
  unfold totalNights
  induction stays with
  | nil => simp
  | cons n stays ih =>
    have hn := h n List.mem_cons_self
    have hstays := ih fun m hm => h m (List.mem_cons_of_mem _ hm)
    simp only [List.map_cons, List.sum_cons, List.length_cons, Nat.cast_add, Nat.cast_one]
    linarith

include hnights hbookings in
theorem stays_recover_once (h : value.AllInCents) {stays : List ℕ+} (hcount : stays.length = value.bookingCount)
    (hsum : totalNights stays = value.occupiedNights) (honce : ∀ n ∈ stays, BookingPartOnce value n)
    {before after : List PendingAllocationCorrection} {correction : PendingAllocationCorrection}
    (hsplit : value.pendingAllocationCorrections = before ++ correction :: after)
    (hmethod : correction.allocationMethod ∈ [AllocationMethod.occupiedNight, .booking]) :
    (stays.map (addedByCorrection value before correction after)).sum ≤
      correction.monthlyEquivalentEur + value.occupiedNights / 200 := by
  have hN : (value.occupiedNights : ℚ) ≠ 0 := by
    have hpos : (0 : ℚ) < value.occupiedNights := by exact_mod_cast hnights
    exact hpos.ne'
  have hB : (value.bookingCount : ℚ) ≠ 0 := by
    have hpos : (0 : ℚ) < value.bookingCount := by exact_mod_cast hbookings
    exact hpos.ne'
  have hrecovers := fun n hn => (recoversItsUnits_iff hnights hbookings h n).mpr (honce n hn) before correction after
    hsplit
  rcases List.mem_pair.mp hmethod with hoccupied | hbooking
  · have hall := sum_stays_le (addedByCorrection value before correction after)
      (correction.monthlyEquivalentEur / value.occupiedNights) 0 fun n (hn : n ∈ stays) => by
        have hbound := (abs_le.mp ((hrecovers n hn).1 hoccupied)).2
        linarith
    rw [hsum, mul_div_cancel₀ _ hN] at hall
    linarith
  · have hall := sum_stays_le (addedByCorrection value before correction after) 0
      (correction.monthlyEquivalentEur / value.bookingCount) fun n (hn : n ∈ stays) => by
        have hbound := (abs_le.mp ((hrecovers n hn).2 hbooking)).2
        linarith
    rw [hcount, mul_div_cancel₀ _ hB, hsum] at hall
    linarith

include hnights hbookings in
/-- A stay recovers what it owes exactly if it counts the part of a booking once; stays that do and that fill the
occupied nights recover no cost twice. -/
theorem deferred_recovered_iff (h : value.AllInCents) :
    (∀ stayLength, RecoversItsUnits value stayLength ↔ BookingPartOnce value stayLength) ∧
    ∀ stays : List ℕ+, stays.length = value.bookingCount → totalNights stays = value.occupiedNights →
      (∀ n ∈ stays, BookingPartOnce value n) →
        ∀ before correction after, value.pendingAllocationCorrections = before ++ correction :: after →
          correction.allocationMethod ∈ [AllocationMethod.occupiedNight, .booking] →
            (stays.map (addedByCorrection value before correction after)).sum ≤
              correction.monthlyEquivalentEur + value.occupiedNights / 200 :=
  ⟨recoversItsUnits_iff hnights hbookings h, fun _ hcount hsum honce _ _ _ hsplit hmethod =>
    stays_recover_once hnights hbookings h hcount hsum honce hsplit hmethod⟩

end

/-! ## An insurance by booking -/

def insuredCost : CostAggregate :=
  { flatCost "BCN-001" 0 with
    occupiedNights := 30
    bookingCount := 10
    pendingAllocationCorrections := [⟨.insurance, .fixed, .booking, 300⟩] }

theorem insuredCost_inCents : insuredCost.AllInCents :=
  ⟨⟨by decide +kernel, by decide +kernel⟩, by decide +kernel⟩

theorem insured_one_night : RecoversItsUnits insuredCost 1 ∧ ¬ RecoversItsUnits insuredCost 3 := by
  have hnights : 1 ≤ insuredCost.occupiedNights := by decide
  have hbookings : 1 ≤ insuredCost.bookingCount := by decide
  have hiff := (deferred_recovered_iff hnights hbookings insuredCost_inCents).1
  refine ⟨(hiff 1).mpr fun _ _ _ => .inl rfl, fun h => ?_⟩
  have hpart := (hiff 3).mp h ⟨.insurance, .fixed, .booking, 300⟩ List.mem_cons_self rfl
  revert hpart
  decide +kernel

/-- Three nights are charged the part of a booking three times. -/
theorem booking_part_each_night : ¬ ∀ (value : CostAggregate) (stayLength : ℕ+), value.AllInCents →
    1 ≤ value.occupiedNights → 1 ≤ value.bookingCount → RecoversItsUnits value stayLength := by
  intro hall
  have hrecovers := hall insuredCost 3 insuredCost_inCents (by decide) (by decide) [] ⟨.insurance, .fixed, .booking, 300⟩
    [] rfl
  have hadded : addedByCorrection insuredCost [] ⟨.insurance, .fixed, .booking, 300⟩ [] 3 = 90 := by decide +kernel
  have hbound := hrecovers.2 rfl
  rw [hadded] at hbound
  revert hbound
  decide +kernel

end PriceEngine
