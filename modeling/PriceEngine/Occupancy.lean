import Mathlib.Data.Int.ConditionallyCompleteOrder
import Mathlib.Data.Int.Interval
import PriceEngine.Stages

/-!
# Occupancy

`occupied` is the set of nights of a period that some confirmed stay covers, and
`occupiedNights` its size (`occupiedNights_eq`). A confirmed stay is counted as a
booking of the period exactly if it covers one of its nights
(`firstNight_occupied`, `overlapping_of_covers`); so the three figures are
positive together.
-/

namespace PriceEngine

/-! ## Nights -/

theorem mem_stayNights {booking : BookingRow} {night : Date} :
    night ∈ stayNights booking ↔ booking.checkIn ≤ night ∧ night < booking.checkOut := by
  have hrange : night ∈ stayNights booking ↔
      ∃ offset : ℕ, offset < (booking.checkOut - booking.checkIn).toNat ∧ booking.checkIn + (offset : ℤ) = night := by
    simp only [stayNights, List.mem_map, List.bind_eq_flatMap, List.pure_def, List.mem_flatMap, List.mem_range,
      List.mem_singleton]
    constructor
    · rintro ⟨_, ⟨offset, hlt, rfl⟩, rfl⟩
      exact ⟨offset, hlt, rfl⟩
    · rintro ⟨offset, hlt, rfl⟩
      exact ⟨_, ⟨offset, hlt, rfl⟩, rfl⟩
  rw [hrange]
  constructor
  · rintro ⟨offset, hlt, rfl⟩
    have hlt' : (offset : ℤ) < booking.checkOut - booking.checkIn := Int.lt_toNat.mp hlt
    exact ⟨le_add_of_nonneg_right (Int.natCast_nonneg _), by linarith⟩
  · rintro ⟨hin, hout⟩
    obtain ⟨offset, hoffset⟩ := Int.eq_ofNat_of_zero_le (sub_nonneg.mpr hin)
    refine ⟨offset, Int.lt_toNat.mpr ?_, ?_⟩
    · rw [← hoffset]
      linarith
    · rw [← hoffset]
      ring

def Covered (bookings : List BookingRow) (night : Date) : Prop :=
  ∃ booking ∈ bookings, booking.status = .confirmed ∧ booking.checkIn ≤ night ∧ night < booking.checkOut

instance (bookings : List BookingRow) (night : Date) : Decidable (Covered bookings night) :=
  inferInstanceAs (Decidable (∃ booking ∈ bookings, _))

noncomputable def occupied (bookings : List BookingRow) (periodStart periodEnd : Date) : Finset Date :=
  (Finset.Icc periodStart periodEnd).filter (Covered bookings)

theorem occupiedNights_eq (bookings : List BookingRow) (periodStart periodEnd : Date) :
    occupiedNights bookings periodStart periodEnd = (occupied bookings periodStart periodEnd).card := by
  unfold occupiedNights
  dsimp only
  rw [← List.toFinset_card_of_nodup ((List.nodup_dedup _).filter _)]
  congr 1
  ext night
  simp only [occupied, Covered, List.mem_toFinset, List.mem_filter, List.mem_dedup, List.mem_flatMap,
    mem_stayNights, beq_iff_eq, decide_eq_true_eq, Finset.mem_filter, Finset.mem_Icc]
  tauto

theorem occupiedNights_congr {bookings bookings' : List BookingRow} {periodStart periodEnd : Date}
    (h : ∀ night, periodStart ≤ night → night ≤ periodEnd → (Covered bookings night ↔ Covered bookings' night)) :
    occupiedNights bookings periodStart periodEnd = occupiedNights bookings' periodStart periodEnd := by
  rw [occupiedNights_eq, occupiedNights_eq]
  refine congrArg _ (Finset.filter_congr fun night hnight => ?_)
  obtain ⟨hstart, hend⟩ := Finset.mem_Icc.mp hnight
  exact h night hstart hend

theorem occupiedNights_mono {bookings bookings' : List BookingRow} {periodStart periodEnd : Date}
    (h : ∀ night, Covered bookings night → Covered bookings' night) :
    occupiedNights bookings periodStart periodEnd ≤ occupiedNights bookings' periodStart periodEnd := by
  rw [occupiedNights_eq, occupiedNights_eq]
  exact Finset.card_le_card (Finset.monotone_filter_right _ fun night _ => h night)

theorem occupiedNights_le (bookings : List BookingRow) {periodStart periodEnd : Date} (h : periodStart ≤ periodEnd) :
    (occupiedNights bookings periodStart periodEnd : ℤ) ≤ periodEnd - periodStart + 1 := by
  have hle := Finset.card_filter_le (Finset.Icc periodStart periodEnd) (Covered bookings)
  rw [Int.card_Icc] at hle
  rw [occupiedNights_eq, occupied]
  have hnonneg : 0 ≤ periodEnd + 1 - periodStart := by linarith
  have hcast : ((periodEnd + 1 - periodStart).toNat : ℤ) = periodEnd + 1 - periodStart :=
    Int.toNat_of_nonneg hnonneg
  have hle' : (((Finset.Icc periodStart periodEnd).filter (Covered bookings)).card : ℤ) ≤
      periodEnd + 1 - periodStart := by
    rw [← hcast]
    exact_mod_cast hle
  linarith

theorem Covered.of_subset {bookings bookings' : List BookingRow} (h : ∀ b ∈ bookings, b ∈ bookings') {night : Date}
    (hc : Covered bookings night) : Covered bookings' night :=
  let ⟨b, hb, hnight⟩ := hc
  ⟨b, h b hb, hnight⟩

theorem covered_append {bookings bookings' : List BookingRow} {night : Date} :
    Covered (bookings ++ bookings') night ↔ Covered bookings night ∨ Covered bookings' night := by
  simp only [Covered, List.mem_append, or_and_right, exists_or]

theorem covered_cons {booking : BookingRow} {bookings : List BookingRow} {night : Date} :
    Covered (booking :: bookings) night ↔ Covered [booking] night ∨ Covered bookings night :=
  @covered_append [booking] _ _

theorem covered_singleton {booking : BookingRow} {night : Date} : Covered [booking] night ↔
    booking.status = .confirmed ∧ booking.checkIn ≤ night ∧ night < booking.checkOut := by
  simp only [Covered, List.mem_singleton, exists_eq_left]

/-! ## Consecutive stays -/

/-- The stays follow one another from the first day to the last. -/
def Consecutive : Date → Date → List BookingRow → Prop
  | checkIn, checkOut, [] => checkIn = checkOut
  | checkIn, checkOut, stay :: stays =>
    stay.checkIn = checkIn ∧ checkIn < stay.checkOut ∧ Consecutive stay.checkOut checkOut stays

theorem Consecutive.le {checkIn checkOut : Date} {stays : List BookingRow} (h : Consecutive checkIn checkOut stays) :
    checkIn ≤ checkOut := by
  induction stays generalizing checkIn with
  | nil => exact le_of_eq h
  | cons stay stays ih => exact h.2.1.le.trans (ih h.2.2)

theorem Consecutive.covers {checkIn checkOut : Date} {stays : List BookingRow}
    (h : Consecutive checkIn checkOut stays) {night : Date} :
    (∃ stay ∈ stays, stay.checkIn ≤ night ∧ night < stay.checkOut) ↔ checkIn ≤ night ∧ night < checkOut := by
  induction stays generalizing checkIn with
  | nil =>
    cases h
    simp
  | cons stay stays ih =>
    obtain ⟨rfl, hstay, hrest⟩ := h
    rw [List.exists_mem_cons_iff, ih hrest]
    have hle := hrest.le
    constructor
    · rintro (⟨hin, hout⟩ | ⟨hin, hout⟩)
      · exact ⟨hin, hout.trans_le hle⟩
      · exact ⟨hstay.le.trans hin, hout⟩
    · rintro ⟨hin, hout⟩
      rcases lt_or_ge night stay.checkOut with hlt | hge
      · exact Or.inl ⟨hin, hlt⟩
      · exact Or.inr ⟨hge, hout⟩

theorem Consecutive.covered {booking : BookingRow} {stays : List BookingRow}
    (h : Consecutive booking.checkIn booking.checkOut stays) (hstatus : ∀ stay ∈ stays, stay.status = booking.status)
    {night : Date} : Covered stays night ↔ Covered [booking] night := by
  rw [covered_singleton, ← h.covers]
  constructor
  · rintro ⟨stay, hstay, hconfirmed, hnight⟩
    exact ⟨(hstatus stay hstay).symm.trans hconfirmed, stay, hstay, hnight⟩
  · rintro ⟨hconfirmed, stay, hstay, hnight⟩
    exact ⟨stay, hstay, (hstatus stay hstay).trans hconfirmed, hnight⟩

/-! ## Bookings of the period -/

theorem mem_overlapping {bookings : List BookingRow} {periodStart periodEnd : Date} {booking : BookingRow} :
    booking ∈ overlapping bookings periodStart periodEnd ↔
      booking ∈ bookings ∧ booking.status = .confirmed ∧ booking.checkIn ≤ periodEnd ∧
        periodStart < booking.checkOut := by
  simp only [overlapping, List.mem_filter, Bool.and_eq_true, beq_iff_eq, decide_eq_true_eq, and_assoc]

def firstNight (periodStart : Date) (booking : BookingRow) : Date := max booking.checkIn periodStart

section
variable {bookings : List BookingRow} {periodStart periodEnd : Date}
  (hstays : ∀ booking ∈ bookings, booking.checkIn < booking.checkOut) (hperiod : periodStart ≤ periodEnd)
include hstays hperiod

theorem firstNight_occupied {booking : BookingRow} (h : booking ∈ overlapping bookings periodStart periodEnd) :
    firstNight periodStart booking ∈ occupied bookings periodStart periodEnd ∧
      firstNight periodStart booking < booking.checkOut := by
  obtain ⟨hin, hconfirmed, hend, hstart⟩ := mem_overlapping.mp h
  have hlast : firstNight periodStart booking < booking.checkOut := max_lt (hstays booking hin) hstart
  refine ⟨Finset.mem_filter.mpr ⟨Finset.mem_Icc.mpr ⟨le_max_right _ _, max_le hend hperiod⟩, ?_⟩, hlast⟩
  exact ⟨booking, hin, hconfirmed, le_max_left _ _, hlast⟩

omit hstays hperiod in
/-- A stay that covers a night of the period is among its bookings. -/
theorem overlapping_of_covers {booking : BookingRow} {night : Date} (hin : booking ∈ bookings)
    (hconfirmed : booking.status = .confirmed) (hnight : booking.checkIn ≤ night ∧ night < booking.checkOut)
    (hstart : periodStart ≤ night) (hend : night ≤ periodEnd) :
    booking ∈ overlapping bookings periodStart periodEnd :=
  mem_overlapping.mpr ⟨hin, hconfirmed, hnight.1.trans hend, hstart.trans_lt hnight.2⟩

theorem occupied_nonempty_iff :
    (occupied bookings periodStart periodEnd).Nonempty ↔ overlapping bookings periodStart periodEnd ≠ [] := by
  constructor
  · rintro ⟨night, hnight⟩
    obtain ⟨hin, booking, hbooking, hconfirmed, hcovers⟩ := Finset.mem_filter.mp hnight
    obtain ⟨hstart, hend⟩ := Finset.mem_Icc.mp hin
    exact List.ne_nil_of_mem (overlapping_of_covers hbooking hconfirmed hcovers hstart hend)
  · intro hne
    obtain ⟨booking, hbooking⟩ := List.exists_mem_of_ne_nil _ hne
    exact ⟨_, (firstNight_occupied hstays hperiod hbooking).1⟩

theorem occupiedNights_pos_iff :
    0 < occupiedNights bookings periodStart periodEnd ↔ 0 < bookingCount bookings periodStart periodEnd := by
  rw [occupiedNights_eq, Finset.card_pos, occupied_nonempty_iff hstays hperiod, bookingCount, List.length_pos_iff]

/-- The stays do not share a night. -/
def Apart (x y : BookingRow) : Prop := x.checkOut ≤ y.checkIn ∨ y.checkOut ≤ x.checkIn

theorem bookingCount_le (hapart : (bookings.filter (·.status == .confirmed)).Pairwise Apart) :
    bookingCount bookings periodStart periodEnd ≤ occupiedNights bookings periodStart periodEnd := by
  let found := overlapping bookings periodStart periodEnd
  have hpairwise : found.Pairwise Apart := by
    have hsub : found.Sublist (bookings.filter (·.status == .confirmed)) := by
      refine List.monotone_filter_right _ fun booking h => ?_
      simp only [Bool.and_eq_true] at h
      exact h.1.1
    exact hapart.sublist hsub
  have hfirst : (found.map (firstNight periodStart)).Nodup := by
    refine List.pairwise_map.mpr (hpairwise.imp_of_mem fun {x y} hx hy hxy => ?_)
    have hxlast := (firstNight_occupied hstays hperiod hx).2
    have hylast := (firstNight_occupied hstays hperiod hy).2
    rcases hxy with h | h
    · exact (hxlast.trans_le (h.trans (le_max_left _ _))).ne
    · exact (hylast.trans_le (h.trans (le_max_left _ _))).ne'
  calc bookingCount bookings periodStart periodEnd
      = (found.map (firstNight periodStart)).length := (List.length_map _).symm
    _ = (found.map (firstNight periodStart)).toFinset.card := (List.toFinset_card_of_nodup hfirst).symm
    _ ≤ (occupied bookings periodStart periodEnd).card := by
      refine Finset.card_le_card fun night hnight => ?_
      obtain ⟨booking, hbooking, rfl⟩ := List.mem_map.mp (List.mem_toFinset.mp hnight)
      exact (firstNight_occupied hstays hperiod hbooking).1
    _ = occupiedNights bookings periodStart periodEnd := (occupiedNights_eq ..).symm

end

/-! ## Guests -/

theorem sum_bounds {l : List ℕ} {lo hi : ℕ} (hlo : ∀ n ∈ l, lo ≤ n) (hhi : ∀ n ∈ l, n ≤ hi) :
    l.length * lo ≤ l.sum ∧ l.sum ≤ l.length * hi := by
  have hlow := List.card_nsmul_le_sum l lo hlo
  have hhigh := List.sum_le_card_nsmul l hi hhi
  exact ⟨hlow, hhigh⟩

/-- A mean lies between the least and the greatest; its rounding is off by half a cent. -/
theorem avgGuests_bounds {bookings : List BookingRow} {periodStart periodEnd : Date} {lo hi : ℕ}
    (hne : overlapping bookings periodStart periodEnd ≠ [])
    (hlo : ∀ booking ∈ overlapping bookings periodStart periodEnd, lo ≤ booking.guests)
    (hhi : ∀ booking ∈ overlapping bookings periodStart periodEnd, booking.guests ≤ hi) :
    (lo : ℚ) - 1 / 200 ≤ avgGuests bookings periodStart periodEnd ∧
      avgGuests bookings periodStart periodEnd ≤ (hi : ℚ) + 1 / 200 := by
  let found := overlapping bookings periodStart periodEnd
  let total := (found.map (·.guests)).sum
  have hlen : (0 : ℚ) < found.length := by exact_mod_cast List.length_pos_iff.mpr hne
  obtain ⟨hlow, hhigh⟩ := sum_bounds (List.forall_mem_map.mpr hlo) (List.forall_mem_map.mpr hhi)
  rw [List.length_map] at hlow hhigh
  have havg : avgGuests bookings periodStart periodEnd = pyRound ((total : ℕ) / (found.length : ℚ)) 2 := by
    rw [avgGuests, if_neg (by rwa [List.isEmpty_iff])]
  have hmin : (lo : ℚ) ≤ total / found.length := by
    rw [le_div_iff₀ hlen, mul_comm]
    exact_mod_cast hlow
  have hmax : (total : ℚ) / found.length ≤ hi := by
    rw [div_le_iff₀ hlen, mul_comm]
    exact_mod_cast hhigh
  have hround := abs_le.mp (abs_pyRound_sub_le ((total : ℚ) / found.length) 2)
  rw [havg]
  constructor
  · linarith [hround.1]
  · linarith [hround.2]

theorem avgGuests_pos_iff {bookings : List BookingRow} {periodStart periodEnd : Date}
    (hguests : ∀ booking ∈ bookings, 1 ≤ booking.guests) :
    0 < avgGuests bookings periodStart periodEnd ↔ 0 < bookingCount bookings periodStart periodEnd := by
  rw [bookingCount, List.length_pos_iff]
  constructor
  · rintro hpos hnil
    rw [avgGuests, hnil] at hpos
    exact absurd hpos (lt_irrefl _)
  · intro hne
    have hlo : ∀ booking ∈ overlapping bookings periodStart periodEnd, 1 ≤ booking.guests := fun booking h =>
      hguests booking (mem_overlapping.mp h).1
    have hhi : ∀ booking ∈ overlapping bookings periodStart periodEnd, booking.guests ≤
        ((overlapping bookings periodStart periodEnd).map (·.guests)).sum := fun booking h =>
      List.le_sum_of_mem (List.mem_map_of_mem h)
    have hlow := (avgGuests_bounds hne hlo hhi).1
    norm_num at hlow
    linarith

/-! ## The three figures -/

structure OccupancyConsistent (bookings : List BookingRow) (periodStart periodEnd : Date) : Prop where
  nights : occupiedNights bookings periodStart periodEnd =
    ((Finset.Icc periodStart periodEnd).filter (Covered bookings)).card
  within : (occupiedNights bookings periodStart periodEnd : ℤ) ≤ periodEnd - periodStart + 1
  /-- The order of the stays and how often each is listed do not matter. -/
  listing : ∀ bookings' : List BookingRow, (∀ booking, booking ∈ bookings' ↔ booking ∈ bookings) →
    occupiedNights bookings' periodStart periodEnd = occupiedNights bookings periodStart periodEnd
  splitting : ∀ before booking after stays, bookings = before ++ booking :: after →
    Consecutive booking.checkIn booking.checkOut stays → (∀ stay ∈ stays, stay.status = booking.status) →
    occupiedNights (before ++ stays ++ after) periodStart periodEnd =
      occupiedNights bookings periodStart periodEnd
  countPositive : 0 < occupiedNights bookings periodStart periodEnd ↔
    0 < bookingCount bookings periodStart periodEnd
  guestsPositive : (∀ booking ∈ bookings, 1 ≤ booking.guests) →
    (0 < bookingCount bookings periodStart periodEnd ↔ 0 < avgGuests bookings periodStart periodEnd)
  disjoint : (bookings.filter (·.status == .confirmed)).Pairwise Apart →
    bookingCount bookings periodStart periodEnd ≤ occupiedNights bookings periodStart periodEnd
  adding : ∀ before booking after, bookings = before ++ after → booking.status = .confirmed →
    occupiedNights bookings periodStart periodEnd ≤
      occupiedNights (before ++ booking :: after) periodStart periodEnd ∧
    bookingCount bookings periodStart periodEnd ≤ bookingCount (before ++ booking :: after) periodStart periodEnd
  cancelling : ∀ before booking after, bookings = before ++ booking :: after →
    occupiedNights (before ++ { booking with status := .cancelled } :: after) periodStart periodEnd ≤
      occupiedNights bookings periodStart periodEnd ∧
    bookingCount (before ++ { booking with status := .cancelled } :: after) periodStart periodEnd ≤
      bookingCount bookings periodStart periodEnd
  guests : ∀ lo hi, ((overlapping bookings periodStart periodEnd).map (·.guests)).min? = some lo →
    ((overlapping bookings periodStart periodEnd).map (·.guests)).max? = some hi →
    (lo : ℚ) - 1 / 200 ≤ avgGuests bookings periodStart periodEnd ∧
      avgGuests bookings periodStart periodEnd ≤ (hi : ℚ) + 1 / 200

theorem overlapping_append (bookings bookings' : List BookingRow) (periodStart periodEnd : Date) :
    overlapping (bookings ++ bookings') periodStart periodEnd =
      overlapping bookings periodStart periodEnd ++ overlapping bookings' periodStart periodEnd :=
  List.filter_append ..

theorem bookingCount_insert (before : List BookingRow) (booking : BookingRow) (after : List BookingRow)
    (periodStart periodEnd : Date) :
    bookingCount (before ++ booking :: after) periodStart periodEnd =
      bookingCount (before ++ after) periodStart periodEnd + bookingCount [booking] periodStart periodEnd := by
  have hcons : booking :: after = [booking] ++ after := rfl
  simp only [bookingCount, hcons, overlapping_append, List.length_append]
  omega

theorem occupancy_consistent {bookings : List BookingRow} {periodStart periodEnd : Date}
    (hstays : ∀ booking ∈ bookings, booking.checkIn < booking.checkOut) (hperiod : periodStart ≤ periodEnd) :
    OccupancyConsistent bookings periodStart periodEnd where
  nights := occupiedNights_eq bookings periodStart periodEnd
  within := occupiedNights_le bookings hperiod
  listing := fun bookings' hsame => occupiedNights_congr fun night _ _ =>
    ⟨Covered.of_subset fun b hb => (hsame b).mp hb, Covered.of_subset fun b hb => (hsame b).mpr hb⟩
  splitting := by
    rintro before booking after stays rfl hsplit hstatus
    refine occupiedNights_congr fun night _ _ => ?_
    rw [List.append_assoc, covered_append, covered_append, hsplit.covered hstatus, covered_append,
      @covered_cons _ after]
  countPositive := occupiedNights_pos_iff hstays hperiod
  guestsPositive := fun hguests => (avgGuests_pos_iff hguests).symm
  disjoint := bookingCount_le hstays hperiod
  adding := by
    rintro before booking after rfl -
    refine ⟨occupiedNights_mono fun night => Covered.of_subset fun b hb => ?_, ?_⟩
    · rw [List.mem_append] at hb ⊢
      exact hb.imp_right (List.mem_cons_of_mem _)
    · rw [bookingCount_insert]
      exact Nat.le_add_right _ _
  cancelling := by
    rintro before booking after rfl
    refine ⟨occupiedNights_mono fun night hcovered => ?_, ?_⟩
    · rw [covered_append, covered_cons] at hcovered ⊢
      refine hcovered.imp_right (Or.imp_left fun h => ?_)
      cases (covered_singleton.mp h).1
    · rw [bookingCount_insert, bookingCount_insert]
      exact Nat.add_le_add_left (Nat.zero_le _) _
  guests := by
    intro lo hi hmin hmax
    obtain ⟨hmem, hlo⟩ := List.min?_eq_some_iff.mp hmin
    obtain ⟨-, hhi⟩ := List.max?_eq_some_iff.mp hmax
    have hne : overlapping bookings periodStart periodEnd ≠ [] := fun h => by
      rw [h] at hmem
      exact absurd hmem List.not_mem_nil
    exact avgGuests_bounds hne (fun b hb => hlo _ (List.mem_map_of_mem hb)) fun b hb =>
      hhi _ (List.mem_map_of_mem hb)

/-- A stay over the first night, one over the last and a cancelled one. -/
def septemberBookings : List BookingRow :=
  [{ bookingId := "b1", apartmentId := "a1", checkIn := toordinal 2026 8 28, checkOut := toordinal 2026 9 2,
     guests := 2, status := .confirmed },
   { bookingId := "b2", apartmentId := "a1", checkIn := toordinal 2026 9 30, checkOut := toordinal 2026 10 4,
     guests := 3, status := .confirmed },
   { bookingId := "b3", apartmentId := "a1", checkIn := toordinal 2026 9 10, checkOut := toordinal 2026 9 12,
     guests := 4, status := .cancelled }]

theorem september_consistent :
    OccupancyConsistent septemberBookings (toordinal 2026 9 1) (toordinal 2026 9 30) :=
  occupancy_consistent (by decide) (by decide)

end PriceEngine
