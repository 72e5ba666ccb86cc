import PriceEngine.CostSound
import PriceEngine.Occupancy

/-!
# What the booking stage evicts

The bookings stored are the latest versions received less the `Expired` ones,
whose stay was over more than 90 days before the period cached when a booking
arrived (`bookingStage_get?`). An aggregate carries the figures of all of them exactly
if none of the expired covers a night of its period (`carries_iff`); a period
that starts at most 91 days before each of those cached loses none.
-/

namespace PriceEngine

/-! ## Runs of the booking stage -/

inductive BookingStageEvent
  | cost (value : CostAggregate)
  | booking (value : BookingRow)

def BookingEnrichment.handle (s : BookingEnrichment) : BookingStageEvent → BookingEnrichment × List CostAggregate
  | .cost value => s.processElement1 value
  | .booking value => s.processElement2 value

def bookingStageAfter (events : List BookingStageEvent) : BookingEnrichment :=
  events.foldl (fun s e => (s.handle e).1) {}

def receivedBookings (events : List BookingStageEvent) : Dict String BookingRow :=
  events.foldl
    (fun received e =>
      match e with
      | .cost _ => received
      | .booking value => received.put value.bookingId value) .empty

def latestCost (events : List BookingStageEvent) : Option CostAggregate :=
  events.foldl
    (fun latest e =>
      match e with
      | .cost value => some value
      | .booking _ => latest) none

/-- A booking arrived, not before this one, when the stay was over by more than the buffer. -/
def Expired (events : List BookingStageEvent) (b : BookingRow) : Prop :=
  ∃ before x after cached, events = before ++ .booking x :: after ∧ latestCost before = some cached ∧
    b.checkOut < cached.billingPeriodStart - retentionBufferDays ∧
    (receivedBookings (before ++ [.booking x])).get? b.bookingId = some b ∧
    ∀ y, .booking y ∈ after → y.bookingId ≠ b.bookingId

section
variable (events : List BookingStageEvent)

theorem latestCost_cost (value : CostAggregate) : latestCost (events ++ [.cost value]) = some value :=
  List.foldl_concat ..

theorem latestCost_booking (value : BookingRow) : latestCost (events ++ [.booking value]) = latestCost events :=
  List.foldl_concat ..

theorem receivedBookings_cost (value : CostAggregate) :
    receivedBookings (events ++ [.cost value]) = receivedBookings events := List.foldl_concat ..

theorem receivedBookings_booking (value : BookingRow) : receivedBookings (events ++ [.booking value]) =
    (receivedBookings events).put value.bookingId value := List.foldl_concat ..

theorem bookingStageAfter_concat (e : BookingStageEvent) :
    bookingStageAfter (events ++ [e]) = ((bookingStageAfter events).handle e).1 := List.foldl_concat ..

theorem receivedBookings_all :
    Dict.All (fun bookingId b => b.bookingId = bookingId) (receivedBookings events) := by
  induction events using List.reverseRecOn with
  | nil => exact Dict.all_empty _
  | append_singleton events e ih =>
    cases e with
    | cost value => rwa [receivedBookings_cost]
    | booking value =>
      rw [receivedBookings_booking]
      exact ih.put rfl

theorem bookingStageAfter_latest : (bookingStageAfter events).latestCostAggregate = latestCost events := by
  induction events using List.reverseRecOn with
  | nil => rfl
  | append_singleton events e ih =>
    rw [bookingStageAfter_concat]
    cases e with
    | cost value => rw [latestCost_cost]; rfl
    | booking value =>
      rw [latestCost_booking, ← ih]
      simp only [BookingEnrichment.handle, BookingEnrichment.processElement2]
      split <;> simp_all

end

/-! ## Expiry, event by event -/

theorem concat_eq_append_cons {α : Type*} {l before after : List α} {a x : α} :
    l ++ [a] = before ++ x :: after ↔
      (before = l ∧ x = a ∧ after = []) ∨ ∃ rest, l = before ++ x :: rest ∧ after = rest ++ [a] := by
  constructor
  · intro h
    rcases List.eq_nil_or_concat after with rfl | ⟨rest, y, rfl⟩
    · obtain ⟨hl, ha⟩ := List.append_inj' h rfl
      exact Or.inl ⟨hl.symm, (List.cons.inj ha).1.symm, rfl⟩
    · rw [List.concat_eq_append, ← List.cons_append, ← List.append_assoc] at h
      obtain ⟨hl, ha⟩ := List.append_inj' h rfl
      exact Or.inr ⟨rest, hl, by rw [List.concat_eq_append, (List.cons.inj ha).1]⟩
  · rintro (⟨rfl, rfl, rfl⟩ | ⟨rest, rfl, rfl⟩)
    · rfl
    · rw [List.append_assoc, List.cons_append]

section
variable {events : List BookingStageEvent} {b : BookingRow}

theorem expired_cost (value : CostAggregate) : Expired (events ++ [.cost value]) b ↔ Expired events b := by
  constructor
  · rintro ⟨before, x, after, cached, hsplit, hcached, hover, hlatest, hafter⟩
    rcases concat_eq_append_cons.mp hsplit with ⟨-, hx, -⟩ | ⟨rest, hevents, rfl⟩
    · cases hx
    · exact ⟨before, x, rest, cached, hevents, hcached, hover, hlatest, fun y hy =>
        hafter y (List.mem_append_left _ hy)⟩
  · rintro ⟨before, x, after, cached, hsplit, hcached, hover, hlatest, hafter⟩
    refine ⟨before, x, after ++ [.cost value], cached, ?_, hcached, hover, hlatest, fun y hy => ?_⟩
    · rw [hsplit, List.append_assoc, List.cons_append]
    · refine hafter y ((List.mem_append.mp hy).resolve_right fun h => ?_)
      cases List.mem_singleton.mp h

theorem expired_booking (x : BookingRow) : Expired (events ++ [.booking x]) b ↔
    (∃ cached, latestCost events = some cached ∧ b.checkOut < cached.billingPeriodStart - retentionBufferDays ∧
      (receivedBookings (events ++ [.booking x])).get? b.bookingId = some b) ∨
    (Expired events b ∧ x.bookingId ≠ b.bookingId) := by
  constructor
  · rintro ⟨before, y, after, cached, hsplit, hcached, hover, hlatest, hafter⟩
    rcases concat_eq_append_cons.mp hsplit with ⟨rfl, hy, -⟩ | ⟨rest, hevents, rfl⟩
    · cases hy
      exact Or.inl ⟨cached, hcached, hover, hlatest⟩
    · refine Or.inr ⟨⟨before, y, rest, cached, hevents, hcached, hover, hlatest, fun z hz => ?_⟩, ?_⟩
      · exact hafter z (List.mem_append_left _ hz)
      · exact hafter x (List.mem_append_right _ List.mem_cons_self)
  · rintro (⟨cached, hcached, hover, hlatest⟩ | ⟨⟨before, y, after, cached, hsplit, hcached, hover, hlatest, hafter⟩, hx⟩)
    · exact ⟨events, x, [], cached, rfl, hcached, hover, hlatest, fun y hy => nomatch hy⟩
    · refine ⟨before, y, after ++ [.booking x], cached, ?_, hcached, hover, hlatest, fun z hz => ?_⟩
      · rw [hsplit, List.append_assoc, List.cons_append]
      · rcases List.mem_append.mp hz with hz | hz
        · exact hafter z hz
        · cases List.mem_singleton.mp hz
          exact hx

end

/-! ## The bookings stored -/

theorem bookingStage_get? (events : List BookingStageEvent) (bookingId : String) (b : BookingRow) :
    (bookingStageAfter events).bookings.get? bookingId = some b ↔
      (receivedBookings events).get? bookingId = some b ∧ ¬ Expired events b := by
  induction events using List.reverseRecOn generalizing bookingId b with
  | nil => exact ⟨fun h => (nomatch h), fun h => (nomatch h.1)⟩
  | append_singleton events e ih =>
    rw [bookingStageAfter_concat]
    cases e with
    | cost value =>
      rw [receivedBookings_cost, expired_cost]
      exact ih bookingId b
    | booking x =>
      have hput : ((bookingStageAfter events).bookings.put x.bookingId x).get? bookingId = some b ↔
          ((receivedBookings events).put x.bookingId x).get? bookingId = some b ∧
            (Expired events b → x.bookingId = b.bookingId) := by
        rw [Dict.get?_put, Dict.get?_put]
        by_cases hid : bookingId = x.bookingId
        · rw [if_pos hid, if_pos hid]
          exact ⟨fun h => ⟨h, fun _ => by rw [Option.some.inj h]⟩, fun h => h.1⟩
        · rw [if_neg hid, if_neg hid, ih]
          refine and_congr_right fun h => ?_
          have hne : x.bookingId ≠ b.bookingId := by
            rw [receivedBookings_all events bookingId b h]
            exact Ne.symm hid
          exact ⟨fun hn he => absurd he hn, fun hn he => hne (hn he)⟩
      have hown := receivedBookings_all (events ++ [.booking x]) bookingId b
      rw [expired_booking, receivedBookings_booking, ← bookingStageAfter_latest]
      rw [receivedBookings_booking] at hown
      cases hcached : (bookingStageAfter events).latestCostAggregate with
      | none =>
        simp only [BookingEnrichment.handle, BookingEnrichment.processElement2, hcached]
        rw [hput]
        refine and_congr_right fun _ => ?_
        simp only [reduceCtorEq, false_and, exists_false, false_or, not_and, not_not]
      | some cached =>
        simp only [BookingEnrichment.handle, BookingEnrichment.processElement2, hcached]
        rw [Dict.get?_filterValues, hput, and_assoc]
        refine and_congr_right fun h => ?_
        have hlatest : ((receivedBookings events).put x.bookingId x).get? b.bookingId = some b := by
          rw [hown h]
          exact h
        simp only [Option.some.injEq, exists_eq_left', hlatest, and_true, not_or, not_and, not_not,
          Bool.not_eq_true', decide_eq_false_iff_not]
        exact and_comm

open Classical in
theorem bookingStage_values (events : List BookingStageEvent) :
    (bookingStageAfter events).bookings.values.Perm
      ((receivedBookings events).values.filter fun b => ¬ Expired events b) := by
  let stored := (bookingStageAfter events).bookings
  let received := receivedBookings events
  have hnodup : ∀ d : Dict String BookingRow, d.entries.Nodup := fun d => d.nodup.of_map _
  have hentries : stored.entries.Perm (received.entries.filter fun e => ¬ Expired events e.2) := by
    refine (List.perm_ext_iff_of_nodup (hnodup _) ((hnodup _).filter _)).mpr ?_
    rintro ⟨bookingId, b⟩
    rw [List.mem_filter, Dict.mem_entries, Dict.mem_entries, bookingStage_get?, decide_eq_true_iff]
  have hfilter : (received.values.filter fun b => ¬ Expired events b) =
      (received.entries.filter fun e => ¬ Expired events e.2).map Prod.snd := by
    rw [Dict.values, List.filter_map]
    rfl
  rw [hfilter]
  exact hentries.map Prod.snd

/-! ## Figures of the bookings that are left -/

section
variable {bookings kept : List BookingRow} {keep : BookingRow → Bool} (hkept : kept.Perm (bookings.filter keep))
  (periodStart periodEnd : Date)
include hkept

theorem overlapping_kept : (overlapping kept periodStart periodEnd).Perm
    ((overlapping bookings periodStart periodEnd).filter keep) := by
  have h := hkept.filter fun booking =>
    booking.status == .confirmed && booking.checkIn ≤ periodEnd && booking.checkOut > periodStart
  rw [List.filter_filter] at h
  refine h.trans ?_
  rw [overlapping, List.filter_filter]
  exact List.Perm.of_eq (List.filter_congr fun _ _ => Bool.and_comm _ _)

theorem figures_kept_iff :
    (occupiedNights kept periodStart periodEnd = occupiedNights bookings periodStart periodEnd ∧
      bookingCount kept periodStart periodEnd = bookingCount bookings periodStart periodEnd ∧
      avgGuests kept periodStart periodEnd = avgGuests bookings periodStart periodEnd) ↔
    ∀ b ∈ overlapping bookings periodStart periodEnd, keep b = true := by
  have hfound := overlapping_kept hkept periodStart periodEnd
  constructor
  · rintro ⟨-, hcount, -⟩
    rw [bookingCount, bookingCount, hfound.length_eq] at hcount
    exact List.length_filter_eq_length_iff.mp hcount
  · intro hall
    rw [List.filter_eq_self.mpr hall] at hfound
    refine ⟨occupiedNights_congr fun night hstart hend => ⟨?_, ?_⟩, hfound.length_eq, ?_⟩
    · exact Covered.of_subset fun b hb => List.mem_of_mem_filter (hkept.mem_iff.mp hb)
    · rintro ⟨b, hb, hconfirmed, hnight⟩
      have hfound : b ∈ overlapping bookings periodStart periodEnd :=
        overlapping_of_covers hb hconfirmed hnight hstart hend
      exact ⟨b, hkept.mem_iff.mpr (List.mem_filter.mpr ⟨hb, hall b hfound⟩), hconfirmed, hnight⟩
    · rw [avgGuests, avgGuests, hfound.length_eq, hfound.isEmpty_eq, (hfound.map _).sum_eq]

end

structure CarriesOccupancy (cost : CostAggregate) (bookings : List BookingRow) : Prop where
  nights : cost.occupiedNights = occupiedNights bookings cost.billingPeriodStart cost.billingPeriodEnd
  count : cost.bookingCount = bookingCount bookings cost.billingPeriodStart cost.billingPeriodEnd
  guests : cost.avgGuests = avgGuests bookings cost.billingPeriodStart cost.billingPeriodEnd

theorem carries_iff (cost : CostAggregate) (bookings : List BookingRow) : CarriesOccupancy cost bookings ↔
    cost.occupiedNights = occupiedNights bookings cost.billingPeriodStart cost.billingPeriodEnd ∧
    cost.bookingCount = bookingCount bookings cost.billingPeriodStart cost.billingPeriodEnd ∧
    cost.avgGuests = avgGuests bookings cost.billingPeriodStart cost.billingPeriodEnd :=
  ⟨fun h => ⟨h.nights, h.count, h.guests⟩, fun h => ⟨h.1, h.2.1, h.2.2⟩⟩

theorem bookingStage_emits {events : List BookingStageEvent} {e : BookingStageEvent} {cost : CostAggregate}
    (h : cost ∈ ((bookingStageAfter events).handle e).2) :
    ∃ cached, cost = recompute (bookingStageAfter (events ++ [e])).bookings.values cached := by
  rw [bookingStageAfter_concat]
  cases e with
  | cost value => exact ⟨value, List.mem_singleton.mp h⟩
  | booking value =>
    simp only [BookingEnrichment.handle, BookingEnrichment.processElement2] at h ⊢
    split at h
    · cases h
    · exact ⟨_, List.mem_singleton.mp h⟩

/-- An emitted aggregate lacks the expired bookings of its period, and no others. -/
theorem booking_eviction {events : List BookingStageEvent} {e : BookingStageEvent} {cost : CostAggregate}
    (h : cost ∈ ((bookingStageAfter events).handle e).2) :
    let received := (receivedBookings (events ++ [e])).values
    (CarriesOccupancy cost received ↔
      ∀ b ∈ overlapping received cost.billingPeriodStart cost.billingPeriodEnd, ¬ Expired (events ++ [e]) b) ∧
    ((∀ before x after cached, events ++ [e] = before ++ .booking x :: after → latestCost before = some cached →
      cached.billingPeriodStart ≤ cost.billingPeriodStart + retentionBufferDays + 1) →
      CarriesOccupancy cost received) := by
  classical
  intro received
  have hcarries : CarriesOccupancy cost received ↔
      ∀ b ∈ overlapping received cost.billingPeriodStart cost.billingPeriodEnd, ¬ Expired (events ++ [e]) b := by
    obtain ⟨cached, rfl⟩ := bookingStage_emits h
    have hfigures := figures_kept_iff (bookingStage_values (events ++ [e])) cached.billingPeriodStart
      cached.billingPeriodEnd
    simp only [decide_eq_true_iff] at hfigures
    rw [carries_iff]
    exact hfigures
  refine ⟨hcarries, fun hstarts => hcarries.mpr ?_⟩
  rintro b hb ⟨before, x, after, cached, hsplit, hcached, hover, -, -⟩
  have hstart := hstarts before x after cached hsplit hcached
  have hout := (mem_overlapping.mp hb).2.2.2
  have hnext : cost.billingPeriodStart + 1 ≤ b.checkOut := Int.add_one_le_iff.mpr hout
  linarith

/-! ## A period that starts earlier -/

def yearlyCost : CostAggregate :=
  { septemberCost [electricityLine] with
    billingPeriodStart := toordinal 2026 1 1
    billingPeriodEnd := toordinal 2026 12 31 }

def mayBooking : BookingRow :=
  { bookingId := "b1", apartmentId := "a1", checkIn := toordinal 2026 5 1, checkOut := toordinal 2026 5 8,
    guests := 2, status := .confirmed }

def mayStay : List BookingStageEvent := [.cost (septemberCost [electricityLine]), .booking mayBooking]

/-- The stay of May arrives in September; the yearly period that follows needs it. -/
theorem may_stay_lost : ¬ ∀ events e, ∀ cost ∈ ((bookingStageAfter events).handle e).2,
    CarriesOccupancy cost (receivedBookings (events ++ [e])).values := by
  intro hall
  have hcarries := hall mayStay (.cost yearlyCost) (recompute [] yearlyCost) List.mem_cons_self
  have hcount : (0 : ℕ) = 1 := hcarries.count
  cases hcount

theorem may_stay_kept : CarriesOccupancy (recompute [mayBooking] yearlyCost) [mayBooking] := by
  refine (@booking_eviction [.cost yearlyCost] (.booking mayBooking) _ List.mem_cons_self).2 ?_
  intro before x after cached hsplit hcached
  rcases concat_eq_append_cons.mp hsplit with ⟨rfl, -, -⟩ | ⟨rest, hrest, -⟩
  · obtain rfl : yearlyCost = cached := Option.some.inj hcached
    decide
  · cases before <;> simp at hrest

end PriceEngine
