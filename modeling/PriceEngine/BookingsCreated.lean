import Mathlib.Algebra.Order.Field.Rat
import PriceEngine.Calendar
import PriceEngine.Run
import PriceEngine.Windows

/-!
# Counting the bookings created

`booking-events.v1` brings a booking's row with every change of it. The first
message of a booking is let through and later ones are not, but what is let
through is remembered for six minutes only; the windows go by the timestamps
of the messages, not by `created_at`. An update that comes after the six
minutes is so counted as one more booking created.
-/

namespace PriceEngine

namespace MarketPulse

inductive BookingStatus where
  | confirmed
  | cancelled
  deriving DecidableEq

structure Booking where
  bookingId : String
  apartmentId : String
  checkIn : Date
  checkOut : Date
  revenueEur : ℚ
  status : BookingStatus
  createdAt : Instant
  deriving DecidableEq

/-! ## Enrichment -/

structure CostInputs where
  fixedAndAllocatedCostsEur : ℚ
  perBookingCostEur : ℚ
  p : ℚ

/-- The answer of `get_item`; a call that raises or times out is a failed one. -/
inductive Lookup where
  | item (costInputs : CostInputs)
  | notFound
  | failed

def resolveProfit (booking : Booking) (costInputs : CostInputs) : ℚ :=
  let nights := booking.checkOut - booking.checkIn
  let totalCostEur := costInputs.fixedAndAllocatedCostsEur * nights + costInputs.perBookingCostEur
  booking.revenueEur * (1 - costInputs.p) - totalCostEur

structure Enriched where
  booking : Booking
  profitEur : Option ℚ
  deriving DecidableEq

def Enriched.bookingId (e : Enriched) : String := e.booking.bookingId

def enrich (booking : Booking) : Lookup → Enriched
  | .item costInputs => ⟨booking, some (resolveProfit booking costInputs)⟩
  | .notFound => ⟨booking, none⟩
  | .failed => ⟨booking, none⟩

@[simp] theorem enrich_booking (booking : Booking) (lookup : Lookup) : (enrich booking lookup).booking = booking := by
  cases lookup <;> rfl

/-! ## Windows -/

def allowedLatenessMs : ℤ := 60000

def bookingsWindowMs : ℤ := 5 * 60000

def createdWindows : TumblingWindows := ⟨bookingsWindowMs, allowedLatenessMs, by decide, by decide⟩

structure BookingsCreatedRow where
  apartmentId : String
  windowStart : ℤ
  windowEnd : ℤ
  bookingCount : ℕ
  avgProfitEur : Option ℚ
  profitSampleCount : ℕ
  unresolvedCostCount : ℕ
  deriving DecidableEq

/-- `BookingCreatedWindowFunction.process`. -/
def createdRow (firing : (String × ℤ) × List Enriched) : BookingsCreatedRow :=
  let profits := firing.2.filterMap Enriched.profitEur
  { apartmentId := firing.1.1
    windowStart := firing.1.2
    windowEnd := firing.1.2 + createdWindows.size
    bookingCount := firing.2.length
    avgProfitEur := if profits.length = 0 then none else some (profits.sum / profits.length)
    profitSampleCount := profits.length
    unresolvedCostCount := firing.2.length - profits.length }

/-! ## The job -/

def dedupTtlMs : ℤ := 6 * 60000

/-- `table` is `bookings_created_5min`: under apartment and window the bookings its row was last made of. -/
structure BookingsCreated where
  seenBookingCreated : Dict String ℤ := .empty
  windows : WindowState String Enriched
  table : Dict (String × ℤ) (List Enriched) := .empty

/-- A message has the time it is processed at and its record's timestamp, both in milliseconds. -/
inductive CreatedEvent where
  | message (now timestamp : ℤ) (booking : Booking) (lookup : Lookup)
  | watermark (watermark : ℤ)

namespace BookingsCreated

/-- An expired flag is never returned. -/
def seen (s : BookingsCreated) (now : ℤ) (bookingId : String) : Bool :=
  match s.seenBookingCreated.get? bookingId with
  | some written => now < written + dedupTtlMs
  | none => false

def write (s : BookingsCreated) (fired : WindowState String Enriched × List ((String × ℤ) × List Enriched)) :
    BookingsCreated × List BookingsCreatedRow :=
  ({ s with windows := fired.1, table := recordFirings s.table fired.2 }, fired.2.map createdRow)

/-- Results of lookups may overtake one another, but no watermark overtakes them; so each is given to its window
at once, and only the order within a window may differ. -/
def onMessage (s : BookingsCreated) (now timestamp : ℤ) (booking : Booking) (lookup : Lookup) :
    BookingsCreated × List BookingsCreatedRow :=
  if s.seen now booking.bookingId then (s, [])
  else
    { s with seenBookingCreated := s.seenBookingCreated.put booking.bookingId now }.write
      (s.windows.processElement createdWindows booking.apartmentId timestamp (enrich booking lookup))

def onWatermark (s : BookingsCreated) (watermark : ℤ) : BookingsCreated × List BookingsCreatedRow :=
  s.write (s.windows.onWatermark createdWindows watermark)

def onEvent (s : BookingsCreated) : CreatedEvent → BookingsCreated × List BookingsCreatedRow
  | .message now timestamp booking lookup => s.onMessage now timestamp booking lookup
  | .watermark watermark => s.onWatermark watermark

def step (s : BookingsCreated) (event : CreatedEvent) : Except Empty (BookingsCreated × List BookingsCreatedRow) :=
  .ok (s.onEvent event)

def initial (watermark : ℤ) : BookingsCreated := { windows := { watermark := watermark } }

/-! ## Counted once -/

def windowOf (booking : Booking) : ℤ := createdWindows.start (booking.createdAt / 1000)

def held (s : BookingsCreated) (window : String × ℤ) : List Enriched := PriceEngine.held s.windows s.table window

/-- A message that is let through and is not late finds its booking in no window, and has a timestamp
in the window of `created_at`. -/
def FirstInItsWindow (s : BookingsCreated) : CreatedEvent → Prop
  | .message now timestamp booking _ =>
    s.seen now booking.bookingId = false →
      s.windows.watermark < createdWindows.cleanupTime (createdWindows.start timestamp) →
      (∀ window, ∀ e ∈ s.held window, e.bookingId ≠ booking.bookingId) ∧
        createdWindows.start timestamp = windowOf booking
  | .watermark _ => True

structure CountedOnce (s : BookingsCreated) : Prop where
  recorded : Recorded createdWindows s.windows s.table
  once : HeldOnce Enriched.bookingId s.windows s.table
  created : ∀ window, ∀ e ∈ s.held window, window = (e.booking.apartmentId, windowOf e.booking)

theorem countedOnce_initial (watermark : ℤ) : CountedOnce (initial watermark) where
  recorded := recorded_empty watermark
  once := heldOnce_empty Enriched.bookingId watermark
  created _ _ h := absurd h List.not_mem_nil

theorem CountedOnce.of_held_eq {s t : BookingsCreated} (h : CountedOnce s)
    (hrecorded : Recorded createdWindows t.windows t.table) (hheld : ∀ window, t.held window = s.held window) :
    CountedOnce t := by
  refine ⟨hrecorded, h.once.of_held_eq hheld, fun window e he => ?_⟩
  rw [hheld] at he
  exact h.created window e he

theorem CountedOnce.append {s t : BookingsCreated} (h : CountedOnce s)
    (hrecorded : Recorded createdWindows t.windows t.table) {window₀ : String × ℤ} {enriched : Enriched}
    (hheld : ∀ window, t.held window =
      if window = window₀ then s.held window ++ [enriched] else s.held window)
    (hnew : ∀ window, ∀ e ∈ s.held window, e.bookingId ≠ enriched.bookingId)
    (hcreated : window₀ = (enriched.booking.apartmentId, windowOf enriched.booking)) : CountedOnce t := by
  refine ⟨hrecorded, h.once.append hnew hheld, fun window e he => ?_⟩
  rw [hheld] at he
  split at he
  · rename_i hw
    rcases List.mem_append.mp he with he | he
    · exact h.created window e he
    · rw [List.mem_singleton.mp he, hw, hcreated]
  · exact h.created window e he

theorem CountedOnce.onMessage {s : BookingsCreated} (h : CountedOnce s) {now timestamp : ℤ} {booking : Booking}
    {lookup : Lookup} (hfirst : s.FirstInItsWindow (.message now timestamp booking lookup)) :
    CountedOnce (s.onMessage now timestamp booking lookup).1 := by
  unfold BookingsCreated.onMessage
  by_cases hseen : s.seen now booking.bookingId = true
  · rw [if_pos hseen]
    exact h
  · rw [if_neg hseen]
    by_cases hopen : createdWindows.cleanupTime (createdWindows.start timestamp) ≤ s.windows.watermark
    · exact h.of_held_eq h.recorded.processElement (held_late hopen)
    · obtain ⟨hnew, hcreated⟩ := hfirst (Bool.not_eq_true _ ▸ hseen) (not_le.mp hopen)
      refine h.append h.recorded.processElement (h.recorded.held_processElement hopen) ?_ ?_
      · rw [Enriched.bookingId, enrich_booking]
        exact hnew
      · rw [enrich_booking, hcreated]

theorem CountedOnce.onWatermark {s : BookingsCreated} (h : CountedOnce s) (watermark : ℤ) :
    CountedOnce (s.onWatermark watermark).1 :=
  h.of_held_eq (h.recorded.onWatermark watermark) (h.recorded.held_onWatermark watermark)

theorem CountedOnce.onEvent {s : BookingsCreated} (h : CountedOnce s) {event : CreatedEvent}
    (hfirst : s.FirstInItsWindow event) : CountedOnce (s.onEvent event).1 := by
  cases event with
  | message now timestamp booking lookup => exact h.onMessage hfirst
  | watermark watermark => exact h.onWatermark watermark

theorem CountedOnce.run {es : List CreatedEvent} {s t : BookingsCreated} {rows : List BookingsCreatedRow}
    (h : CountedOnce s) (hfirst : Along step FirstInItsWindow s es) (hr : run step s es = .ok (t, rows)) :
    CountedOnce t := by
  refine run_invariant (fun s e s' o hs hf hstep => ?_) h hfirst hr
  have hnext : s.onEvent e = (s', o) := Except.ok.inj hstep
  have h' := hs.onEvent hf
  rw [hnext] at h'
  exact h'

/-! ## Times of messages -/

def messageTime (bookingId : String) : CreatedEvent → Option ℤ
  | .message now _ booking _ => if booking.bookingId = bookingId then some now else none
  | .watermark _ => none

/-- When the booking's first message is processed. -/
def firstSeen (bookingId : String) (es : List CreatedEvent) : Option ℤ := es.findSome? (messageTime bookingId)

def laterWatermark (watermark : ℤ) : CreatedEvent → ℤ
  | .message .. => watermark
  | .watermark next => max watermark next

def lastWatermark (watermark : ℤ) (es : List CreatedEvent) : ℤ := es.foldl laterWatermark watermark

/-- A booking's first message has a timestamp in the window of `created_at`; each later one is processed less than
six minutes after the first, or comes too late for its window. -/
def Timely (watermark : ℤ) (es : List CreatedEvent) : Prop :=
  ∀ p now timestamp booking lookup q, es = p ++ .message now timestamp booking lookup :: q →
    (firstSeen booking.bookingId p = none ∧ createdWindows.start timestamp = windowOf booking) ∨
    (∃ first, firstSeen booking.bookingId p = some first ∧ now < first + dedupTtlMs) ∨
    createdWindows.cleanupTime (createdWindows.start timestamp) ≤ lastWatermark watermark p

/-- What the messages so far say about the state. -/
structure Tracks (watermark : ℤ) (p : List CreatedEvent) (s : BookingsCreated) : Prop where
  recorded : Recorded createdWindows s.windows s.table
  watermark : s.windows.watermark = lastWatermark watermark p
  unflagged : ∀ bookingId, firstSeen bookingId p = none → s.seenBookingCreated.get? bookingId = none
  flagged : ∀ bookingId first, firstSeen bookingId p = some first →
    ∃ written, s.seenBookingCreated.get? bookingId = some written ∧ first ≤ written
  held : ∀ window, ∀ e ∈ s.held window, (firstSeen e.bookingId p).isSome

theorem firstSeen_concat (bookingId : String) (p : List CreatedEvent) (e : CreatedEvent) :
    firstSeen bookingId (p ++ [e]) = (firstSeen bookingId p).or (messageTime bookingId e) := by
  rw [firstSeen, List.findSome?_append, firstSeen]
  simp

theorem lastWatermark_concat (watermark : ℤ) (p : List CreatedEvent) (e : CreatedEvent) :
    lastWatermark watermark (p ++ [e]) = laterWatermark (lastWatermark watermark p) e := by
  rw [lastWatermark, List.foldl_append]
  rfl

theorem firstSeen_isSome_concat {bookingId : String} {p : List CreatedEvent} (e : CreatedEvent)
    (h : (firstSeen bookingId p).isSome) : (firstSeen bookingId (p ++ [e])).isSome := by
  rw [firstSeen_concat, Option.isSome_or, h, Bool.true_or]

section
variable {watermark : ℤ} {p : List CreatedEvent} {s : BookingsCreated}

theorem Tracks.seen (h : Tracks watermark p s) {now first : ℤ} {bookingId : String}
    (hfirst : firstSeen bookingId p = some first) (hsoon : now < first + dedupTtlMs) :
    s.seen now bookingId = true := by
  obtain ⟨written, hwritten, hle⟩ := h.flagged bookingId first hfirst
  rw [BookingsCreated.seen, hwritten]
  exact decide_eq_true (hsoon.trans_le (Int.add_le_add_right hle dedupTtlMs))

theorem Tracks.dropped (h : Tracks watermark p s) {now timestamp : ℤ} {booking : Booking} {lookup : Lookup}
    (hseen : s.seen now booking.bookingId = true) :
    Tracks watermark (p ++ [.message now timestamp booking lookup]) s := by
  have hsame : ∀ bookingId, firstSeen bookingId (p ++ [.message now timestamp booking lookup]) = firstSeen bookingId p := by
    intro bookingId
    rw [firstSeen_concat, messageTime]
    cases hfirst : firstSeen bookingId p with
    | some first => rfl
    | none =>
      rw [if_neg, Option.none_or]
      rintro rfl
      rw [BookingsCreated.seen, h.unflagged _ hfirst] at hseen
      cases hseen
  refine ⟨h.recorded, by rw [h.watermark, lastWatermark_concat, laterWatermark], fun bookingId hnone => ?_,
    fun bookingId first hfirst => ?_, fun window e he => firstSeen_isSome_concat _ (h.held window e he)⟩
  · exact h.unflagged bookingId (hsame bookingId ▸ hnone)
  · exact h.flagged bookingId first (hsame bookingId ▸ hfirst)

/-- A flag is written again six minutes after it was written at the earliest, so never before the first message. -/
theorem Tracks.flagged_let_through (h : Tracks watermark p s) {now timestamp : ℤ} {booking : Booking} {lookup : Lookup}
    (hseen : s.seen now booking.bookingId = false) {first : ℤ}
    (hfirst : firstSeen booking.bookingId (p ++ [.message now timestamp booking lookup]) = some first) : first ≤ now := by
  rw [firstSeen_concat, messageTime, if_pos rfl] at hfirst
  cases hbefore : firstSeen booking.bookingId p with
  | none =>
    rw [hbefore, Option.none_or] at hfirst
    exact (Option.some.inj hfirst).ge
  | some first' =>
    rw [hbefore, Option.some_or] at hfirst
    obtain ⟨written, hwritten, hle⟩ := h.flagged _ _ hbefore
    rw [BookingsCreated.seen, hwritten] at hseen
    have hexpired : written + dedupTtlMs ≤ now := not_lt.mp (of_decide_eq_false hseen)
    have hpos : 0 ≤ dedupTtlMs := by decide
    rw [← Option.some.inj hfirst]
    omega

theorem Tracks.onMessage (h : Tracks watermark p s) (now timestamp : ℤ) (booking : Booking) (lookup : Lookup) :
    Tracks watermark (p ++ [.message now timestamp booking lookup]) (s.onMessage now timestamp booking lookup).1 := by
  unfold BookingsCreated.onMessage
  by_cases hseen : s.seen now booking.bookingId = true
  · rw [if_pos hseen]
    exact h.dropped hseen
  rw [if_neg hseen]
  rw [Bool.not_eq_true] at hseen
  refine ⟨h.recorded.processElement, ?_, fun bookingId hnone => ?_, fun bookingId first hfirst => ?_,
    fun window e he => ?_⟩
  · rw [lastWatermark_concat, laterWatermark, ← h.watermark]
    exact watermark_afterElement
  · rw [firstSeen_concat, Option.or_eq_none_iff, messageTime] at hnone
    have hother : bookingId ≠ booking.bookingId := fun hid => by
      rw [if_pos hid.symm] at hnone
      cases hnone.2
    exact (Dict.get?_put ..).trans ((if_neg hother).trans (h.unflagged bookingId hnone.1))
  · by_cases hid : bookingId = booking.bookingId
    · subst hid
      exact ⟨now, (Dict.get?_put ..).trans (if_pos rfl), h.flagged_let_through hseen hfirst⟩
    · rw [firstSeen_concat, messageTime, if_neg (Ne.symm hid), Option.or_none] at hfirst
      obtain ⟨written, hwritten, hle⟩ := h.flagged bookingId first hfirst
      exact ⟨written, (Dict.get?_put ..).trans ((if_neg hid).trans hwritten), hle⟩
  · have hmem : e ∈ s.held window ∨ e = enrich booking lookup := by
      let next := s.windows.processElement createdWindows booking.apartmentId timestamp (enrich booking lookup)
      have hheld : e ∈ PriceEngine.held next.1 (recordFirings s.table next.2) window := he
      by_cases hopen : createdWindows.cleanupTime (createdWindows.start timestamp) ≤ s.windows.watermark
      · rw [held_late hopen] at hheld
        exact .inl hheld
      · rw [h.recorded.held_processElement hopen] at hheld
        split_ifs at hheld
        · exact (List.mem_append.mp hheld).imp_right List.mem_singleton.mp
        · exact .inl hheld
    rcases hmem with he | rfl
    · exact firstSeen_isSome_concat _ (h.held window e he)
    · rw [Enriched.bookingId, enrich_booking, firstSeen_concat, messageTime, if_pos rfl, Option.isSome_or]
      simp

theorem Tracks.onWatermark (h : Tracks watermark p s) (next : ℤ) :
    Tracks watermark (p ++ [.watermark next]) (s.onWatermark next).1 := by
  have hsame : ∀ bookingId, firstSeen bookingId (p ++ [.watermark next]) = firstSeen bookingId p := fun bookingId => by
    rw [firstSeen_concat, messageTime, Option.or_none]
  refine ⟨h.recorded.onWatermark next, ?_, fun bookingId hnone => h.unflagged bookingId (hsame bookingId ▸ hnone),
    fun bookingId first hfirst => h.flagged bookingId first (hsame bookingId ▸ hfirst), fun window e he => ?_⟩
  · rw [lastWatermark_concat, laterWatermark, ← h.watermark]
    exact watermark_onWatermark next
  · let fired := s.windows.onWatermark createdWindows next
    have hheld : e ∈ PriceEngine.held fired.1 (recordFirings s.table fired.2) window := he
    rw [h.recorded.held_onWatermark] at hheld
    rw [hsame]
    exact h.held window e hheld

theorem Tracks.firstInItsWindow (h : Tracks watermark p s) {now timestamp : ℤ} {booking : Booking} {lookup : Lookup}
    (htimely : (firstSeen booking.bookingId p = none ∧ createdWindows.start timestamp = windowOf booking) ∨
      (∃ first, firstSeen booking.bookingId p = some first ∧ now < first + dedupTtlMs) ∨
      createdWindows.cleanupTime (createdWindows.start timestamp) ≤ lastWatermark watermark p) :
    s.FirstInItsWindow (.message now timestamp booking lookup) := by
  intro hunseen hopen
  rcases htimely with ⟨hnone, hcreated⟩ | ⟨first, hfirst, hsoon⟩ | hlate
  · refine ⟨fun window e he hid => ?_, hcreated⟩
    have hsome := h.held window e he
    rw [hid, hnone] at hsome
    cases hsome
  · rw [h.seen hfirst hsoon] at hunseen
    cases hunseen
  · rw [h.watermark] at hopen
    exact absurd hlate (not_le.mpr hopen)

end

theorem tracks_initial (watermark : ℤ) : Tracks watermark [] (initial watermark) where
  recorded := recorded_empty watermark
  watermark := rfl
  unflagged _ _ := rfl
  flagged _ _ h := nomatch h
  held _ _ h := absurd h List.not_mem_nil

theorem tracks_run {es : List CreatedEvent} {watermark : ℤ} {s : BookingsCreated} {rows : List BookingsCreatedRow}
    (hr : PriceEngine.run step (initial watermark) es = .ok (s, rows)) : Tracks watermark es s := by
  refine run_prefix (I := fun p s _ => Tracks watermark p s) (tracks_initial watermark) ?_ hr
  intro p e q s os s' o _ _ h hstep
  have hnext : s.onEvent e = (s', o) := Except.ok.inj hstep
  have h' : Tracks watermark (p ++ [e]) (s.onEvent e).1 := by
    cases e with
    | message now timestamp booking lookup => exact h.onMessage now timestamp booking lookup
    | watermark next => exact h.onWatermark next
  rw [hnext] at h'
  exact h'

/-- The flag and the lateness of windows between them keep a booking from being counted twice, if its messages come
in time. -/
theorem created_once {es : List CreatedEvent} {watermark : ℤ} {s : BookingsCreated} {rows : List BookingsCreatedRow}
    (htimely : Timely watermark es)
    (hr : PriceEngine.run step (initial watermark) es = .ok (s, rows)) (bookingId : String) :
    contribution Enriched.bookingId s.table bookingId ≤ 1 ∧
      ∀ window fired, s.table.get? window = some fired → ∀ e ∈ fired, e.bookingId = bookingId →
        window = (e.booking.apartmentId, windowOf e.booking) := by
  have hfirst : Along step FirstInItsWindow (initial watermark) es := by
    refine along_of_splits fun p e q t ot hsplit hp => ?_
    cases e with
    | message now timestamp booking lookup =>
      exact (tracks_run hp).firstInItsWindow (htimely p now timestamp booking lookup q hsplit)
    | watermark next => trivial
  have h := (countedOnce_initial watermark).run hfirst hr
  refine ⟨contribution_le_one _ h.recorded h.once bookingId, fun window fired hfired e he _ => ?_⟩
  exact h.created window e ((h.recorded.prefix_held hfired).subset he)

/-! ## A booking of 2026-06-01 12:00 -/

def noon : ℤ := 1780315200000

def guestBooking (status : BookingStatus) : Booking :=
  { bookingId := "b-1", apartmentId := "apt-1", checkIn := 739800, checkOut := 739802, revenueEur := 200
    status := status, createdAt := noon * 1000 }

def laterBooking : Booking :=
  { bookingId := "b-2", apartmentId := "apt-1", checkIn := 739900, checkOut := 739901, revenueEur := 90
    status := .confirmed, createdAt := (noon + 1200000) * 1000 }

/-- An update and a redelivery within six minutes; the message again when its window is gone; another booking. -/
def redelivered : List CreatedEvent :=
  [.message noon noon (guestBooking .confirmed) .notFound,
    .message (noon + 60000) (noon + 60000) (guestBooking .cancelled) .notFound,
    .message (noon + 350000) noon (guestBooking .confirmed) .notFound, .watermark (noon + 900000),
    .message (noon + 960000) noon (guestBooking .confirmed) .notFound,
    .message (noon + 1200000) (noon + 1200000) laterBooking .notFound, .watermark (noon + 1500000)]

theorem redelivered_timely : Timely 0 redelivered := by
  intro p now timestamp booking lookup q hsplit
  match p, hsplit with
  | [], hsplit =>
    cases hsplit
    exact .inl (by decide)
  | [_], hsplit =>
    cases hsplit
    exact .inr (.inl ⟨noon, by decide, by decide⟩)
  | [_, _], hsplit =>
    cases hsplit
    exact .inr (.inl ⟨noon, by decide, by decide⟩)
  | [_, _, _], hsplit => cases hsplit
  | [_, _, _, _], hsplit =>
    cases hsplit
    exact .inr (.inr (by decide))
  | [_, _, _, _, _], hsplit =>
    cases hsplit
    exact .inl (by decide)
  | [_, _, _, _, _, _], hsplit => cases hsplit
  | _ :: _ :: _ :: _ :: _ :: _ :: _ :: p, hsplit =>
    have hlength := congrArg List.length hsplit
    simp [redelivered] at hlength

theorem redelivered_once : ∃ s rows, PriceEngine.run step (initial 0) redelivered = .ok (s, rows) ∧
    contribution Enriched.bookingId s.table "b-1" ≤ 1 ∧
    (∀ window fired, s.table.get? window = some fired → ∀ e ∈ fired, e.bookingId = "b-1" →
      window = (e.booking.apartmentId, windowOf e.booking)) ∧
    contribution Enriched.bookingId s.table "b-1" = 1 ∧ contribution Enriched.bookingId s.table "b-2" = 1 := by
  obtain ⟨honce, hcreated⟩ := created_once redelivered_timely rfl "b-1"
  exact ⟨_, _, rfl, honce, hcreated, by decide, by decide⟩

/-- Cancelled after seven minutes, the windows closing when another booking comes. -/
def cancelledLater : List CreatedEvent :=
  [.message noon noon (guestBooking .confirmed) .notFound, .watermark (noon - 30001),
    .message (noon + 420000) (noon + 420000) (guestBooking .cancelled) .notFound, .watermark (noon + 389999),
    .message (noon + 1200000) (noon + 1200000) laterBooking .notFound, .watermark (noon + 1169999)]

theorem cancelledLater_twice : ∃ s rows, PriceEngine.run step (initial 0) cancelledLater = .ok (s, rows) ∧
    contribution Enriched.bookingId s.table "b-1" = 2 ∧ rows.map BookingsCreatedRow.bookingCount = [1, 1] :=
  ⟨_, _, rfl, by decide, by decide⟩

end BookingsCreated

end MarketPulse

end PriceEngine
