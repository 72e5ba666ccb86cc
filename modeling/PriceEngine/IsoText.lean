import PriceEngine.Value
import Mathlib.Algebra.Order.Ring.Int
import Mathlib.Tactic.Linarith

/-!
# ISO texts of dates and instants

`isoDatetime` writes an instant as the clock of some offset from UTC shows it;
`dateFromisoformat` and `datetimeFromisoformat` read such texts. What is written
for a date of the calendar (years 1 to 9999) is read back as it was.
-/

namespace PriceEngine

/-! ## Writing -/

/-- `Z`, or a sign with hours and minutes. -/
def offsetChars (offset : ℤ) : List Char :=
  if offset = 0 then ['Z']
  else (if offset < 0 then '-' else '+') ::
    (zeroPad 2 (offset.natAbs / 60) ++ ':' :: zeroPad 2 (offset.natAbs % 60))

/-- The microseconds are left out where they are zero. -/
def fractionChars (us : ℕ) : List Char := if us = 0 then [] else '.' :: zeroPad 6 us

/-- The time of day, in microseconds since midnight. -/
def timeChars (time : ℕ) : List Char :=
  zeroPad 2 (time / 3600000000) ++ ':' :: (zeroPad 2 (time / 60000000 % 60) ++
    ':' :: (zeroPad 2 (time / 1000000 % 60) ++ fractionChars (time % 1000000)))

def localTime (offset : ℤ) (t : Instant) : Instant := t + offset * 60000000

/-- An instant on the clock `offset` minutes ahead of UTC. -/
def isoDatetimeChars (offset : ℤ) (t : Instant) : List Char :=
  isoChars (Instant.date (localTime offset t)) ++ 'T' ::
    (timeChars (localTime offset t % 86400000000).toNat ++ offsetChars offset)

def isoDatetime (offset : ℤ) (t : Instant) : String := String.ofList (isoDatetimeChars offset t)

/-! ## Reading -/

/-- `w` digits at the front. -/
def readDigits (w : ℕ) (cs : List Char) : Option (ℕ × List Char) :=
  if (cs.take w).length = w ∧ (cs.take w).all Char.isDigit then
    some (Nat.ofDigitChars 10 (cs.take w) 0, cs.drop w)
  else none

def readChar (c : Char) : List Char → Option (List Char)
  | [] => none
  | c' :: cs => if c' = c then some cs else none

/-- A calendar date at the front; its fields must be those of a day. -/
def readDate (cs : List Char) : Option (Date × List Char) := do
  let (y, cs) ← readDigits 4 cs
  let cs ← readChar '-' cs
  let (m, cs) ← readDigits 2 cs
  let cs ← readChar '-' cs
  let (day, cs) ← readDigits 2 cs
  let d := toordinal y m day
  if 1 ≤ y ∧ Date.year d = y ∧ Date.month d = m ∧ Date.day d = day then some (d, cs) else none

def readFraction : List Char → Option (ℕ × List Char)
  | '.' :: cs => readDigits 6 cs
  | cs => some (0, cs)

def readTime (cs : List Char) : Option (ℕ × List Char) := do
  let (h, cs) ← readDigits 2 cs
  let cs ← readChar ':' cs
  let (m, cs) ← readDigits 2 cs
  let cs ← readChar ':' cs
  let (s, cs) ← readDigits 2 cs
  let (us, cs) ← readFraction cs
  if h < 24 ∧ m < 60 ∧ s < 60 then some (((h * 60 + m) * 60 + s) * 1000000 + us, cs) else none

def readHoursMinutes (cs : List Char) : Option ℤ := do
  let (h, cs) ← readDigits 2 cs
  let cs ← readChar ':' cs
  let (m, cs) ← readDigits 2 cs
  if h < 24 ∧ m < 60 ∧ cs = [] then some (h * 60 + m) else none

def readOffset : List Char → Option ℤ
  | ['Z'] => some 0
  | '+' :: cs => readHoursMinutes cs
  | '-' :: cs => (readHoursMinutes cs).map (-·)
  | _ => none

def readDatetime (cs : List Char) : Option Instant := do
  let (d, cs) ← readDate cs
  let cs ← cs.tail?
  let (time, cs) ← readTime cs
  let offset ← readOffset cs
  some ((d - 719163) * 86400000000 + time - offset * 60000000)

/-- `date.fromisoformat`, for the form with dashes. -/
def dateFromisoformat (s : String) : Except PyError Date :=
  match readDate s.toList with
  | some (d, []) => .ok d
  | _ => .error .valueError

/-- `datetime.fromisoformat`, for a text with an offset. -/
def datetimeFromisoformat (s : String) : Except PyError Instant :=
  match readDatetime s.toList with
  | some t => .ok t
  | none => .error .valueError

/-! ## Numbers read back -/

theorem zeroPad_length {w n : ℕ} (hw : 0 < w) (hn : n < 10 ^ w) : (zeroPad w n).length = w := by
  have := (Nat.length_toDigits_le_iff (by decide : 1 < 10) hw).mpr hn
  simp only [zeroPad, List.length_append, List.length_replicate]
  omega

theorem ofDigitChars_zeroPad (w n : ℕ) : Nat.ofDigitChars 10 (zeroPad w n) 0 = n := by
  simp [zeroPad, Nat.ofDigitChars_append, Nat.ofDigitChars_replicate_zero, Nat.ofDigitChars_toDigits]

theorem readDigits_zeroPad {w n : ℕ} (hw : 0 < w) (hn : n < 10 ^ w) (cs : List Char) :
    readDigits w (zeroPad w n ++ cs) = some (n, cs) := by
  have hlen := zeroPad_length hw hn
  have htake : (zeroPad w n ++ cs).take w = zeroPad w n := List.take_left' hlen
  have hdrop : (zeroPad w n ++ cs).drop w = cs := List.drop_left' hlen
  have hdigits : (zeroPad w n).all Char.isDigit = true :=
    List.all_eq_true.mpr fun _ hc => isDigit_of_mem_zeroPad hc
  rw [readDigits, htake, hdrop, if_pos ⟨hlen, hdigits⟩, ofDigitChars_zeroPad]

@[simp] theorem readChar_self (c : Char) (cs : List Char) : readChar c (c :: cs) = some cs := if_pos rfl

/-! ## Dates read back -/

/-- The dates of the calendar: years 1 to 9999. -/
def Date.InRange (d : Date) : Prop := 1 ≤ d ∧ d ≤ 3652059

instance (d : Date) : Decidable (Date.InRange d) := inferInstanceAs (Decidable (_ ∧ _))

theorem year_bounds {d : ℤ} (h : 1 ≤ d ∧ d ≤ 3652059) : 1 ≤ Date.year d ∧ Date.year d ≤ 9999 := by
  unfold Date.year yearAndDay
  dsimp only
  generalize hn : d - 1 = n
  generalize h400 : n / 146097 = n400
  generalize hr : n % 146097 = r
  generalize h100 : min 3 (r / 36524) = n100
  generalize hr' : r - n100 * 36524 = r'
  generalize h4 : r' / 1461 = n4
  generalize hs : r' % 1461 = s
  generalize h1 : min 3 (s / 365) = n1
  have hb : 0 ≤ n100 ∧ n100 ≤ 3 ∧ 0 ≤ n1 ∧ n1 ≤ 3 ∧ 0 ≤ n4 ∧ n4 ≤ 24 := by omega
  omega

theorem dayOfYear_bounds (d : ℤ) : 0 ≤ (yearAndDay d).2 ∧ (yearAndDay d).2 ≤ 365 := by
  unfold yearAndDay
  dsimp only
  omega

theorem monthOf_bounds (leap : Bool) {n : ℤ} (hn : 0 ≤ n ∧ n ≤ 365) : monthOf leap n ≤ 12 ∧
    daysBeforeMonth leap (monthOf leap n) ≤ n ∧ n < daysBeforeMonth leap (monthOf leap n) + 32 := by
  have hdays : ∀ (leap : Bool) (k : Fin 366), monthOf leap k ≤ 12 ∧
      daysBeforeMonth leap (monthOf leap k) ≤ k ∧ (k : ℤ) < daysBeforeMonth leap (monthOf leap k) + 32 := by
    decide +kernel
  obtain ⟨k, rfl⟩ := Int.eq_ofNat_of_zero_le hn.1
  exact hdays leap ⟨k, by omega⟩

theorem month_day_bounds (d : Date) : Date.month d < 100 ∧ 0 ≤ Date.day d ∧ Date.day d < 100 := by
  have h := monthOf_bounds (isLeap (Date.year d)) (dayOfYear_bounds d)
  unfold Date.day Date.month
  omega

theorem signedPad_of_nonneg {w : ℕ} {k : ℤ} (hk : 0 ≤ k) : signedPad w k = zeroPad w k.toNat := by
  obtain ⟨n, rfl⟩ := Int.eq_ofNat_of_zero_le hk
  rfl

theorem readDate_isoChars {d : Date} (h : Date.InRange d) (cs : List Char) :
    readDate (isoChars d ++ cs) = some (d, cs) := by
  obtain ⟨hy, hy'⟩ := year_bounds h
  obtain ⟨hm, hd, hd'⟩ := month_day_bounds d
  have hpos : 1 ≤ (Date.year d).toNat := by omega
  have hyear : ((Date.year d).toNat : ℤ) = Date.year d := Int.toNat_of_nonneg (by omega)
  have hday : ((Date.day d).toNat : ℤ) = Date.day d := Int.toNat_of_nonneg hd
  have e4 := readDigits_zeroPad (w := 4) (n := (Date.year d).toNat) (by decide) (by omega)
  have em := readDigits_zeroPad (w := 2) (n := Date.month d) (by decide) (by omega)
  have ed := readDigits_zeroPad (w := 2) (n := (Date.day d).toNat) (by decide) (by omega)
  unfold readDate isoChars
  rw [signedPad_of_nonneg (by omega), signedPad_of_nonneg hd]
  simp only [List.append_assoc, List.cons_append, e4, em, ed, readChar_self, Option.bind_eq_bind, Option.bind_some,
    hyear, hday, toordinal_fields, and_self, and_true, if_pos hpos]

theorem dateFromisoformat_isoformat {d : Date} (h : Date.InRange d) :
    dateFromisoformat (isoformat d) = .ok d := by
  have hread := readDate_isoChars h []
  rw [List.append_nil] at hread
  rw [dateFromisoformat, toList_isoformat, hread]

/-! ## Instants read back -/

/-- An offset of a clock is less than a day. -/
def ClockOffset (offset : ℤ) : Prop := -1440 < offset ∧ offset < 1440

instance (offset : ℤ) : Decidable (ClockOffset offset) := inferInstanceAs (Decidable (_ ∧ _))

theorem readHoursMinutes_eq {n : ℕ} (hn : n < 1440) :
    readHoursMinutes (zeroPad 2 (n / 60) ++ ':' :: zeroPad 2 (n % 60)) = some (n : ℤ) := by
  have eh := readDigits_zeroPad (w := 2) (n := n / 60) (by decide) (by omega)
  have em := readDigits_zeroPad (w := 2) (n := n % 60) (by decide) (by omega) []
  rw [List.append_nil] at em
  have hbounds : n / 60 < 24 ∧ n % 60 < 60 := by omega
  have hsum : ((n / 60 : ℕ) : ℤ) * 60 + (n % 60 : ℕ) = n := by omega
  simp only [readHoursMinutes, eh, em, readChar_self, Option.bind_eq_bind, Option.bind_some, hbounds, and_self,
    if_true, hsum]

theorem readOffset_offsetChars {offset : ℤ} (h : ClockOffset offset) :
    readOffset (offsetChars offset) = some offset := by
  unfold ClockOffset at h
  have hread := readHoursMinutes_eq (n := offset.natAbs) (by omega)
  unfold offsetChars
  by_cases hzero : offset = 0
  · rw [if_pos hzero, hzero]
    rfl
  · rw [if_neg hzero]
    by_cases hneg : offset < 0
    · rw [if_pos hneg]
      simp only [readOffset, hread, Option.map_some, Option.some.injEq]
      omega
    · rw [if_neg hneg]
      simp only [readOffset, hread, Option.some.injEq]
      omega

theorem readFraction_fractionChars {us : ℕ} (hus : us < 1000000) (offset : ℤ) :
    readFraction (fractionChars us ++ offsetChars offset) = some (us, offsetChars offset) := by
  unfold fractionChars
  by_cases hzero : us = 0
  · rw [if_pos hzero, hzero, List.nil_append]
    unfold offsetChars
    split_ifs <;> rfl
  · rw [if_neg hzero]
    exact readDigits_zeroPad (by decide) hus _

theorem readTime_timeChars {time : ℕ} (h : time < 86400000000) (offset : ℤ) :
    readTime (timeChars time ++ offsetChars offset) = some (time, offsetChars offset) := by
  have eh := readDigits_zeroPad (w := 2) (n := time / 3600000000) (by decide) (by omega)
  have em := readDigits_zeroPad (w := 2) (n := time / 60000000 % 60) (by decide) (by omega)
  have es := readDigits_zeroPad (w := 2) (n := time / 1000000 % 60) (by decide) (by omega)
  have ef := readFraction_fractionChars (show time % 1000000 < 1000000 by omega) offset
  have hbounds : time / 3600000000 < 24 ∧ time / 60000000 % 60 < 60 ∧ time / 1000000 % 60 < 60 := by omega
  have hsum : ((time / 3600000000 * 60 + time / 60000000 % 60) * 60 + time / 1000000 % 60) * 1000000 +
      time % 1000000 = time := by omega
  simp only [readTime, timeChars, List.append_assoc, List.cons_append, eh, em, es, ef, readChar_self,
    Option.bind_eq_bind, Option.bind_some, hbounds, and_self, if_true, hsum]

theorem datetimeFromisoformat_isoDatetime {offset : ℤ} (hoffset : ClockOffset offset) {t : Instant}
    (ht : Date.InRange (Instant.date (localTime offset t))) :
    datetimeFromisoformat (isoDatetime offset t) = .ok t := by
  have hdate := readDate_isoChars ht ('T' :: (timeChars (localTime offset t % 86400000000).toNat ++
    offsetChars offset))
  have htime := readTime_timeChars (show (localTime offset t % 86400000000).toNat < 86400000000 by omega) offset
  have hday : ∀ u : ℤ, (u / 86400000000 + 719163 - 719163) * 86400000000 + ((u % 86400000000).toNat : ℤ) = u := by
    omega
  have hsum : (Instant.date (localTime offset t) - 719163) * 86400000000 +
      ((localTime offset t % 86400000000).toNat : ℤ) - offset * 60000000 = t := by
    rw [Instant.date, hday, localTime, add_sub_cancel_right]
  have hread : readDatetime (isoDatetime offset t).toList = some t := by
    rw [isoDatetime, String.toList_ofList]
    simp only [readDatetime, isoDatetimeChars, hdate, List.tail?_cons, htime, readOffset_offsetChars hoffset,
      Option.bind_eq_bind, Option.bind_some, hsum]
  rw [datetimeFromisoformat, hread]

example : isoDatetime 120 1785837600000000 = "2026-08-04T12:00:00+02:00" := by decide +kernel

end PriceEngine
