import Mathlib.Data.Int.Notation
import Mathlib.Data.List.Basic
import Mathlib.Data.Nat.Notation
import Mathlib.Tactic.SplitIfs

/-!
# Dates, instants and ISO dates

A `Date` is a proleptic Gregorian ordinal (day 1 is 0001-01-01), so adding days
and subtracting dates is integer arithmetic; an `Instant` counts microseconds
since 1970-01-01 UTC. `isoformat` writes a date as text. Two dates are written
alike only if they are equal, and the text holds nothing but digits and `-`.
-/

namespace PriceEngine

abbrev Date := ℤ

abbrev Instant := ℤ

/-- `datetime.date()` of a UTC instant; 719163 is the ordinal of 1970-01-01. -/
def Instant.date (t : Instant) : Date := t / 86400000000 + 719163

theorem Instant.date_mono {t u : Instant} (h : t ≤ u) : Instant.date t ≤ Instant.date u :=
  Int.add_le_add_right (Int.ediv_le_ediv (by decide) h) _

/-! ## Year, month and day of an ordinal -/

def isLeap (y : ℤ) : Bool := y % 4 = 0 ∧ (y % 100 ≠ 0 ∨ y % 400 = 0)

def daysBeforeYear (y : ℤ) : ℤ := (y - 1) * 365 + (y - 1) / 4 - (y - 1) / 100 + (y - 1) / 400

def daysBeforeMonth (leap : Bool) (m : ℕ) : ℤ :=
  [0, 0, 31, 59, 90, 120, 151, 181, 212, 243, 273, 304, 334].getD m 0 + if 2 < m ∧ leap then 1 else 0

def toordinal (y : ℤ) (m : ℕ) (day : ℤ) : Date :=
  daysBeforeYear y + daysBeforeMonth (isLeap y) m + day

/-- The year of a date and its day in the year, counted from 0. -/
def yearAndDay (d : ℤ) : ℤ × ℤ :=
  let n := d - 1
  let n400 := n / 146097
  let n := n % 146097
  let n100 := min 3 (n / 36524)
  let n := n - n100 * 36524
  let n4 := n / 1461
  let n := n % 1461
  let n1 := min 3 (n / 365)
  (n400 * 400 + n100 * 100 + n4 * 4 + n1 + 1, n - n1 * 365)

def monthOf (leap : Bool) (n : ℤ) : ℕ :=
  if n < daysBeforeMonth leap 2 then 1
  else if n < daysBeforeMonth leap 3 then 2
  else if n < daysBeforeMonth leap 4 then 3
  else if n < daysBeforeMonth leap 5 then 4
  else if n < daysBeforeMonth leap 6 then 5
  else if n < daysBeforeMonth leap 7 then 6
  else if n < daysBeforeMonth leap 8 then 7
  else if n < daysBeforeMonth leap 9 then 8
  else if n < daysBeforeMonth leap 10 then 9
  else if n < daysBeforeMonth leap 11 then 10
  else if n < daysBeforeMonth leap 12 then 11
  else 12

def Date.year (d : Date) : ℤ := (yearAndDay d).1

def Date.month (d : Date) : ℕ := monthOf (isLeap (Date.year d)) (yearAndDay d).2

def Date.day (d : Date) : ℤ :=
  (yearAndDay d).2 - daysBeforeMonth (isLeap (Date.year d)) (Date.month d) + 1

theorem daysBeforeYear_yearAndDay (d : ℤ) :
    daysBeforeYear (yearAndDay d).1 + (yearAndDay d).2 + 1 = d := by
  unfold daysBeforeYear yearAndDay
  dsimp only
  generalize hn : d - 1 = n
  generalize h400 : n / 146097 = n400
  generalize hr : n % 146097 = r
  generalize h100 : min 3 (r / 36524) = n100
  generalize hr' : r - n100 * 36524 = r'
  generalize h4 : r' / 1461 = n4
  generalize hs : r' % 1461 = s
  generalize h1 : min 3 (s / 365) = n1
  have hb : 0 ≤ n4 ∧ n4 ≤ 24 := by omega
  have hc : 0 ≤ n100 ∧ n100 ≤ 3 ∧ 0 ≤ n1 ∧ n1 ≤ 3 := by omega
  have e4 : (n400 * 400 + n100 * 100 + n4 * 4 + n1 + 1 - 1) / 4 = n400 * 100 + n100 * 25 + n4 := by omega
  have e100 : (n400 * 400 + n100 * 100 + n4 * 4 + n1 + 1 - 1) / 100 = n400 * 4 + n100 := by omega
  have e400 : (n400 * 400 + n100 * 100 + n4 * 4 + n1 + 1 - 1) / 400 = n400 := by omega
  rw [e4, e100, e400]
  omega

theorem toordinal_fields (d : Date) : toordinal (Date.year d) (Date.month d) (Date.day d) = d := by
  have := daysBeforeYear_yearAndDay d
  simp only [toordinal, Date.day, Date.year, Date] at *
  omega

/-! ## Text -/

def zeroPad (w n : ℕ) : List Char :=
  List.replicate (w - (Nat.toDigits 10 n).length) '0' ++ Nat.toDigits 10 n

/-- A signed number; dates of the calendar never need the sign. -/
def signedPad (w : ℕ) : ℤ → List Char
  | .ofNat n => zeroPad w n
  | .negSucc n => '-' :: zeroPad w (n + 1)

def isoChars (d : Date) : List Char :=
  signedPad 4 (Date.year d) ++ '-' :: (zeroPad 2 (Date.month d) ++ '-' :: signedPad 2 (Date.day d))

def isoformat (d : Date) : String := String.ofList (isoChars d)

theorem zeroPad_injective (w : ℕ) : Function.Injective (zeroPad w) := by
  intro a b h
  have := congrArg (Nat.ofDigitChars 10 · 0) h
  simpa [zeroPad, Nat.ofDigitChars_append, Nat.ofDigitChars_replicate_zero] using this

theorem isDigit_of_mem_zeroPad {w n : ℕ} {c : Char} (h : c ∈ zeroPad w n) : c.isDigit = true := by
  rcases List.mem_append.mp h with h | h
  · rw [(List.mem_replicate.mp h).2]; decide
  · exact Nat.isDigit_of_mem_toDigits (by decide) (by decide) h

theorem dash_notMem_zeroPad (w n : ℕ) : '-' ∉ zeroPad w n := fun h => by
  have := isDigit_of_mem_zeroPad h
  exact absurd this (by decide)

theorem signedPad_injective (w : ℕ) : Function.Injective (signedPad w) := by
  intro a b h
  cases a <;> cases b <;> simp only [signedPad] at h
  · rw [zeroPad_injective w h]
  · exact absurd (h ▸ List.mem_cons_self ..) (dash_notMem_zeroPad w _)
  · exact absurd (h.symm ▸ List.mem_cons_self ..) (dash_notMem_zeroPad w _)
  · have := zeroPad_injective w (List.cons.inj h).2
    rw [Nat.succ.inj this]

theorem append_cons_inj_left {α : Type*} {a : α} : ∀ {x y u v : List α}, a ∉ x → a ∉ y →
    x ++ a :: u = y ++ a :: v → x = y ∧ u = v
  | [], [], _, _, _, _, h => ⟨rfl, (List.cons.inj h).2⟩
  | [], _ :: _, _, _, _, hy, h => absurd ((List.cons.inj h).1 ▸ List.mem_cons_self ..) hy
  | _ :: _, [], _, _, hx, _, h => absurd ((List.cons.inj h).1 ▸ List.mem_cons_self ..) hx
  | b :: x, c :: y, _, _, hx, hy, h => by
    obtain ⟨hbc, ht⟩ := List.cons.inj h
    obtain ⟨hxy, huv⟩ := append_cons_inj_left (fun m => hx (List.mem_cons_of_mem _ m))
      (fun m => hy (List.mem_cons_of_mem _ m)) ht
    exact ⟨by rw [hbc, hxy], huv⟩

theorem signedPad_append_inj {w : ℕ} {k l : ℤ} {u v : List Char}
    (h : signedPad w k ++ '-' :: u = signedPad w l ++ '-' :: v) : k = l ∧ u = v := by
  have hz : ∀ n (r t : List Char), '-' :: r ≠ zeroPad w n ++ '-' :: t ∨ zeroPad w n = [] := by
    intro n r t
    cases hn : zeroPad w n with
    | nil => exact Or.inr rfl
    | cons c cs =>
      refine Or.inl fun e => dash_notMem_zeroPad w n ?_
      rw [hn, ← (List.cons.inj e).1]
      exact List.mem_cons_self ..
  have hne : ∀ n, zeroPad w n ≠ [] := fun n e => by
    have := congrArg List.length e
    have hd := Nat.length_toDigits_pos (b := 10) (n := n)
    simp only [zeroPad, List.length_append, List.length_replicate, List.length_nil] at this
    omega
  cases k with
  | ofNat m =>
    cases l with
    | ofNat n =>
      obtain ⟨e, huv⟩ := append_cons_inj_left (dash_notMem_zeroPad w m) (dash_notMem_zeroPad w n) h
      exact ⟨by rw [zeroPad_injective w e], huv⟩
    | negSucc n => exact ((hz m _ u).resolve_right (hne m) h.symm).elim
  | negSucc m =>
    cases l with
    | ofNat n => exact ((hz n _ v).resolve_right (hne n) h).elim
    | negSucc n =>
      obtain ⟨e, huv⟩ := append_cons_inj_left (dash_notMem_zeroPad w _) (dash_notMem_zeroPad w _)
        (List.cons.inj h).2
      exact ⟨by rw [Nat.succ.inj (zeroPad_injective w e)], huv⟩

theorem isoChars_injective : Function.Injective isoChars := by
  intro d e h
  obtain ⟨hy, h⟩ := signedPad_append_inj h
  obtain ⟨hm, hd⟩ := append_cons_inj_left (dash_notMem_zeroPad _ _) (dash_notMem_zeroPad _ _) h
  rw [← toordinal_fields d, ← toordinal_fields e, hy, zeroPad_injective _ hm, signedPad_injective _ hd]

theorem isoChars_digits {d : Date} {c : Char} (h : c ∈ isoChars d) : c.isDigit = true ∨ c = '-' := by
  have hs : ∀ {w : ℕ} {k : ℤ}, c ∈ signedPad w k → c.isDigit = true ∨ c = '-' := by
    intro w k hk
    cases k with
    | ofNat n => exact Or.inl (isDigit_of_mem_zeroPad hk)
    | negSucc n =>
      rcases List.mem_cons.mp hk with rfl | hk
      · exact Or.inr rfl
      · exact Or.inl (isDigit_of_mem_zeroPad hk)
  simp only [isoChars, List.mem_append, List.mem_cons] at h
  rcases h with h | rfl | h | rfl | h
  · exact hs h
  · exact Or.inr rfl
  · exact Or.inl (isDigit_of_mem_zeroPad h)
  · exact Or.inr rfl
  · exact hs h

theorem toList_isoformat (d : Date) : (isoformat d).toList = isoChars d := by simp [isoformat]

theorem bar_notMem_isoChars (d : Date) : '|' ∉ isoChars d := fun h => by
  rcases isoChars_digits h with h | h <;> exact absurd h (by decide)

theorem colon_notMem_isoChars (d : Date) : ':' ∉ isoChars d := fun h => by
  rcases isoChars_digits h with h | h <;> exact absurd h (by decide)

/-- A text and a date make a key that is split at the last sign no date contains. -/
theorem append_cons_isoChars_inj {c : Char} (hc : ∀ d, c ∉ isoChars d) {a b : List Char} {d e : Date}
    (h : a ++ c :: isoChars d = b ++ c :: isoChars e) : a = b ∧ d = e := by
  have h' := congrArg List.reverse h
  simp only [List.reverse_append, List.reverse_cons, List.append_assoc, List.singleton_append] at h'
  have hrev : ∀ d, c ∉ (isoChars d).reverse := fun d hm => hc d (List.mem_reverse.mp hm)
  obtain ⟨hd, ha⟩ := append_cons_inj_left (hrev d) (hrev e) h'
  exact ⟨List.reverse_injective ha, isoChars_injective (List.reverse_injective hd)⟩

example : isoformat (toordinal 2026 9 5) = "2026-09-05" := by decide +kernel

end PriceEngine
