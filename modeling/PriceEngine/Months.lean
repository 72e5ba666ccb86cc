import PriceEngine.IsoText

/-!
# Calendar months

A month is an interval of days, and a date lies in the month of its year and
month fields and in no other. The billing periods of `mock-pm-app` are found
from the first day of a month: its day 28 and four days more lie in the next
month, whose first day ends the period.
-/

namespace PriceEngine

/-! ## Years -/

theorem daysBeforeYear_mono {y z : ℤ} (h : y ≤ z) : daysBeforeYear y ≤ daysBeforeYear z := by
  unfold daysBeforeYear
  omega

theorem daysBeforeYear_succ (y : ℤ) :
    daysBeforeYear (y + 1) = daysBeforeYear y + 365 + if isLeap y then 1 else 0 := by
  have hleap : isLeap y = true ↔ y % 4 = 0 ∧ (y % 100 ≠ 0 ∨ y % 400 = 0) := by simp [isLeap]
  unfold daysBeforeYear
  by_cases h : isLeap y = true
  · have h' := hleap.mp h
    rw [if_pos h]
    omega
  · have h' := mt hleap.mpr h
    rw [if_neg h]
    omega

theorem year_interval (d : ℤ) :
    daysBeforeYear (Date.year d) < d ∧ d ≤ daysBeforeYear (Date.year d + 1) := by
  have hfields := daysBeforeYear_yearAndDay d
  have hbounds := dayOfYear_bounds d
  refine ⟨by unfold Date.year; omega, ?_⟩
  clear hfields hbounds
  unfold Date.year yearAndDay daysBeforeYear
  dsimp only
  generalize hn : d - 1 = n
  generalize h400 : n / 146097 = n400
  generalize hr : n % 146097 = r
  generalize h100 : min 3 (r / 36524) = n100
  generalize hr' : r - n100 * 36524 = r'
  generalize h4 : r' / 1461 = n4
  generalize hs : r' % 1461 = s
  generalize h1 : min 3 (s / 365) = n1
  have hb : 0 ≤ n4 ∧ n4 ≤ 24 := by omega
  have hc : 0 ≤ n100 ∧ n100 ≤ 3 ∧ 0 ≤ n1 ∧ n1 ≤ 3 := by omega
  have hshort : n100 < 3 → n4 = 24 → s ≤ 1459 := by omega
  have hday : s ≤ n1 * 365 + 364 ∨ n1 = 3 ∧ s = 1460 := by omega
  have e4 : (n400 * 400 + n100 * 100 + n4 * 4 + n1 + 1 + 1 - 1) / 4 =
      n400 * 100 + n100 * 25 + n4 + (n1 + 1) / 4 := by omega
  have e100 : (n400 * 400 + n100 * 100 + n4 * 4 + n1 + 1 + 1 - 1) / 100 =
      n400 * 4 + n100 + (n4 * 4 + n1 + 1) / 100 := by omega
  have e400 : (n400 * 400 + n100 * 100 + n4 * 4 + n1 + 1 + 1 - 1) / 400 =
      n400 + (n100 * 100 + n4 * 4 + n1 + 1) / 400 := by omega
  rw [e4, e100, e400]
  -- a 366th day ends a cycle of 4 years that no shorter century cuts
  have hcycle : s + 1 ≤ n1 * 365 + 365 + (n1 + 1) / 4 - (n4 * 4 + n1 + 1) / 100 +
      (n100 * 100 + n4 * 4 + n1 + 1) / 400 := by
    clear h1 hs h4 hr' h100 hr h400 hn e4 e100 e400
    rcases hday with hday | ⟨rfl, rfl⟩
    · by_cases hlast : n1 = 3
      · subst hlast
        omega
      · have h4 : (n1 + 1) / 4 = 0 := by omega
        have h100 : (n4 * 4 + n1 + 1) / 100 = 0 := by omega
        have h400 : 0 ≤ (n100 * 100 + n4 * 4 + n1 + 1) / 400 := by omega
        omega
    · omega
  omega

theorem year_eq_iff {d y : ℤ} : Date.year d = y ↔ daysBeforeYear y < d ∧ d ≤ daysBeforeYear (y + 1) := by
  obtain ⟨hlt, hle⟩ := year_interval d
  refine ⟨fun h => h ▸ ⟨hlt, hle⟩, fun ⟨h, h'⟩ => ?_⟩
  rcases Int.lt_trichotomy (Date.year d) y with hy | hy | hy
  · have := daysBeforeYear_mono (show Date.year d + 1 ≤ y by omega)
    omega
  · exact hy
  · have := daysBeforeYear_mono (show y + 1 ≤ Date.year d by omega)
    omega

/-! ## Months of a year -/

def daysInMonth (leap : Bool) (m : ℕ) : ℤ :=
  [0, 31, 28, 31, 30, 31, 30, 31, 31, 30, 31, 30, 31].getD m 0 + if m = 2 ∧ leap then 1 else 0

theorem daysInMonth_bounds (leap : Bool) {m : ℕ} (hm : 1 ≤ m ∧ m ≤ 12) :
    28 ≤ daysInMonth leap m ∧ daysInMonth leap m ≤ 31 := by
  have hall : ∀ (leap : Bool) (m : Fin 12), 28 ≤ daysInMonth leap (m + 1) ∧ daysInMonth leap (m + 1) ≤ 31 := by decide
  have := hall leap ⟨m - 1, by omega⟩
  rwa [show ((⟨m - 1, by omega⟩ : Fin 12) : ℕ) + 1 = m by simp only; omega] at this

theorem daysBeforeMonth_succ {leap : Bool} {m : ℕ} (hm : 1 ≤ m ∧ m < 12) :
    daysBeforeMonth leap (m + 1) = daysBeforeMonth leap m + daysInMonth leap m := by
  have hall : ∀ (leap : Bool) (m : Fin 11), daysBeforeMonth leap (m + 1 + 1) =
      daysBeforeMonth leap (m + 1) + daysInMonth leap (m + 1) := by decide
  have := hall leap ⟨m - 1, by omega⟩
  rwa [show ((⟨m - 1, by omega⟩ : Fin 11) : ℕ) + 1 = m by simp only; omega] at this

theorem daysBeforeMonth_nonneg {leap : Bool} {m : ℕ} (hm : 1 ≤ m ∧ m ≤ 12) : 0 ≤ daysBeforeMonth leap m := by
  obtain ⟨hl, hr⟩ := hm
  induction m, hl using Nat.le_induction with
  | base => cases leap <;> decide
  | succ m hpos ih =>
    have hlen := daysInMonth_bounds leap (m := m) ⟨hpos, by omega⟩
    rw [daysBeforeMonth_succ ⟨hpos, by omega⟩]
    have := ih (by omega)
    omega

theorem daysBeforeMonth_twelve (leap : Bool) :
    daysBeforeMonth leap 12 + daysInMonth leap 12 = 365 + if leap then 1 else 0 := by
  cases leap <;> rfl

theorem daysBeforeMonth_mono (leap : Bool) {l m : ℕ} (h : l < m) (hl : 1 ≤ l) (hm : m ≤ 12) :
    daysBeforeMonth leap l + daysInMonth leap l ≤ daysBeforeMonth leap m := by
  induction m, h using Nat.le_induction with
  | base => rw [daysBeforeMonth_succ ⟨hl, by omega⟩]
  | succ m hlt ih =>
    have hlen := daysInMonth_bounds leap (m := m) ⟨by omega, by omega⟩
    rw [daysBeforeMonth_succ ⟨by omega, by omega⟩]
    have := ih (by omega)
    omega

theorem monthOf_interval {leap : Bool} {n : ℤ} (hn : 0 ≤ n ∧ n < 365 + if leap then 1 else 0) :
    daysBeforeMonth leap (monthOf leap n) ≤ n ∧
      n < daysBeforeMonth leap (monthOf leap n) + daysInMonth leap (monthOf leap n) := by
  have hall : ∀ k : Fin 365, daysBeforeMonth false (monthOf false k) ≤ k ∧
      (k : ℤ) < daysBeforeMonth false (monthOf false k) + daysInMonth false (monthOf false k) := by
    decide +kernel
  have hleap : ∀ k : Fin 366, daysBeforeMonth true (monthOf true k) ≤ k ∧
      (k : ℤ) < daysBeforeMonth true (monthOf true k) + daysInMonth true (monthOf true k) := by
    decide +kernel
  obtain ⟨k, rfl⟩ := Int.eq_ofNat_of_zero_le hn.1
  cases leap with
  | false => exact hall ⟨k, by have := hn.2; simp only [Bool.false_eq_true, if_false] at this; omega⟩
  | true => exact hleap ⟨k, by have := hn.2; simp only [if_true] at this; omega⟩

theorem monthOf_mem (leap : Bool) {n : ℤ} (hn : 0 ≤ n ∧ n ≤ 365) : 1 ≤ monthOf leap n ∧ monthOf leap n ≤ 12 := by
  have hall : ∀ (leap : Bool) (k : Fin 366), 1 ≤ monthOf leap k ∧ monthOf leap k ≤ 12 := by decide +kernel
  obtain ⟨k, rfl⟩ := Int.eq_ofNat_of_zero_le hn.1
  exact hall leap ⟨k, by omega⟩

theorem monthOf_eq_iff {leap : Bool} {m : ℕ} (hm : 1 ≤ m ∧ m ≤ 12) {n : ℤ}
    (hn : 0 ≤ n ∧ n < 365 + if leap then 1 else 0) : monthOf leap n = m ↔
    daysBeforeMonth leap m ≤ n ∧ n < daysBeforeMonth leap m + daysInMonth leap m := by
  have hinterval := monthOf_interval hn
  have hmem := monthOf_mem leap (n := n) ⟨hn.1, by have := hn.2; split_ifs at this <;> omega⟩
  refine ⟨fun h => h ▸ hinterval, fun h => ?_⟩
  rcases Nat.lt_trichotomy (monthOf leap n) m with hlt | heq | hgt
  · have := daysBeforeMonth_mono leap hlt hmem.1 hm.2
    omega
  · exact heq
  · have := daysBeforeMonth_mono leap hgt hm.1 hmem.2
    omega

theorem month_mem (d : ℤ) : 1 ≤ Date.month d ∧ Date.month d ≤ 12 :=
  monthOf_mem _ (dayOfYear_bounds d)

/-! ## Months of the calendar -/

def firstDay (y : ℤ) (m : ℕ) : ℤ := toordinal y m 1

theorem firstDay_eq (y : ℤ) (m : ℕ) : firstDay y m = daysBeforeYear y + daysBeforeMonth (isLeap y) m + 1 := rfl

/-- The dates of a month are an interval. -/
theorem fields_eq_iff {d y : ℤ} {m : ℕ} (hm : 1 ≤ m ∧ m ≤ 12) : Date.year d = y ∧ Date.month d = m ↔
    firstDay y m ≤ d ∧ d < firstDay y m + daysInMonth (isLeap y) m := by
  have hfields : daysBeforeYear (Date.year d) + (yearAndDay d).2 + 1 = d := daysBeforeYear_yearAndDay d
  have hfirst := (dayOfYear_bounds d).1
  have hlast := (year_interval d).2
  rw [daysBeforeYear_succ] at hlast
  have hday : 0 ≤ (yearAndDay d).2 ∧ (yearAndDay d).2 < 365 + if isLeap (Date.year d) then 1 else 0 := by omega
  rw [firstDay_eq]
  constructor
  · rintro ⟨rfl, hmonth⟩
    have := (monthOf_eq_iff hm hday).mp hmonth
    omega
  · rintro ⟨hle, hlt⟩
    have hend : daysBeforeMonth (isLeap y) m + daysInMonth (isLeap y) m ≤ 365 + if isLeap y then 1 else 0 := by
      rw [← daysBeforeMonth_twelve]
      rcases Nat.lt_or_ge m 12 with hlt | hge
      · have := daysBeforeMonth_mono (isLeap y) hlt hm.1 (le_refl 12)
        have := daysInMonth_bounds (isLeap y) (m := 12) (by omega)
        omega
      · rw [show m = 12 by omega]
    have hstart : 0 ≤ daysBeforeMonth (isLeap y) m := daysBeforeMonth_nonneg hm
    have hyear : Date.year d = y := year_eq_iff.mpr ⟨by omega, by rw [daysBeforeYear_succ]; omega⟩
    subst hyear
    exact ⟨rfl, (monthOf_eq_iff hm hday).mpr (by omega)⟩

theorem fields_first {y : ℤ} {m : ℕ} (hm : 1 ≤ m ∧ m ≤ 12) :
    Date.year (firstDay y m) = y ∧ Date.month (firstDay y m) = m := by
  have := daysInMonth_bounds (isLeap y) hm
  exact (fields_eq_iff hm).mpr (by omega)

/-! ## Periods -/

/-- `date.replace(day=…)`. -/
def replaceDay (d day : ℤ) : ℤ := toordinal (Date.year d) (Date.month d) day

/-- The period that starts on the first day of a month. -/
def periodFrom (start : ℤ) : ℤ × ℤ := (start, replaceDay (replaceDay start 28 + 4) 1 - 1)

theorem replaceDay_eq (d day : ℤ) : replaceDay d day = firstDay (Date.year d) (Date.month d) + (day - 1) := by
  unfold replaceDay toordinal
  rw [firstDay_eq]
  omega

/-- The four days after the 28th reach the next month and stay in it. -/
theorem nextMonth_eq {y : ℤ} {m : ℕ} (hm : 1 ≤ m ∧ m ≤ 12) :
    replaceDay (replaceDay (firstDay y m) 28 + 4) 1 = firstDay y m + daysInMonth (isLeap y) m := by
  have hlen := daysInMonth_bounds (isLeap y) hm
  obtain ⟨hy, hm'⟩ := fields_first (y := y) hm
  have h28 : replaceDay (firstDay y m) 28 + 4 = firstDay y m + 31 := by
    rw [replaceDay_eq, hy, hm']
    omega
  rw [h28]
  by_cases hlast : m = 12
  · subst hlast
    have hnext : firstDay (y + 1) 1 = firstDay y 12 + daysInMonth (isLeap y) 12 := by
      have htwelve := daysBeforeMonth_twelve (isLeap y)
      have hone : daysBeforeMonth (isLeap (y + 1)) 1 = 0 := by cases isLeap (y + 1) <;> rfl
      rw [firstDay_eq, firstDay_eq, daysBeforeYear_succ, hone]
      omega
    have hlen' := daysInMonth_bounds (isLeap (y + 1)) (m := 1) (by omega)
    obtain ⟨hy', hm''⟩ := (fields_eq_iff (d := firstDay y 12 + 31) (y := y + 1) (m := 1) (by omega)).mpr (by omega)
    rw [replaceDay_eq, hy', hm'', hnext]
    omega
  · have hnext : firstDay y (m + 1) = firstDay y m + daysInMonth (isLeap y) m := by
      rw [firstDay_eq, firstDay_eq, daysBeforeMonth_succ (by omega)]
      omega
    have hlen' := daysInMonth_bounds (isLeap y) (m := m + 1) (by omega)
    obtain ⟨hy', hm''⟩ := (fields_eq_iff (d := firstDay y m + 31) (y := y) (m := m + 1) (by omega)).mpr (by omega)
    rw [replaceDay_eq, hy', hm'', hnext]
    omega

/-- The period of a month holds its days and no others. -/
theorem mem_periodFrom {y : ℤ} {m : ℕ} (hm : 1 ≤ m ∧ m ≤ 12) {d : ℤ} :
    (periodFrom (firstDay y m)).1 ≤ d ∧ d ≤ (periodFrom (firstDay y m)).2 ↔
      Date.year d = y ∧ Date.month d = m := by
  rw [fields_eq_iff hm, periodFrom, nextMonth_eq hm]
  constructor
  · rintro ⟨h, h'⟩
    exact ⟨h, by dsimp only at h'; omega⟩
  · rintro ⟨h, h'⟩
    exact ⟨h, by dsimp only; omega⟩

end PriceEngine

namespace PriceEngine.MockPmApp

def currentMonthBounds (today : ℤ) : ℤ × ℤ := periodFrom (replaceDay today 1)

/-- `while month <= 0: month += 12; year -= 1`. -/
def normalizeMonth (year month : ℤ) : ℤ × ℤ :=
  if month ≤ 0 then normalizeMonth (year - 1) (month + 12) else (year, month)
termination_by (1 - month).toNat
decreasing_by omega

/-- The first day of the month so many months before today's. -/
def monthStart (monthsAgo : ℕ) (today : ℤ) : ℤ :=
  let (year, month) := normalizeMonth (Date.year today) (Date.month today - monthsAgo)
  firstDay year month.toNat

def monthBounds (monthsAgo : ℕ) (today : ℤ) : ℤ × ℤ := periodFrom (monthStart monthsAgo today)

theorem normalizeMonth_spec (year month : ℤ) (h : month ≤ 12) :
    (normalizeMonth year month).1 * 12 + (normalizeMonth year month).2 = year * 12 + month ∧
      1 ≤ (normalizeMonth year month).2 ∧ (normalizeMonth year month).2 ≤ 12 := by
  induction year, month using normalizeMonth.induct with
  | case1 year month hle ih =>
    have := ih (by omega)
    rw [normalizeMonth, if_pos hle]
    omega
  | case2 year month hpos =>
    rw [normalizeMonth, if_neg hpos]
    omega

/-- Months counted from year 0. -/
def monthIndex (d : ℤ) : ℤ := Date.year d * 12 + Date.month d

theorem monthStart_eq (monthsAgo : ℕ) (today : ℤ) : ∃ (y : ℤ) (m : ℕ), (1 ≤ m ∧ m ≤ 12) ∧
    monthStart monthsAgo today = firstDay y m ∧ y * 12 + m = monthIndex today - monthsAgo := by
  have hm := month_mem today
  obtain ⟨hsum, hlow, hhigh⟩ := normalizeMonth_spec (Date.year today) (Date.month today - monthsAgo) (by omega)
  refine ⟨_, _, ⟨?_, ?_⟩, rfl, ?_⟩
  · omega
  · omega
  · unfold monthIndex
    omega

theorem monthIndex_monthStart (monthsAgo : ℕ) (today : ℤ) :
    monthIndex (monthStart monthsAgo today) = monthIndex today - monthsAgo := by
  obtain ⟨y, m, hm, hstart, hindex⟩ := monthStart_eq monthsAgo today
  obtain ⟨hy, hm'⟩ := fields_first (y := y) hm
  rw [hstart, monthIndex, hy, hm', hindex]

theorem monthIndex_eq_iff {d e : ℤ} :
    monthIndex d = monthIndex e ↔ Date.year d = Date.year e ∧ Date.month d = Date.month e := by
  have := month_mem d
  have := month_mem e
  unfold monthIndex
  omega

/-- `start` begins a month, and the period from it is that month. -/
def IsMonth (period : ℤ × ℤ) : Prop :=
  period = periodFrom period.1 ∧ ∀ d : ℤ, period.1 ≤ d ∧ d ≤ period.2 ↔ monthIndex d = monthIndex period.1

theorem isMonth_periodFrom {y : ℤ} {m : ℕ} (hm : 1 ≤ m ∧ m ≤ 12) : IsMonth (periodFrom (firstDay y m)) := by
  obtain ⟨hy, hm'⟩ := fields_first (y := y) hm
  refine ⟨rfl, fun d => ?_⟩
  rw [mem_periodFrom hm, monthIndex_eq_iff]
  show _ ↔ Date.year d = Date.year (firstDay y m) ∧ Date.month d = Date.month (firstDay y m)
  rw [hy, hm']

theorem isMonth_monthBounds (monthsAgo : ℕ) (today : ℤ) : IsMonth (monthBounds monthsAgo today) := by
  obtain ⟨y, m, hm, hstart, -⟩ := monthStart_eq monthsAgo today
  rw [monthBounds, hstart]
  exact isMonth_periodFrom hm

theorem isMonth_currentMonthBounds (today : ℤ) : IsMonth (currentMonthBounds today) :=
  isMonth_periodFrom (month_mem today)

theorem IsMonth.end_mem {period : ℤ × ℤ} (h : IsMonth period) : period.1 ≤ period.2 ∧ period.2 ≤ period.2 :=
  ⟨((h.2 period.1).mpr rfl).2, le_refl _⟩

/-- Months that share a day are one. -/
theorem IsMonth.eq_of_mem {p q : ℤ × ℤ} (hp : IsMonth p) (hq : IsMonth q) {d : ℤ} (hdp : p.1 ≤ d ∧ d ≤ p.2)
    (hdq : q.1 ≤ d ∧ d ≤ q.2) : p = q := by
  have hindex : monthIndex p.1 = monthIndex q.1 := ((hp.2 d).mp hdp).symm.trans ((hq.2 d).mp hdq)
  have hpq : p.1 ≤ q.1 := ((hp.2 q.1).mpr hindex.symm).1
  have hqp : q.1 ≤ p.1 := ((hq.2 p.1).mpr hindex).1
  rw [hp.1, hq.1, le_antisymm hpq hqp]

example : currentMonthBounds (toordinal 2028 2 17) = (toordinal 2028 2 1, toordinal 2028 2 29) := by decide +kernel

end PriceEngine.MockPmApp
