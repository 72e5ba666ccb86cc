import Mathlib.Data.Int.ConditionallyCompleteOrder
import Mathlib.Data.Nat.ModEq
import Mathlib.Data.PNat.Basic
import Mathlib.Order.Monotone.Basic
import PriceEngine.Calendar
import PriceEngine.Engine

/-!
# The ticks of the market ingestor

Each tick publishes one night for all segments. The night's distance from
today goes round the forecast days with a counter of ticks, today comes from
the clock. While the date stays, `F` consecutive ticks publish the next `F`
nights. When the date changes, every later distance starts from the new day,
and the night the counter was about to reach is passed over: it is published
`F` ticks before and `F - 1` ticks after the midnight. Only a midnight at the
counter's own turn passes over no night.
-/

namespace PriceEngine.MarketIngestor

/-! ## One tick -/

structure Segment where
  city : String
  neighborhood : String
  propertyType : String
  bedrooms : ℕ

def partitionKey (segment : Segment) : String :=
  segment.city ++ "|" ++ segment.neighborhood ++ "|" ++ segment.propertyType ++ "|" ++ toString segment.bedrooms

/-- A published record; the rates are drawn at random and left out. -/
structure Record where
  segment : Segment
  partitionKey : String
  targetDate : Date
  platform : Option Platform
  collectedAt : Instant

def channelPlatforms : List Platform := [.airbnb, .booking, .vrbo]

def offsetDays (forecastDays : ℕ+) (tickCount : ℕ) : ℕ := 1 + tickCount % forecastDays

def targetDate (forecastDays : ℕ+) (now : Instant) (tickCount : ℕ) : Date :=
  now.date + offsetDays forecastDays tickCount

def runTick (segments : List Segment) (forecastDays : ℕ+) (now : Instant) (tickCount : ℕ) : List Record :=
  segments.flatMap fun segment =>
    (none :: channelPlatforms.map some).map fun platform =>
      ⟨segment, partitionKey segment, targetDate forecastDays now tickCount, platform, now⟩

theorem mem_runTick {segments : List Segment} {F : ℕ+} {now : Instant} {tickCount : ℕ} {r : Record} :
    r ∈ runTick segments F now tickCount ↔
      r.segment ∈ segments ∧ r.partitionKey = partitionKey r.segment ∧
        r.targetDate = targetDate F now tickCount ∧ r.platform ∈ none :: channelPlatforms.map some ∧
        r.collectedAt = now := by
  simp only [runTick, List.mem_flatMap, List.mem_map (l := none :: _)]
  constructor
  · rintro ⟨segment, hs, platform, hp, rfl⟩
    exact ⟨hs, rfl, rfl, hp, rfl⟩
  · rintro ⟨hs, hkey, hdate, hp, hnow⟩
    exact ⟨r.segment, hs, r.platform, hp, by rw [← hkey, ← hdate, ← hnow]⟩

/-! ## Going round -/

section
variable {n t i a b x : ℕ}

/-- Of `n` consecutive numbers no two have the same remainder. -/
theorem remainder_unique (ha : i ≤ a) (ha' : a < i + n) (hb : i ≤ b) (hb' : b < i + n)
    (h : (t + a) % n = (t + b) % n) : a = b := by
  have hmod : a ≡ b [MOD n] := Nat.ModEq.add_left_cancel' t h
  exact hmod.eq_of_abs_lt (abs_lt.mpr ⟨by omega, by omega⟩)

/-- Of `n` consecutive numbers one has the remainder `x`. -/
theorem exists_remainder (t i : ℕ) (hx : x < n) : ∃ a, i ≤ a ∧ a < i + n ∧ (t + a) % n = x := by
  have hpos : 0 < n := Nat.zero_lt_of_lt hx
  have hr : (t + i) % n < n := Nat.mod_lt _ hpos
  have hsplit : n * ((t + i) / n) + (t + i) % n = t + i := Nat.div_add_mod _ _
  by_cases hle : (t + i) % n ≤ x
  · refine ⟨i + (x - (t + i) % n), by omega, by omega, ?_⟩
    have e : t + (i + (x - (t + i) % n)) = n * ((t + i) / n) + x := by omega
    rw [e, Nat.mul_add_mod, Nat.mod_eq_of_lt hx]
  · refine ⟨i + (x + n - (t + i) % n), by omega, by omega, ?_⟩
    have e : t + (i + (x + n - (t + i) % n)) = n * ((t + i) / n + 1) + x := by
      rw [Nat.mul_add_one]; omega
    rw [e, Nat.mul_add_mod, Nat.mod_eq_of_lt hx]

theorem add_one_mod_eq (hn : 0 < n) : (a + 1) % n = if a % n + 1 = n then 0 else a % n + 1 := by
  have hlt : a % n < n := Nat.mod_lt _ hn
  have hsplit : a + 1 = n * (a / n) + (a % n + 1) := by
    have := Nat.div_add_mod a n
    omega
  rw [hsplit, Nat.mul_add_mod]
  split
  · rename_i h
    rw [h, Nat.mod_self]
  · rename_i h
    exact Nat.mod_eq_of_lt (by omega)

end

/-! ## The nights of a window -/

/-- The night of tick `j`, where tick `j` falls on day `day j` and the counter stands at `t + j`. -/
def nightAt (day : ℕ → ℤ) (n t j : ℕ) : ℤ := day j + 1 + ((t + j) % n : ℕ)

section
variable {day : ℕ → ℤ} {n t i k : ℕ} (hday : Monotone day) (hone : day (i + n - 1) ≤ day i + 1)
include hday hone

/-- In a window of at most one midnight each tick is on the first day or the next. -/
theorem day_of_window {j : ℕ} (hj : i ≤ j) (hj' : j < i + n) : day j = day i ∨ day j = day i + 1 := by
  have h1 : day i ≤ day j := hday hj
  have h2 : day j ≤ day (i + n - 1) := hday (by omega)
  omega

theorem day_before {j : ℕ} (hk : k + 1 < i + n) (hmid : day k < day (k + 1)) (hj : i ≤ j) (hj' : j ≤ k) :
    day j = day i := by
  have h1 : day j ≤ day k := hday hj'
  have h2 : day (k + 1) ≤ day (i + n - 1) := hday (by omega)
  have h3 : day i ≤ day j := hday hj
  omega

theorem day_after {j : ℕ} (hk : i ≤ k) (hmid : day k < day (k + 1)) (hj : k < j) (hj' : j < i + n) :
    day j = day i + 1 := by
  have h1 : day i ≤ day k := hday hk
  have h2 : day (k + 1) ≤ day j := hday hj
  have h3 : day j ≤ day (i + n - 1) := hday (by omega)
  omega

/-- The night that the counter was about to reach at midnight is not published in the window. -/
theorem night_passed_over (hk : i ≤ k) (hk' : k + 1 < i + n) (hmid : day k < day (k + 1))
    (hturn : (t + (k + 1)) % n ≠ 0) {j : ℕ} (hj : i ≤ j) (hj' : j < i + n) :
    nightAt day n t j ≠ day i + 1 + ((t + (k + 1)) % n : ℕ) := by
  intro h
  unfold nightAt at h
  rcases Nat.lt_or_ge k j with hjk | hjk
  · rw [day_after hday hone hk hmid hjk hj'] at h
    have hstep := add_one_mod_eq (a := t + k) (n := n) (by omega)
    rw [Nat.add_assoc, if_neg fun e => hturn (hstep.trans (if_pos e))] at hstep
    have hsame : (t + j) % n = (t + k) % n := by omega
    exact absurd (remainder_unique hj hj' hk (by omega) hsame) (by omega)
  · rw [day_before hday hone hk' hmid hj hjk] at h
    have hsame : (t + j) % n = (t + (k + 1)) % n := by omega
    exact absurd (remainder_unique hj hj' (by omega) hk' hsame) (by omega)

/-- Where the date changes at the counter's own turn only, no night between is passed over. -/
theorem night_published (hn : 0 < n) {d : ℤ}
    (hturn : ∀ k, i ≤ k → k + 1 < i + n → day k < day (k + 1) → n ∣ t + (k + 1))
    (hlow : day (i + n - 1) + 1 ≤ d) (hhigh : d ≤ day i + n) :
    ∃ j, i ≤ j ∧ j < i + n ∧ nightAt day n t j = d := by
  have hfirst : day i ≤ day (i + n - 1) := hday (by omega)
  obtain ⟨x, hx⟩ : ∃ x : ℕ, d = day i + 1 + x := ⟨(d - day i - 1).toNat, by omega⟩
  obtain ⟨a, ha, ha', hrem⟩ := exists_remainder t i (show x < n by omega)
  rcases day_of_window hday hone ha ha' with hda | hda
  · exact ⟨a, ha, ha', by rw [nightAt, hda, hrem, hx]⟩
  · -- `x` is reached on the second day, one night too late; `x - 1` is reached in time
    have hlast : day a ≤ day (i + n - 1) := hday (by omega)
    obtain ⟨b, hb, hb', hrem'⟩ := exists_remainder t i (show x - 1 < n by omega)
    rcases day_of_window hday hone hb hb' with hdb | hdb
    · have hab : b < a := Nat.lt_of_not_le fun hle => by
        have := hday hle
        omega
      have hstep := add_one_mod_eq (a := t + b) (n := n) (by omega)
      rw [if_neg (by omega), hrem', Nat.add_assoc] at hstep
      have hnext : b + 1 = a := remainder_unique (t := t) (by omega) (by omega) ha ha' (by omega)
      obtain ⟨m, hm⟩ := hturn b hb (by omega) (by rw [hnext]; omega)
      rw [hm, Nat.mul_mod_right] at hstep
      omega
    · exact ⟨b, hb, hb', by rw [nightAt, hdb, hrem', hx]; omega⟩

end

/-- The night passed over was published `n` ticks before the midnight and is published again `n - 1` ticks
after it, and not in between. -/
theorem night_waits {day : ℕ → ℤ} {n t k : ℕ} (hday : Monotone day) (hn : 2 ≤ n) (hk : n ≤ k + 1)
    (hone : day (k + n) ≤ day (k + 1 - n) + 1) (hmid : day k < day (k + 1)) (hturn : (t + (k + 1)) % n ≠ 0) :
    nightAt day n t (k + n) = nightAt day n t (k + 1 - n) ∧
      ∀ j, k + 1 - n < j → j < k + n → nightAt day n t j ≠ nightAt day n t (k + 1 - n) := by
  have hfirst : day (k + 1 - n) ≤ day k := hday (by omega)
  have hlast : day (k + 1) ≤ day (k + n) := hday (by omega)
  have hstep := add_one_mod_eq (a := t + k) (n := n) (by omega)
  rw [Nat.add_assoc, if_neg fun e => hturn (hstep.trans (if_pos e))] at hstep
  have hnight : nightAt day n t (k + 1 - n) = day k + 1 + ((t + (k + 1)) % n : ℕ) := by
    have hrem : (t + (k + 1)) % n = (t + (k + 1 - n)) % n := by
      rw [← Nat.add_mod_right (t + (k + 1 - n)), Nat.add_assoc, Nat.sub_add_cancel hk]
    rw [nightAt, hrem]
    omega
  refine ⟨?_, fun j hj hj' => ?_⟩
  · have hrem : (t + (k + n)) % n = (t + k) % n := by rw [← Nat.add_assoc, Nat.add_mod_right]
    rw [hnight, nightAt, hrem]
    omega
  · rw [hnight]
    -- the window that ends with the midnight, and the one that begins just before it
    rcases Nat.lt_or_ge k j with hjk | hjk
    · have h1 : day (k + n - 1) ≤ day (k + n) := hday (by omega)
      exact night_passed_over hday (by omega) le_rfl (by omega) hmid hturn (by omega) hj'
    · have h1 : day (k + 2 - n) ≤ day k := hday (by omega)
      have h2 : day (k + 1 - n) ≤ day (k + 2 - n) := hday (by omega)
      have hend : k + 2 - n + n - 1 = k + 1 := by omega
      have h := night_passed_over (i := k + 2 - n) (j := j) hday (by rw [hend]; omega) (by omega) (by omega) hmid
        hturn (by omega) (by omega)
      have hsame : day (k + 2 - n) = day k := by omega
      rwa [hsame] at h

/-! ## The nights of the ticks -/

theorem targetDate_eq_nightAt (F : ℕ+) (t : ℕ) (clock : ℕ → Instant) (j : ℕ) :
    targetDate F (clock j) (t + j) = nightAt (fun j => (clock j).date) F t j := by
  simp only [targetDate, offsetDays, nightAt]
  push_cast
  ring

section
variable {segments : List Segment} {segment : Segment} (hs : segment ∈ segments) {F : ℕ+}
include hs

theorem exists_record_iff {now : Instant} {tickCount : ℕ} {d : Date} :
    (∃ r ∈ runTick segments F now tickCount, r.segment = segment ∧ r.targetDate = d) ↔
      targetDate F now tickCount = d := by
  constructor
  · rintro ⟨r, hr, -, rfl⟩
    exact (mem_runTick.mp hr).2.2.1.symm
  · rintro rfl
    exact ⟨⟨segment, partitionKey segment, targetDate F now tickCount, none, now⟩,
      mem_runTick.mpr ⟨hs, rfl, rfl, List.mem_cons_self, rfl⟩, rfl, rfl⟩

end

/-- The ticks `i` to `i + F - 1` publish for the segment every night from the day after the last of them to
`F` days after the first. -/
def CoversHorizon (segments : List Segment) (segment : Segment) (F : ℕ+) (t : ℕ) (clock : ℕ → Instant)
    (i : ℕ) : Prop :=
  ∀ d : Date, (clock (i + F - 1)).date + 1 ≤ d → d ≤ (clock i).date + (F : ℕ) →
    ∃ j, i ≤ j ∧ j < i + F ∧
      ∃ r ∈ runTick segments F (clock j) (t + j), r.segment = segment ∧ r.targetDate = d

/-- A cycle covers its nights exactly when no midnight falls inside it but at the counter's own turn. -/
theorem coversHorizon_iff {segments : List Segment} {segment : Segment} (hs : segment ∈ segments) {F : ℕ+}
    {t : ℕ} {clock : ℕ → Instant} (hclock : Monotone clock) {i : ℕ}
    (hone : (clock (i + F - 1)).date ≤ (clock i).date + 1) :
    CoversHorizon segments segment F t clock i ↔
      ∀ k, i ≤ k → k + 1 < i + F → (clock k).date < (clock (k + 1)).date → (F : ℕ) ∣ t + (k + 1) := by
  have hday : Monotone fun j => (clock j).date := fun _ _ h => Instant.date_mono (hclock h)
  simp only [CoversHorizon, exists_record_iff hs, targetDate_eq_nightAt]
  constructor
  · intro hcovers k hk hk' hmid
    by_contra hturn
    have hrem : (t + (k + 1)) % F ≠ 0 := fun h => hturn (Nat.dvd_of_mod_eq_zero h)
    have hpos : (1 : ℤ) ≤ ((t + (k + 1)) % F : ℕ) := Nat.cast_le.mpr (Nat.pos_of_ne_zero hrem)
    have hlt : (((t + (k + 1)) % F : ℕ) : ℤ) + 1 ≤ (F : ℕ) := Nat.cast_le.mpr (Nat.mod_lt _ F.pos)
    have hlast : (clock (i + F - 1)).date = (clock i).date + 1 :=
      day_after hday hone hk hmid (show k < i + F - 1 by omega) (by omega)
    obtain ⟨j, hj, hj', he⟩ :=
      hcovers ((clock i).date + 1 + ((t + (k + 1)) % F : ℕ)) (by linarith) (by linarith)
    exact night_passed_over hday hone hk hk' hmid hrem hj hj' he
  · intro hturn d hlow hhigh
    exact night_published hday hone F.pos hturn hlow hhigh

/-! ## The default settings -/

def defaultForecastDays : ℕ+ := ⟨60, by decide⟩

def centro : Segment := ⟨"Madrid", "Centro", "studio", 0⟩

/-- One tick a minute, the first at 2026-09-04T23:30:00Z. -/
def everyMinute (j : ℕ) : Instant := 1788564600000000 + 60000000 * j

theorem everyMinute_monotone : Monotone everyMinute := fun j k h => by
  have : (j : ℤ) ≤ k := Nat.cast_le.mpr h
  unfold everyMinute
  linarith

theorem everyMinute_oneMidnight (i : ℕ) :
    (everyMinute (i + defaultForecastDays - 1)).date ≤ (everyMinute i).date + 1 := by
  have hlast : everyMinute (i + defaultForecastDays - 1) = everyMinute i + 3540000000 := by
    have : ((i + 60 - 1 : ℕ) : ℤ) = i + 59 := by omega
    change 1788564600000000 + 60000000 * ((i + 60 - 1 : ℕ) : ℤ) = _
    rw [this, everyMinute]
    ring
  have hday : ∀ x : ℤ, (x + 3540000000) / 86400000000 + 719163 ≤ x / 86400000000 + 719163 + 1 := by omega
  rw [hlast]
  exact hday (everyMinute i)

theorem october5_passed_over :
    Monotone everyMinute ∧
    (∀ i, (everyMinute (i + defaultForecastDays - 1)).date ≤ (everyMinute i).date + 1) ∧
    ¬ CoversHorizon [centro] centro defaultForecastDays 0 everyMinute 0 := by
  refine ⟨everyMinute_monotone, everyMinute_oneMidnight, fun hcovers => ?_⟩
  obtain ⟨j, -, hj, r, hr, -, hd⟩ := hcovers (toordinal 2026 10 5) (by decide +kernel) (by decide +kernel)
  have hnone : ∀ j < 60, targetDate defaultForecastDays (everyMinute j) (0 + j) ≠ toordinal 2026 10 5 := by
    decide +kernel
  exact hnone j (Nat.zero_add 60 ▸ hj) ((mem_runTick.mp hr).2.2.1 ▸ hd)

theorem nextCycle_covered : CoversHorizon [centro] centro defaultForecastDays 30 everyMinute 0 := by
  refine (coversHorizon_iff List.mem_cons_self everyMinute_monotone (everyMinute_oneMidnight 0)).mpr ?_
  intro k hk hk' hmid
  have hturn : ∀ k < 59, (everyMinute k).date < (everyMinute (k + 1)).date →
      (defaultForecastDays : ℕ) ∣ 30 + (k + 1) := by decide +kernel
  exact hturn k (by have : k + 1 < 0 + 60 := hk'; omega) hmid

end PriceEngine.MarketIngestor
