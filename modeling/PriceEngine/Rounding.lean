import Mathlib.Algebra.Order.Field.Basic
import Mathlib.Algebra.Order.Round
import Mathlib.Data.Rat.Floor
import Mathlib.Tactic.FieldSimp
import Mathlib.Tactic.Linarith
import Mathlib.Tactic.Positivity
import Mathlib.Tactic.Ring

/-!
# Decimal rounding, half to even

`pyRound x d` is `round(x, d)` on exact numbers: the nearest multiple of
`10 ^ (-d)`, a midpoint going to the even multiple. It is monotone, moves a
number by at most half a unit and leaves multiples of the unit alone.
-/

namespace PriceEngine

/-- The integer nearest to `x`; a midpoint goes to the even neighbour. -/
def roundHalfEven (x : ℚ) : ℤ :=
  let f := ⌊x⌋
  let r := x - f
  if r < 1 / 2 then f
  else if 1 / 2 < r then f + 1
  else if f % 2 = 0 then f else f + 1

def pyRound (x : ℚ) (d : ℕ) : ℚ := roundHalfEven (x * 10 ^ d) / 10 ^ d

/-! ## Integers -/

theorem roundHalfEven_bounds (x : ℚ) : ⌊x⌋ ≤ roundHalfEven x ∧ roundHalfEven x ≤ ⌊x⌋ + 1 := by
  unfold roundHalfEven
  dsimp only
  split_ifs <;> omega

theorem abs_roundHalfEven_sub_le (x : ℚ) : |(roundHalfEven x : ℚ) - x| ≤ 1 / 2 := by
  have hlo := Int.floor_le x
  have hhi := Int.lt_floor_add_one x
  unfold roundHalfEven
  dsimp only
  split_ifs <;> push_cast <;> rw [abs_le] <;> constructor <;> linarith

@[simp] theorem roundHalfEven_intCast (k : ℤ) : roundHalfEven (k : ℚ) = k := by
  simp [roundHalfEven]

theorem roundHalfEven_mono {x y : ℚ} (h : x ≤ y) : roundHalfEven x ≤ roundHalfEven y := by
  rcases (Int.floor_le_floor h).lt_or_eq with hf | hf
  · have hx := (roundHalfEven_bounds x).2
    have hy := (roundHalfEven_bounds y).1
    omega
  · -- same integer part: only the fractional parts decide
    have hr : x - ⌊x⌋ ≤ y - ⌊y⌋ := by rw [hf]; linarith
    unfold roundHalfEven
    dsimp only
    rw [hf] at hr ⊢
    split_ifs <;> first | omega | (exfalso; linarith)

theorem roundHalfEven_nonneg_iff (x : ℚ) : 0 ≤ roundHalfEven x ↔ -(1 / 2) ≤ x := by
  refine ⟨?_, ?_⟩
  · intro h
    have hx := (abs_le.mp (abs_roundHalfEven_sub_le x)).2
    have h0 : (0 : ℚ) ≤ roundHalfEven x := by exact_mod_cast h
    linarith
  · intro h
    have e : roundHalfEven (-(1 / 2)) = 0 := by decide +kernel
    rw [← e]
    exact roundHalfEven_mono h

/-! ## Midpoints -/

theorem roundHalfEven_eq {x : ℚ} {k : ℤ} (h : |x - k| < 1 / 2) : roundHalfEven x = k := by
  have hround := abs_roundHalfEven_sub_le x
  obtain ⟨hlo, hhi⟩ := abs_lt.mp h
  obtain ⟨hlo', hhi'⟩ := abs_le.mp hround
  have hlt : (roundHalfEven x : ℚ) < (k + 1 : ℤ) := by
    push_cast
    linarith
  have hgt : ((k - 1 : ℤ) : ℚ) < roundHalfEven x := by
    push_cast
    linarith
  have hlt := Int.cast_lt.mp hlt
  have hgt := Int.cast_lt.mp hgt
  omega

/-- A midpoint goes to the even neighbour. -/
theorem roundHalfEven_midpoint {x : ℚ} (h : |(roundHalfEven x : ℚ) - x| = 1 / 2) : roundHalfEven x % 2 = 0 := by
  unfold roundHalfEven at h ⊢
  dsimp only at h ⊢
  have hlo := Int.floor_le x
  have hhi := Int.lt_floor_add_one x
  split_ifs at h ⊢ with h1 h2 h3
  · rw [abs_of_nonpos (by linarith)] at h
    linarith
  · push_cast at h
    rw [abs_of_nonneg (by linarith)] at h
    linarith
  · exact h3
  · omega

theorem roundHalfEven_eq_zero {x : ℚ} (h : |x| ≤ 1 / 2) : roundHalfEven x = 0 := by
  rcases h.lt_or_eq with hlt | heq
  · exact roundHalfEven_eq (by simpa using hlt)
  · rcases eq_or_eq_neg_of_abs_eq heq with rfl | rfl <;> decide +kernel

theorem roundHalfEven_odd {x : ℚ} (h : roundHalfEven x % 2 ≠ 0) : |(roundHalfEven x : ℚ) - x| < 1 / 2 :=
  (abs_roundHalfEven_sub_le x).lt_of_ne fun heq => h (roundHalfEven_midpoint heq)

theorem roundHalfEven_neg (x : ℚ) : roundHalfEven (-x) = -roundHalfEven x := by
  have hle := abs_le.mp (abs_roundHalfEven_sub_le x)
  have hle' := abs_le.mp (abs_roundHalfEven_sub_le (-x))
  have hlo : ((-2 : ℤ) : ℚ) < (roundHalfEven (-x) + roundHalfEven x : ℤ) := by
    push_cast
    linarith
  have hhi : ((roundHalfEven (-x) + roundHalfEven x : ℤ) : ℚ) < (2 : ℤ) := by
    push_cast
    linarith
  have hlo := Int.cast_lt.mp hlo
  have hhi := Int.cast_lt.mp hhi
  by_contra hne
  -- the two are one apart, so one of them is odd, and then neither number is a midpoint
  have hodd : roundHalfEven x % 2 ≠ 0 ∨ roundHalfEven (-x) % 2 ≠ 0 := by omega
  have hapart : roundHalfEven (-x) + roundHalfEven x = 1 ∨ roundHalfEven (-x) + roundHalfEven x = -1 := by omega
  have hsum : ((roundHalfEven (-x) : ℚ) + roundHalfEven x = 1) ∨ ((roundHalfEven (-x) : ℚ) + roundHalfEven x = -1) := by
    exact_mod_cast hapart
  rcases hodd with hodd | hodd
  · obtain ⟨h1, h2⟩ := abs_lt.mp (roundHalfEven_odd hodd)
    rcases hsum with hsum | hsum <;> linarith
  · obtain ⟨h1, h2⟩ := abs_lt.mp (roundHalfEven_odd hodd)
    rcases hsum with hsum | hsum <;> linarith

/-- A shift by an even integer moves no midpoint to another parity. -/
theorem roundHalfEven_add_even (x : ℚ) (k : ℤ) : roundHalfEven (x + (2 * k : ℤ)) = roundHalfEven x + 2 * k := by
  have hfloor : ⌊x + (2 * k : ℤ)⌋ = ⌊x⌋ + 2 * k := Int.floor_add_intCast ..
  have hfract : x + (2 * k : ℤ) - (⌊x⌋ + 2 * k : ℤ) = x - ⌊x⌋ := by
    push_cast
    ring
  have hparity : (⌊x⌋ + 2 * k) % 2 = ⌊x⌋ % 2 := by omega
  unfold roundHalfEven
  dsimp only
  rw [hfloor, hfract, hparity]
  split_ifs <;> omega

/-! ## Decimals -/

theorem abs_pyRound_sub_le (x : ℚ) (d : ℕ) : |pyRound x d - x| ≤ 1 / 2 / 10 ^ d := by
  have hd : (0 : ℚ) < 10 ^ d := by positivity
  have e : pyRound x d - x = ((roundHalfEven (x * 10 ^ d) : ℚ) - x * 10 ^ d) / 10 ^ d := by
    unfold pyRound; field_simp
  rw [e, abs_div, abs_of_pos hd]
  exact div_le_div_of_nonneg_right (abs_roundHalfEven_sub_le _) hd.le

theorem pyRound_mono {x y : ℚ} (h : x ≤ y) (d : ℕ) : pyRound x d ≤ pyRound y d := by
  have hd : (0 : ℚ) < 10 ^ d := by positivity
  unfold pyRound
  refine div_le_div_of_nonneg_right ?_ hd.le
  exact_mod_cast roundHalfEven_mono (mul_le_mul_of_nonneg_right h hd.le)

theorem pyRound_nonneg_iff (x : ℚ) (d : ℕ) : 0 ≤ pyRound x d ↔ -(1 / 2 / 10 ^ d) ≤ x := by
  have hd : (0 : ℚ) < 10 ^ d := by positivity
  have h1 : 0 ≤ pyRound x d ↔ 0 ≤ roundHalfEven (x * 10 ^ d) := by
    unfold pyRound
    rw [le_div_iff₀ hd, zero_mul]
    exact_mod_cast Iff.rfl
  have e : -(1 / 2 / 10 ^ d : ℚ) = -(1 / 2) / 10 ^ d := by ring
  rw [h1, roundHalfEven_nonneg_iff, e, div_le_iff₀ hd]

theorem pyRound_nonneg {x : ℚ} (h : 0 ≤ x) (d : ℕ) : 0 ≤ pyRound x d := by
  rw [pyRound_nonneg_iff]
  have : (0 : ℚ) ≤ 1 / 2 / 10 ^ d := by positivity
  linarith

@[simp] theorem pyRound_zero (d : ℕ) : pyRound 0 d = 0 := by
  have := roundHalfEven_intCast 0
  simp only [Int.cast_zero] at this
  simp [pyRound, this]

/-- What has been rounded is not changed by rounding again. -/
@[simp] theorem pyRound_pyRound (x : ℚ) (d : ℕ) : pyRound (pyRound x d) d = pyRound x d := by
  have hd : (10 : ℚ) ^ d ≠ 0 := by positivity
  rw [pyRound, pyRound, div_mul_cancel₀ _ hd, roundHalfEven_intCast]

theorem pyRound_eq_self {x : ℚ} {d : ℕ} : pyRound x d = x ↔ ∃ k : ℤ, x = k / 10 ^ d := by
  refine ⟨fun h => ⟨_, h.symm⟩, fun ⟨k, hk⟩ => ?_⟩
  have hd : (10 : ℚ) ^ d ≠ 0 := by positivity
  rw [hk, pyRound, div_mul_cancel₀ _ hd, roundHalfEven_intCast]

theorem pyRound_add_eq_self {x y : ℚ} {d : ℕ} (hx : pyRound x d = x) (hy : pyRound y d = y) :
    pyRound (x + y) d = x + y := by
  obtain ⟨k, rfl⟩ := pyRound_eq_self.mp hx
  obtain ⟨l, rfl⟩ := pyRound_eq_self.mp hy
  exact pyRound_eq_self.mpr ⟨k + l, by push_cast; ring⟩

theorem pyRound_sub_eq_self {x y : ℚ} {d : ℕ} (hx : pyRound x d = x) (hy : pyRound y d = y) :
    pyRound (x - y) d = x - y := by
  obtain ⟨k, hk⟩ := pyRound_eq_self.mp hx
  obtain ⟨l, hl⟩ := pyRound_eq_self.mp hy
  exact pyRound_eq_self.mpr ⟨k - l, by rw [hk, hl, ← sub_div, Int.cast_sub]⟩

theorem pyRound_sum_eq_self {xs : List ℚ} {d : ℕ} (h : ∀ x ∈ xs, pyRound x d = x) :
    pyRound xs.sum d = xs.sum := by
  induction xs with
  | nil => exact pyRound_zero d
  | cons x xs ih =>
    rw [List.sum_cons]
    exact pyRound_add_eq_self (h x (List.mem_cons_self ..)) (ih fun y hy => h y (List.mem_cons_of_mem _ hy))

theorem pyRound_add_even (x : ℚ) (d : ℕ) (k : ℤ) :
    pyRound (x + (2 * k : ℤ) / 10 ^ d) d = pyRound x d + (2 * k : ℤ) / 10 ^ d := by
  have hd : (10 : ℚ) ^ d ≠ 0 := by positivity
  rw [pyRound, pyRound, add_mul, div_mul_cancel₀ _ hd, roundHalfEven_add_even, Int.cast_add, add_div]

theorem pyRound_natCast_mul_eq_self {x : ℚ} {d : ℕ} (n : ℕ) (hx : pyRound x d = x) : pyRound (n * x) d = n * x := by
  obtain ⟨k, rfl⟩ := pyRound_eq_self.mp hx
  exact pyRound_eq_self.mpr ⟨n * k, by push_cast; ring⟩

theorem pyRound_eq_zero_iff {x : ℚ} (hx : 0 ≤ x) : pyRound x 2 = 0 ↔ x ≤ 1 / 200 := by
  constructor
  · intro h
    have hcent := abs_pyRound_sub_le x 2
    rw [h, zero_sub, abs_neg, abs_of_nonneg hx] at hcent
    norm_num at hcent
    linarith
  · intro h
    rw [pyRound, roundHalfEven_eq_zero]
    · simp
    · rw [abs_of_nonneg (by positivity)]
      norm_num
      linarith

/-! ## Sums of what is rounded -/

theorem sum_filterMap_getD {α β : Type*} (f : α → Option β) (g : β → ℚ) (l : List α) :
    ((l.filterMap f).map g).sum = (l.map fun x => ((f x).map g).getD 0).sum := by
  induction l with
  | nil => rfl
  | cons x l ih =>
    cases hx : f x with
    | none => rw [List.filterMap_cons_none hx, ih, List.map_cons, List.sum_cons, hx, Option.map_none, Option.getD_none,
        zero_add]
    | some y => rw [List.filterMap_cons_some hx, List.map_cons, List.map_cons, List.sum_cons, List.sum_cons, ih, hx,
        Option.map_some, Option.getD_some]

theorem sum_sum_comm {α β : Type*} (f : α → β → ℚ) (l : List α) (m : List β) :
    (l.map fun a => (m.map (f a)).sum).sum = (m.map fun b => (l.map fun a => f a b).sum).sum := by
  induction l with
  | nil => simp
  | cons a l ih =>
    simp only [List.map_cons, List.sum_cons]
    rw [ih, List.sum_map_add]

/-- Sums of terms that differ by at most `e` differ by at most `e` for each of them. -/
theorem abs_sum_sub_sum_le {α : Type*} {f g : α → ℚ} {e : ℚ} {l : List α} (h : ∀ x ∈ l, |f x - g x| ≤ e) :
    |(l.map f).sum - (l.map g).sum| ≤ l.length * e := by
  induction l with
  | nil => simp
  | cons x l ih =>
    have hx := h x List.mem_cons_self
    have hl := ih fun y hy => h y (List.mem_cons_of_mem _ hy)
    have hsplit : ((x :: l).map f).sum - ((x :: l).map g).sum =
        (f x - g x) + ((l.map f).sum - (l.map g).sum) := by
      simp only [List.map_cons, List.sum_cons]
      ring
    rw [hsplit, List.length_cons]
    push_cast
    linarith [abs_add_le (f x - g x) ((l.map f).sum - (l.map g).sum)]

/-! ## Multiples of what is rounded -/

/-- `n` times the rounded number is within half an `n` of the number itself only where it rounds to zero, for
one, or for two below the first midpoint. -/
theorem abs_mul_round_sub_le_iff_of_nonneg {x : ℚ} (hx : 0 ≤ x) {n : ℕ} (hn : 1 ≤ n) :
    |(n : ℚ) * roundHalfEven x - x| ≤ n / 2 ↔ n = 1 ∨ x ≤ 1 / 2 ∨ (n = 2 ∧ 1 ≤ x ∧ x < 3 / 2) := by
  have hround := abs_le.mp (abs_roundHalfEven_sub_le x)
  have hn' : (1 : ℚ) ≤ n := by exact_mod_cast hn
  constructor
  · intro h
    obtain ⟨-, h⟩ := abs_le.mp h
    by_contra hnot
    rw [not_or, not_or, not_le, not_and] at hnot
    obtain ⟨hone, hhalf, htwo⟩ := hnot
    have hk : 1 ≤ roundHalfEven x := by
      have hpos : (0 : ℚ) < roundHalfEven x := by linarith
      exact_mod_cast hpos
    have hbound : 2 * ((n : ℤ) - 1) * roundHalfEven x ≤ n + 1 := by
      have hq : 2 * ((n : ℚ) - 1) * roundHalfEven x ≤ n + 1 := by linarith
      exact_mod_cast hq
    have hthree : n ≤ 3 := by
      have hmono : 2 * ((n : ℤ) - 1) * 1 ≤ 2 * (n - 1) * roundHalfEven x := mul_le_mul_of_nonneg_left hk (by omega)
      omega
    -- the number rounds to one, which is odd, so it is below the midpoint
    have hkone : roundHalfEven x = 1 := by
      obtain rfl | rfl : n = 2 ∨ n = 3 := by omega
      · push_cast at hbound
        omega
      · push_cast at hbound
        omega
    have hlt := abs_lt.mp (roundHalfEven_odd (show roundHalfEven x % 2 ≠ 0 by rw [hkone]; decide))
    rw [hkone] at hlt h
    obtain rfl | rfl : n = 2 ∨ n = 3 := by omega
    · push_cast at hlt h
      exact htwo rfl ⟨by linarith, by linarith⟩
    · push_cast at hlt h
      linarith
  · rintro (rfl | hhalf | ⟨rfl, hlo, hhi⟩)
    · rw [abs_le]
      constructor <;> push_cast <;> linarith
    · rw [roundHalfEven_eq_zero (by rwa [abs_of_nonneg hx]), abs_le]
      constructor <;> push_cast <;> linarith
    · rw [roundHalfEven_eq (k := 1) (by rw [abs_lt]; constructor <;> push_cast <;> linarith), abs_le]
      constructor <;> push_cast <;> linarith

theorem abs_mul_round_sub_le_iff (x : ℚ) {n : ℕ} (hn : 1 ≤ n) :
    |(n : ℚ) * roundHalfEven x - x| ≤ n / 2 ↔ n = 1 ∨ |x| ≤ 1 / 2 ∨ (n = 2 ∧ 1 ≤ |x| ∧ |x| < 3 / 2) := by
  rcases le_total 0 x with hx | hx
  · rw [abs_of_nonneg hx]
    exact abs_mul_round_sub_le_iff_of_nonneg hx hn
  · have hneg : (n : ℚ) * roundHalfEven x - x = -(n * roundHalfEven (-x) - -x) := by
      rw [roundHalfEven_neg]
      push_cast
      ring
    rw [hneg, abs_neg, abs_of_nonpos hx]
    exact abs_mul_round_sub_le_iff_of_nonneg (neg_nonneg.mpr hx) hn

theorem abs_mul_pyRound_sub_le_iff (q : ℚ) {n : ℕ} (hn : 1 ≤ n) :
    |(n : ℚ) * pyRound q 2 - q| ≤ n / 200 ↔ n = 1 ∨ |q| ≤ 1 / 200 ∨ (n = 2 ∧ 1 / 100 ≤ |q| ∧ |q| < 3 / 200) := by
  have hscale : (n : ℚ) * pyRound q 2 - q = (n * roundHalfEven (q * 100) - q * 100) / 100 := by
    rw [pyRound]
    norm_num
    ring
  have habs : |q * 100| = |q| * 100 := by rw [abs_mul, abs_of_pos (show (0 : ℚ) < 100 by norm_num)]
  have hiff := abs_mul_round_sub_le_iff (q * 100) hn
  rw [habs] at hiff
  rw [hscale, abs_div, abs_of_pos (show (0 : ℚ) < 100 by norm_num), div_le_iff₀ (by norm_num),
    show (n : ℚ) / 200 * 100 = n / 2 by ring, hiff]
  refine or_congr_right (or_congr ?_ (and_congr_right fun _ => and_congr ?_ ?_))
  · constructor <;> intro h <;> linarith
  · constructor <;> intro h <;> linarith
  · constructor <;> intro h <;> linarith

example : pyRound (1 / 200) 2 = 0 ∧ pyRound (3 / 200) 2 = 2 / 100 := by decide +kernel

end PriceEngine
