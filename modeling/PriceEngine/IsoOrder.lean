import Mathlib.Data.String.Basic
import PriceEngine.IsoText

/-!
# ISO dates in the order of texts

Texts compare character by character. Numbers padded to one width compare as the
numbers do, and so the texts of two dates of the calendar compare as the dates.
-/

namespace PriceEngine

/-! ## Lists of one length -/

theorem append_lt_append_of_lt {u v : List Char} (hlen : u.length = v.length) (h : u < v) (a b : List Char) :
    u ++ a < v ++ b := by
  induction u generalizing v with
  | nil =>
    obtain rfl := List.length_eq_zero_iff.mp hlen.symm
    exact absurd h (List.lt_irrefl _)
  | cons c u ih =>
    cases v with
    | nil => cases hlen
    | cons c' v =>
      rw [List.cons_append, List.cons_append, List.cons_lt_cons_iff]
      rcases List.cons_lt_cons_iff.mp h with hc | ⟨rfl, huv⟩
      · exact .inl hc
      · exact .inr ⟨rfl, ih (Nat.succ.inj hlen) huv⟩

/-! ## Padded numbers -/

theorem zeroPad_succ {w : ℕ} (hw : 0 < w) (n : ℕ) :
    zeroPad (w + 1) n = zeroPad w (n / 10) ++ [Nat.digitChar (n % 10)] := by
  by_cases hn : n < 10
  · have hzero : n / 10 = 0 := Nat.div_eq_of_lt hn
    have hreplicate : List.replicate (w - 1) '0' ++ ['0'] = List.replicate w '0' := by
      rw [← List.replicate_succ', Nat.sub_add_cancel hw]
    rw [zeroPad, zeroPad, hzero, Nat.toDigits_of_lt_base hn, Nat.toDigits_zero, Nat.mod_eq_of_lt hn]
    simp [hreplicate]
  · have hdigits : Nat.toDigits 10 n = Nat.toDigits 10 (n / 10) ++ [Nat.digitChar (n % 10)] :=
      Nat.toDigits_of_base_le (by decide) (Nat.le_of_not_lt hn)
    rw [zeroPad, zeroPad, hdigits, List.length_append, List.length_singleton, Nat.add_sub_add_right,
      List.append_assoc]

theorem digitChar_lt : ∀ m n : Fin 10, m < n → Nat.digitChar m < Nat.digitChar n := by decide

theorem zeroPad_lt {w m n : ℕ} (hw : 0 < w) (hn : n < 10 ^ w) (h : m < n) : zeroPad w m < zeroPad w n := by
  induction w, hw using Nat.le_induction generalizing m n with
  | base =>
    have hn : n < 10 := hn
    have hpad : ∀ k < 10, zeroPad 1 k = [Nat.digitChar k] := fun k hk => by
      simp [zeroPad, Nat.toDigits_of_lt_base hk]
    rw [hpad m (h.trans hn), hpad n hn, List.cons_lt_cons_iff]
    exact .inl (digitChar_lt ⟨m, h.trans hn⟩ ⟨n, hn⟩ h)
  | succ w hw ih =>
    rw [zeroPad_succ hw, zeroPad_succ hw]
    have hn' : n / 10 < 10 ^ w := by
      rw [pow_succ] at hn
      omega
    by_cases hdiv : m / 10 = n / 10
    · rw [hdiv]
      refine List.append_left_lt (List.cons_lt_cons_iff.mpr (.inl ?_))
      exact digitChar_lt ⟨m % 10, by omega⟩ ⟨n % 10, by omega⟩ (by simp only [Fin.mk_lt_mk]; omega)
    · refine append_lt_append_of_lt ?_ (ih hn' (by omega)) _ _
      rw [zeroPad_length hw hn', zeroPad_length hw (by omega)]

/-! ## Fields of later dates -/

theorem year_mono {d e : ℤ} (h : d ≤ e) : Date.year d ≤ Date.year e := by
  unfold Date.year yearAndDay
  dsimp only
  generalize hn : d - 1 = n, hm : e - 1 = m
  -- 400, 100, 4 and 1 years: the first place where the two differ decides
  generalize hn400 : n / 146097 = n400, hm400 : m / 146097 = m400
  generalize hr : n % 146097 = r, hs : m % 146097 = s
  generalize hn100 : min 3 (r / 36524) = n100, hm100 : min 3 (s / 36524) = m100
  generalize hr' : r - n100 * 36524 = r', hs' : s - m100 * 36524 = s'
  generalize hn4 : r' / 1461 = n4, hm4 : s' / 1461 = m4
  generalize hr'' : r' % 1461 = r'', hs'' : s' % 1461 = s''
  generalize hn1 : min 3 (r'' / 365) = n1, hm1 : min 3 (s'' / 365) = m1
  have hbounds : 0 ≤ n100 ∧ n100 ≤ 3 ∧ 0 ≤ n4 ∧ n4 ≤ 24 ∧ 0 ≤ n1 ∧ n1 ≤ 3 := by omega
  have hbounds' : 0 ≤ m100 ∧ m100 ≤ 3 ∧ 0 ≤ m4 ∧ m4 ≤ 24 ∧ 0 ≤ m1 ∧ m1 ≤ 3 := by omega
  by_cases h400 : n400 = m400
  · have hle : r ≤ s := by omega
    by_cases h100 : n100 = m100
    · have hle' : r' ≤ s' := by omega
      by_cases h4 : n4 = m4
      · have hle'' : r'' ≤ s'' := by omega
        have h1 : n1 ≤ m1 := by omega
        omega
      · have h4 : n4 < m4 := by omega
        omega
    · have h100 : n100 < m100 := by omega
      omega
  · have h400 : n400 < m400 := by omega
    omega

theorem monthOf_mono (leap : Bool) {m n : ℤ} (hm : 0 ≤ m) (hn : n ≤ 365) (h : m ≤ n) :
    monthOf leap m ≤ monthOf leap n := by
  have hnext : ∀ (leap : Bool) (k : Fin 365), monthOf leap k ≤ monthOf leap (k + 1) := by decide +kernel
  obtain ⟨k, rfl⟩ := Int.eq_ofNat_of_zero_le hm
  obtain ⟨j, rfl⟩ := Int.eq_ofNat_of_zero_le (hm.trans h)
  have hkj : k ≤ j := by omega
  clear h hm
  induction j, hkj using Nat.le_induction with
  | base => exact le_refl _
  | succ j _ ih =>
    refine (ih (by omega)).trans ?_
    exact hnext leap ⟨j, by omega⟩

/-! ## Dates -/

theorem isoChars_lt {d e : ℤ} (hd : Date.InRange d) (he : Date.InRange e) (h : d < e) :
    isoChars d < isoChars e := by
  obtain ⟨hy, hy'⟩ := year_bounds hd
  obtain ⟨hz, hz'⟩ := year_bounds he
  obtain ⟨hm, hday, hday'⟩ := month_day_bounds d
  obtain ⟨hn, hnext, hnext'⟩ := month_day_bounds e
  have hyear : Date.year d ≤ Date.year e := year_mono (le_of_lt h)
  have hd' := daysBeforeYear_yearAndDay d
  have he' := daysBeforeYear_yearAndDay e
  unfold isoChars
  rw [signedPad_of_nonneg (by omega), signedPad_of_nonneg hday, signedPad_of_nonneg (k := Date.year e) (by omega),
    signedPad_of_nonneg hnext]
  by_cases hyears : Date.year d = Date.year e
  · rw [hyears]
    refine List.append_left_lt (List.cons_lt_cons_iff.mpr (.inr ⟨rfl, ?_⟩))
    have hdays : (yearAndDay d).2 < (yearAndDay e).2 := by
      have hsame : (yearAndDay d).1 = (yearAndDay e).1 := hyears
      rw [hsame] at hd'
      omega
    have hmonth : Date.month d ≤ Date.month e := by
      unfold Date.month
      rw [hyears]
      exact monthOf_mono _ (dayOfYear_bounds d).1 (dayOfYear_bounds e).2 (le_of_lt hdays)
    by_cases hmonths : Date.month d = Date.month e
    · rw [hmonths]
      refine List.append_left_lt (List.cons_lt_cons_iff.mpr (.inr ⟨rfl, ?_⟩))
      refine zeroPad_lt (by decide) (by omega) ?_
      have hlt : Date.day d < Date.day e := by
        unfold Date.day
        rw [hyears, hmonths]
        omega
      omega
    · refine append_lt_append_of_lt ?_ (zeroPad_lt (by decide) (by omega) (by omega)) _ _
      rw [zeroPad_length (by decide) (by omega), zeroPad_length (by decide) (by omega)]
  · refine append_lt_append_of_lt ?_ (zeroPad_lt (by decide) (by omega) (by omega)) _ _
    rw [zeroPad_length (by decide) (by omega), zeroPad_length (by decide) (by omega)]

theorem isoformat_le_iff {d e : ℤ} (hd : Date.InRange d) (he : Date.InRange e) :
    isoformat d ≤ isoformat e ↔ d ≤ e := by
  have hlt : ∀ {d e : ℤ}, Date.InRange d → Date.InRange e → d < e → isoformat d < isoformat e := by
    intro d e hd he h
    rw [String.lt_iff_toList_lt, toList_isoformat, toList_isoformat]
    exact isoChars_lt hd he h
  refine ⟨fun h => ?_, fun h => ?_⟩
  · by_contra hne
    exact absurd (hlt he hd (lt_of_not_ge hne)) (not_lt_of_ge h)
  · rcases eq_or_lt_of_le h with rfl | h
    · exact le_refl _
    · exact le_of_lt (hlt hd he h)

end PriceEngine
