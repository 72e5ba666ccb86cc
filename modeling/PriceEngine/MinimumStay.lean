import PriceEngine.DecisionSound
import PriceEngine.Monotonicity

/-!
# The recommended minimum stay

A longer stay spreads the cost of the booking over more nights: its floor is not
higher and its rule not lower (`losRow_level_mono`). So the lengths that qualify
are all those from one length on, and the first row that does, in order of
length, is the shortest. The reservation it recommends is priced at its cost up
to what the rounding of a night takes.
-/

namespace PriceEngine

/-! ## Rows in order of length -/

/-- The row's rule is not the one that only covers the cost. -/
def Qualifies (a : PriceArgs) (n : ℕ+) : Prop := (losRow a n).ruleApplied ≠ .minimumProfitablePrice

theorem qualifies_iff_level {a : PriceArgs} {n : ℕ+} : Qualifies a n ↔ 1 ≤ (losRow a n).ruleApplied.level := by
  unfold Qualifies
  cases (losRow a n).ruleApplied <;> decide

theorem losRow_level_mono {a : PriceArgs} (hb : 0 ≤ a.perBookingCostEur) (hd : 0 < denominator a) {n m : ℕ+}
    (h : n ≤ m) : (losRow a n).ruleApplied.level ≤ (losRow a m).ruleApplied.level := by
  refine applyGuardrails_level ?_ le_rfl le_rfl
  change (priceTerms (losArgs a m)).profitableFloorEur ≤ (priceTerms (losArgs a n)).profitableFloorEur
  rw [priceTerms_floor, priceTerms_floor]
  exact div_le_div_of_nonneg_right (toRecover_losArgs_anti hb h) hd.le

theorem Qualifies.longer {a : PriceArgs} (hb : 0 ≤ a.perBookingCostEur) (hd : 0 < denominator a) {n m : ℕ+}
    (hn : Qualifies a n) (h : n ≤ m) : Qualifies a m :=
  qualifies_iff_level.mpr ((qualifies_iff_level.mp hn).trans (losRow_level_mono hb hd h))

theorem losMatrix_insertionSort (a : PriceArgs) (stayLengths : List ℕ+) :
    (decidePriceLosMatrix a stayLengths).insertionSort (fun c c' => c.stayLength ≤ c'.stayLength) =
      (stayLengths.insertionSort (· ≤ ·)).map (losRow a) :=
  (List.map_insertionSort _ _ (losRow a) stayLengths fun _ _ _ _ => Iff.rfl).symm

/-- The first that passes, in ascending order, is the least that does. -/
theorem find?_eq_some_iff_least {α : Type*} [LinearOrder α] {p : α → Bool} {l : List α} (h : l.Pairwise (· ≤ ·))
    {n : α} : l.find? p = some n ↔ n ∈ l ∧ p n = true ∧ ∀ m ∈ l, p m = true → n ≤ m := by
  induction l with
  | nil => simp
  | cons x l ih =>
    obtain ⟨hx, hl⟩ := List.pairwise_cons.mp h
    by_cases hp : p x = true
    · rw [List.find?_cons_of_pos hp, Option.some.injEq]
      constructor
      · rintro rfl
        exact ⟨List.mem_cons_self, hp, List.forall_mem_cons.mpr ⟨fun _ => le_rfl, fun m hm _ => hx m hm⟩⟩
      · rintro ⟨hn, -, hleast⟩
        have hle := hleast x List.mem_cons_self hp
        rcases List.mem_cons.mp hn with rfl | hn
        · rfl
        · exact le_antisymm (hx n hn) hle
    · rw [List.find?_cons_of_neg hp, ih hl, List.mem_cons, List.forall_mem_cons]
      constructor
      · rintro ⟨hn, hpn, hleast⟩
        exact ⟨Or.inr hn, hpn, fun hpx => absurd hpx hp, hleast⟩
      · rintro ⟨hn, hpn, -, hleast⟩
        refine ⟨hn.resolve_left ?_, hpn, hleast⟩
        rintro rfl
        exact hp hpn

/-! ## The recommendation -/

/-- What is recommended, read off the rows in order of length. -/
structure RecommendedFrom (a : PriceArgs) (shortest : ℕ+) (sorted : List ℕ+) (m : MinimumStayRecommendation) :
    Prop where
  stay : m.recommendedMinStay =
    sorted.find? fun n => (losRow a n).ruleApplied ≠ .minimumProfitablePrice
  relief : m.floorReliefEur = m.recommendedMinStay.map fun n =>
    pyRound ((losRow a shortest).minimumPriceEur - (losRow a n).minimumPriceEur) 2
  cost : m.costPerReservationEur = m.recommendedMinStay.map fun n =>
    reservationCostEur n a.fixedAndAllocatedCostsPerNightEur a.perBookingCostEur
  price : m.suggestedPricePerReservationEur = m.recommendedMinStay.map fun n =>
    pyRound ((losRow a n).suggestedPriceEur * (n : ℕ)) 2

theorem recommendMinimumStay_from {a : PriceArgs} {stayLengths rest : List ℕ+} {shortest : ℕ+} (property : ℚ)
    (hsorted : stayLengths.insertionSort (· ≤ ·) = shortest :: rest) :
    ∃ m, recommendMinimumStay (decidePriceLosMatrix a stayLengths) property
        a.fixedAndAllocatedCostsPerNightEur a.perBookingCostEur = .ok m ∧
      RecommendedFrom a shortest (shortest :: rest) m := by
  unfold recommendMinimumStay
  rw [losMatrix_insertionSort, hsorted, List.map_cons]
  dsimp only
  by_cases hrule : (losRow a shortest).ruleApplied ≠ .minimumProfitablePrice
  · rw [if_pos hrule]
    refine ⟨_, rfl, ?_, ?_, rfl, rfl⟩
    · rw [List.find?_cons_of_pos (by simpa using hrule)]
      rfl
    · have hzero : 0 = pyRound ((losRow a shortest).minimumPriceEur - (losRow a shortest).minimumPriceEur) 2 := by
        rw [sub_self, pyRound_zero]
      exact congrArg some hzero
  · rw [if_neg hrule, List.find?_map]
    have hskip : (shortest :: rest).find? (fun n => (losRow a n).ruleApplied ≠ .minimumProfitablePrice) =
        rest.find? fun n => (losRow a n).ruleApplied ≠ .minimumProfitablePrice :=
      List.find?_cons_of_neg (by simpa using hrule)
    cases hfind : rest.find? fun n => (losRow a n).ruleApplied ≠ .minimumProfitablePrice with
    | none =>
      have hnone : (rest.find? ((fun c : LosFloorCandidate => decide (c.ruleApplied ≠ .minimumProfitablePrice)) ∘
          losRow a)) = none := hfind
      rw [hnone]
      exact ⟨_, rfl, hskip.symm ▸ hfind.symm, rfl, rfl, rfl⟩
    | some n =>
      have hsome : (rest.find? ((fun c : LosFloorCandidate => decide (c.ruleApplied ≠ .minimumProfitablePrice)) ∘
          losRow a)) = some n := hfind
      rw [hsome]
      exact ⟨_, rfl, hskip.symm ▸ hfind.symm, rfl, rfl, rfl⟩

/-- The published floors are whole cents, so is their difference. -/
theorem pyRound_relief (a : PriceArgs) (n m : ℕ+) :
    pyRound ((losRow a n).minimumPriceEur - (losRow a m).minimumPriceEur) 2 =
      (losRow a n).minimumPriceEur - (losRow a m).minimumPriceEur :=
  pyRound_sub_eq_self (pyRound_pyRound _ _) (pyRound_pyRound _ _)

/-- A night is suggested at its cost or more when the netting is within what the rates take of it. -/
theorem cost_le_suggested {a : PriceArgs} (hc : 0 ≤ a.fixedAndAllocatedCostsPerNightEur)
    (hb : 0 ≤ a.perBookingCostEur) (hm : 0 ≤ a.targetMargin) (hd : 0 < denominator a)
    (hk : a.nettingEur ≤
      a.p * (a.fixedAndAllocatedCostsPerNightEur + a.perBookingCostEur / (a.stayLength : ℕ))) :
    a.fixedAndAllocatedCostsPerNightEur + a.perBookingCostEur / (a.stayLength : ℕ) ≤
      (priceTerms a).guardrails.suggestedPriceEur := by
  let cost := a.fixedAndAllocatedCostsPerNightEur + a.perBookingCostEur / (a.stayLength : ℕ)
  have hcost : 0 ≤ cost := add_nonneg hc (perBooking_nonneg hb)
  have hmargin : 0 ≤ a.targetMargin * cost := mul_nonneg hm hcost
  rw [priceTerms_suggested, priceTerms_floor]
  refine le_max_of_le_left ((le_div_iff₀ hd).mpr ?_)
  calc cost * denominator a = cost - a.p * cost - a.targetMargin * cost := by unfold denominator; ring
    _ ≤ toRecover a := by
      have : toRecover a = cost - a.nettingEur := rfl
      linarith

theorem reservation_price {a : PriceArgs} {n : ℕ+} (hc : 0 ≤ a.fixedAndAllocatedCostsPerNightEur)
    (hb : 0 ≤ a.perBookingCostEur) (hm : 0 ≤ a.targetMargin) (hd : 0 < denominator a)
    (hk : a.nettingEur ≤ a.p * (a.fixedAndAllocatedCostsPerNightEur + a.perBookingCostEur / (n : ℕ))) :
    reservationCostEur n a.fixedAndAllocatedCostsPerNightEur a.perBookingCostEur - (n : ℕ) / 200 - 1 / 100 ≤
      pyRound ((losRow a n).suggestedPriceEur * (n : ℕ)) 2 := by
  have hn : (0 : ℚ) < (n : ℕ) := Nat.cast_pos.mpr n.pos
  have hnight := cost_le_suggested (a := losArgs a n) hc hb hm hd hk
  have hpublished := (abs_le.mp (decidePrice_published (losArgs a n)).suggested).1
  have hprice : pyRound ((losRow a n).suggestedPriceEur * (n : ℕ)) 2 = (losRow a n).suggestedPriceEur * (n : ℕ) := by
    rw [mul_comm]
    exact pyRound_natCast_mul_eq_self _ (pyRound_pyRound _ _)
  have hcost := (abs_le.mp (halfCent_pyRound ((n : ℕ) * a.fixedAndAllocatedCostsPerNightEur + a.perBookingCostEur))).2
  have hstay : (a.fixedAndAllocatedCostsPerNightEur + a.perBookingCostEur / (n : ℕ) - 1 / 200) * (n : ℕ) ≤
      (losRow a n).suggestedPriceEur * (n : ℕ) := by
    refine mul_le_mul_of_nonneg_right ?_ hn.le
    change _ ≤ (decidePrice (losArgs a n)).suggestedPriceEur
    change a.fixedAndAllocatedCostsPerNightEur + a.perBookingCostEur / (n : ℕ) ≤ _ at hnight
    linarith
  have hspread : (a.fixedAndAllocatedCostsPerNightEur + a.perBookingCostEur / (n : ℕ) - 1 / 200) * (n : ℕ) =
      (n : ℕ) * a.fixedAndAllocatedCostsPerNightEur + a.perBookingCostEur - (n : ℕ) / 200 := by
    field_simp
  rw [hprice]
  unfold reservationCostEur
  linarith

/-! ## Every matrix -/

structure MinimumStayCorrect (a : PriceArgs) (stayLengths : List ℕ+) (m : MinimumStayRecommendation) : Prop where
  rows : ((stayLengths.insertionSort (· ≤ ·)).map (losRow a)).Pairwise fun shorter longer =>
    longer.minimumPriceEur ≤ shorter.minimumPriceEur ∧ shorter.ruleApplied.level ≤ longer.ruleApplied.level
  stay_iff : ∀ n, m.recommendedMinStay = some n ↔
    n ∈ stayLengths ∧ Qualifies a n ∧ ∀ n' ∈ stayLengths, Qualifies a n' → n ≤ n'
  longer : ∀ n ∈ m.recommendedMinStay, ∀ n' ∈ stayLengths, n ≤ n' → Qualifies a n'
  none_iff : m.recommendedMinStay = none ↔
    ∀ n ∈ stayLengths, (losRow a n).ruleApplied = .minimumProfitablePrice
  relief : ∀ n ∈ m.recommendedMinStay, ∀ shortest ∈ stayLengths, (∀ n' ∈ stayLengths, shortest ≤ n') →
    ∃ relief, m.floorReliefEur = some relief ∧ 0 ≤ relief ∧
      relief = (losRow a shortest).minimumPriceEur - (losRow a n).minimumPriceEur
  price : ∀ n ∈ m.recommendedMinStay, 0 ≤ a.nettingEur →
    a.nettingEur ≤ a.p * (a.fixedAndAllocatedCostsPerNightEur + a.perBookingCostEur / (n : ℕ)) →
    ∃ cost suggested, m.costPerReservationEur = some cost ∧ m.suggestedPricePerReservationEur = some suggested ∧
      cost - (n : ℕ) / 200 - 1 / 100 ≤ suggested

theorem losRows_pairwise {a : PriceArgs} (hb : 0 ≤ a.perBookingCostEur) (hd : 0 < denominator a)
    (stayLengths : List ℕ+) :
    ((stayLengths.insertionSort (· ≤ ·)).map (losRow a)).Pairwise fun shorter longer =>
      longer.minimumPriceEur ≤ shorter.minimumPriceEur ∧ shorter.ruleApplied.level ≤ longer.ruleApplied.level :=
  List.pairwise_map.mpr ((List.pairwise_insertionSort _ _).imp fun h =>
    ⟨losRow_minimum_anti hb hd h, losRow_level_mono hb hd h⟩)

/-- The recommendation is the shortest length that qualifies, for every non-empty list of lengths. -/
theorem minimum_stay_correct {a : PriceArgs} (hc : 0 ≤ a.fixedAndAllocatedCostsPerNightEur)
    (hb : 0 ≤ a.perBookingCostEur) (hm : 0 ≤ a.targetMargin) (hrates : a.p + a.targetMargin < 1)
    {stayLengths : List ℕ+} (hne : stayLengths ≠ []) (property : ℚ) :
    ∃ m, recommendMinimumStay (decidePriceLosMatrix a stayLengths) property
        a.fixedAndAllocatedCostsPerNightEur a.perBookingCostEur = .ok m ∧
      MinimumStayCorrect a stayLengths m := by
  have hd : 0 < denominator a := by
    unfold denominator
    linarith
  have hperm : (stayLengths.insertionSort (· ≤ ·)).Perm stayLengths := List.perm_insertionSort _ _
  have hascending : (stayLengths.insertionSort (· ≤ ·)).Pairwise (· ≤ ·) := List.pairwise_insertionSort _ _
  cases hsorted : stayLengths.insertionSort (· ≤ ·) with
  | nil =>
    rw [hsorted] at hperm
    exact absurd hperm.symm.eq_nil hne
  | cons first rest =>
    rw [hsorted] at hperm hascending
    obtain ⟨m, hm', hfrom⟩ := recommendMinimumStay_from (a := a) property hsorted
    have hstay : ∀ n, m.recommendedMinStay = some n ↔
        n ∈ stayLengths ∧ Qualifies a n ∧ ∀ n' ∈ stayLengths, Qualifies a n' → n ≤ n' := by
      intro n
      rw [hfrom.stay, find?_eq_some_iff_least hascending]
      simp only [decide_eq_true_eq, hperm.mem_iff, Qualifies]
    refine ⟨m, hm', losRows_pairwise hb hd stayLengths, hstay, fun n hn n' _ hle => ?_, ?_,
      fun n hn shortest hin hshortest => ?_, fun n hn _ hk => ?_⟩
    · exact ((hstay n).mp hn).2.1.longer hb hd hle
    · rw [hfrom.stay, List.find?_eq_none]
      simp only [decide_eq_true_eq, hperm.mem_iff, not_not]
    · have hfirst : first = shortest := by
        refine le_antisymm ?_ (hshortest first (hperm.mem_iff.mp List.mem_cons_self))
        rcases List.mem_cons.mp (hperm.mem_iff.mpr hin) with h | h
        · exact h.ge
        · exact (List.pairwise_cons.mp hascending).1 shortest h
      subst hfirst
      have hn' : m.recommendedMinStay = some n := hn
      refine ⟨_, by rw [hfrom.relief, hn', Option.map_some, pyRound_relief], ?_, rfl⟩
      exact sub_nonneg.mpr (losRow_minimum_anti hb hd (hshortest n ((hstay n).mp hn).1))
    · have hn' : m.recommendedMinStay = some n := hn
      exact ⟨_, _, by rw [hfrom.cost, hn']; rfl, by rw [hfrom.price, hn']; rfl, reservation_price hc hb hm hd hk⟩

/-- The cost of a booking that one night cannot carry. -/
def dearBooking : PriceArgs :=
  { standardNight with
    perBookingCostEur := 110
    nettingEur := 0 }

theorem dearBooking_stay : ∃ m, recommendMinimumStay (decidePriceLosMatrix dearBooking [7, 1, 3]) 120 40 110 = .ok m ∧
    MinimumStayCorrect dearBooking [7, 1, 3] m :=
  minimum_stay_correct (a := dearBooking) (by decide +kernel) (by decide +kernel) (by decide +kernel)
    (by decide +kernel) (List.cons_ne_nil _ _) 120

end PriceEngine
