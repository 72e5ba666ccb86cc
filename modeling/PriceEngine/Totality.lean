import Mathlib.Data.Int.ConditionallyCompleteOrder
import PriceEngine.StageBSound

/-!
# When Stage B never raises

A cost is `Priceable` where no valid night makes its pricing raise; every cost
with room in its rates and no negative floor is (`Sellable.priceable`). Stored
nights are valid because the event schema is, and hold no `mixed` channel as
long as none was accepted (`Ready`). On such a state each step returns, and
so does a run under a clock whose date never goes back.
-/

namespace PriceEngine

/-! ## Costs that can be priced -/

/-- No night with a blended snapshot and known channels makes pricing raise. -/
def CostAggregate.Priceable (cost : CostAggregate) : Prop :=
  ∀ decisionId decidedAt (night : NightSnapshot) targetDate (since : Option Date), night.Valid →
    night.blended.isSome → Platform.mixed ∉ night.channels.keys →
    (∀ x ∈ since, x ≤ Instant.date decidedAt) →
    ∃ r, buildPriceDecision decisionId decidedAt cost night targetDate since = .ok r

/-- The rates and the margin leave a part of the price, and no floor is negative. -/
structure CostAggregate.Sellable (cost : CostAggregate) : Prop extends cost.WellFormed where
  room : sumOfRates (allPercentageCosts cost) + cost.targetMargin < 1
  losFloors : ∀ n, 0 ≤ losFloor cost n
  channelFloors : ∀ platform commission, channelCommissionPct platform = some commission →
    0 ≤ channelFloor cost commission

theorem channelCommissionPct_isSome {platform : Platform} (h : platform ≠ .mixed) :
    ∃ commission, channelCommissionPct platform = some commission := by
  cases platform with
  | mixed => exact absurd rfl h
  | _ => exact ⟨_, rfl⟩

theorem CostAggregate.Sellable.priceable {cost : CostAggregate} (h : cost.Sellable) : cost.Priceable := by
  intro decisionId decidedAt night targetDate since hn hb hmixed hsince
  obtain ⟨market, hb⟩ := Option.isSome_iff_exists.mp hb
  have hfloors : FloorsNonneg cost night := by
    refine ⟨h.losFloors 14, fun platform hk => ?_⟩
    obtain ⟨commission, hcom⟩ := channelCommissionPct_isSome fun e => hmixed (e ▸ hk)
    exact ⟨commission, hcom, h.channelFloors platform commission hcom⟩
  exact buildPriceDecision_ok h.toWellFormed h.room hn hb hfloors decisionId decidedAt targetDate hsince

/-! ## States that can be priced -/

structure StageB.Ready (s : StageB) : Prop where
  costs : s.apartments.All fun _ cost => cost.Priceable
  nights : s.nights.All fun _ night => night.Valid ∧ Platform.mixed ∉ night.channels.keys

theorem StageB.ready_empty : ({} : StageB).Ready := ⟨Dict.all_empty _, Dict.all_empty _⟩

def StageBEvent.Clean : StageBEvent → Prop
  | .cost value => value.Priceable
  | .market value => value.marketContext.platform ≠ some .mixed

theorem snapshotOf_valid (value : MarketPrice) : (snapshotOf value).Valid where
  rate := value.avgNightlyRate_nonneg
  occupancy := value.marketContext.occupancyRate_mem
  sample n hn := by
    rw [← Option.some.inj hn]
    exact value.marketContext.sampleSize_pos

theorem nightOf_ready {s : StageB} (hs : s.Ready) {value : MarketPrice}
    (hmixed : value.marketContext.platform ≠ some .mixed) :
    (s.nightOf value).Valid ∧ Platform.mixed ∉ (s.nightOf value).channels.keys := by
  have hold : ∀ platform m, previousSnapshot (s.nights.get? value.targetDate) platform = some m →
      m.Valid ∧ platform ≠ some .mixed := by
    intro platform m hm
    obtain ⟨night, hn, hm⟩ := Option.bind_eq_some_iff.mp hm
    obtain ⟨hv, hk⟩ := hs.nights _ night hn
    cases platform with
    | none => exact ⟨hv.blended m hm, fun e => nomatch e⟩
    | some p =>
      refine ⟨hv.channels p m hm, ?_⟩
      intro h; cases h
      exact hk (Dict.mem_keys.mpr ⟨m, hm⟩)
  have hnew : ∀ platform m, previousSnapshot (some (s.nightOf value)) platform = some m →
      m.Valid ∧ platform ≠ some .mixed := by
    intro platform m hm
    rw [previousSnapshot_nightOf] at hm
    split at hm
    · rename_i hp
      rw [← Option.some.inj hm, hp]
      exact ⟨snapshotOf_valid value, hmixed⟩
    · exact hold platform m hm
  refine ⟨⟨fun m hm => (hnew none m hm).1, fun p m hm => (hnew (some p) m hm).1⟩, fun hk => ?_⟩
  obtain ⟨m, hm⟩ := Dict.mem_keys.mp hk
  exact (hnew (some .mixed) m hm).2 rfl

theorem accept_ready {s : StageB} (hs : s.Ready) {e : Env × StageBEvent} (he : e.2.Clean) :
    (s.accept e).Ready := by
  obtain ⟨env, value | value⟩ := e
  · refine ⟨fun a c hc => ?_, fun d n hn => ?_⟩
    · rw [StageB.accept_cost, acceptCost_apartments] at hc
      split_ifs at hc
      · rw [← Option.some.inj hc]
        exact he
      · exact hs.costs a c hc
    · rw [StageB.accept_cost, acceptCost_nights] at hn
      exact hs.nights d n hn
  · refine ⟨fun a c hc => ?_, fun d n hn => ?_⟩
    · rw [StageB.accept_market, acceptMarket_apartments] at hc
      exact hs.costs a c hc
    · rw [StageB.accept_market, acceptMarket_nights] at hn
      split_ifs at hn
      · rw [← Option.some.inj hn]
        exact nightOf_ready hs he
      · exact hs.nights d n hn

theorem accept_streaks_all {s : StageB} {P : Date → Prop} (hs : s.floorBreachSince.All fun _ since => P since)
    (e : Env × StageBEvent) : (s.accept e).floorBreachSince.All fun _ since => P since := by
  intro key x hx
  obtain ⟨env, value | value⟩ := e
  · rw [StageB.accept_cost, acceptCost_streaks] at hx
    split at hx
    · cases hx
    · exact hs key x hx
  · rw [StageB.accept_market, acceptMarket_streaks] at hx
    split at hx
    · cases hx
    · exact hs key x hx

/-! ## One step -/

section
variable {s : StageB} (hs : s.Ready) {e : Env × StageBEvent} (he : s.accepts e = true → e.2.Clean)
include hs he

theorem step_ready {s' : StageB} {ds : List PriceDecision} (h : s.step e = .ok (s', ds)) : s'.Ready := by
  rcases StageB.step_cases h with ⟨-, rfl, -⟩ | ⟨hacc, streaks, -, rfl⟩
  · exact hs
  · obtain ⟨hc, hn⟩ := accept_ready hs (he hacc)
    exact ⟨hc, hn⟩

theorem step_isOk (hmono : ∀ i j, i ≤ j → Instant.date (e.1.now i) ≤ Instant.date (e.1.now j))
    (hstreaks : s.floorBreachSince.All fun _ since => since ≤ Instant.date (e.1.now 0)) :
    ∃ r, s.step e = .ok r := by
  rw [StageB.step_eq]
  cases hacc : s.accepts e with
  | false => exact ⟨_, rfl⟩
  | true =>
    have hready := accept_ready hs (he hacc)
    have hclock : (s.accept e).floorBreachSince.All fun _ since =>
        since ≤ Instant.date (e.1.now e.2.clock) :=
      fun key x hx => (accept_streaks_all hstreaks e key x hx).trans (hmono 0 _ (Nat.zero_le _))
    have hreprice : ∃ r, reprice e.1 e.2.clock (s.accept e).floorBreachSince (s.jobs e) = .ok r := by
      refine reprice_isOk hmono hclock fun job hj i since hsince => ?_
      obtain ⟨-, hc, hn, hb⟩ := StageB.mem_jobs.mp hj
      obtain ⟨hv, hk⟩ := hready.nights _ _ hn
      exact hready.costs _ _ hc _ _ _ _ _ hv hb hk hsince
    obtain ⟨⟨streaks, ds⟩, hr⟩ := hreprice
    exact ⟨_, bind_eq_ok.mpr ⟨_, hr, rfl⟩⟩

end

/-! ## Runs -/

/-- The clock's date never goes back, within an event or from one to the next. -/
structure Chronological (es : List (Env × StageBEvent)) : Prop where
  within : ∀ e ∈ es, ∀ i j, i ≤ j → Instant.date (e.1.now i) ≤ Instant.date (e.1.now j)
  between : es.Pairwise fun e f => ∀ i j, Instant.date (e.1.now i) ≤ Instant.date (f.1.now j)

theorem Chronological.sublist {es fs : List (Env × StageBEvent)} (h : Chronological fs) (hsub : es.Sublist fs) :
    Chronological es :=
  ⟨fun e he => h.within e (hsub.subset he), h.between.sublist hsub⟩

theorem step_streaks_all {s s' : StageB} {e : Env × StageBEvent} {ds : List PriceDecision}
    (h : s.step e = .ok (s', ds)) {P : Date → Prop} (hs : s.floorBreachSince.All fun _ since => P since)
    (hP : ∀ i, P (Instant.date (e.1.now i))) : s'.floorBreachSince.All fun _ since => P since := by
  rcases StageB.step_cases h with ⟨-, rfl, -⟩ | ⟨-, streaks, hr, rfl⟩
  · exact hs
  · exact (reprice_prices hP (accept_streaks_all hs e) hr).2

theorem run_isOk {es : List (Env × StageBEvent)} (hclock : Chronological es) :
    ∀ {s : StageB}, s.Ready → Along StageB.step (fun t e => t.accepts e = true → e.2.Clean) s es →
      (∀ e ∈ es, ∀ i, s.floorBreachSince.All fun _ since => since ≤ Instant.date (e.1.now i)) →
      ∃ r, run StageB.step s es = .ok r := by
  induction es with
  | nil => exact fun _ _ _ => ⟨_, rfl⟩
  | cons e es ih =>
    intro s hs hclean hstreaks
    obtain ⟨⟨s₁, o⟩, h⟩ := step_isOk hs hclean.1 (hclock.within e (List.mem_cons_self ..))
      (hstreaks e (List.mem_cons_self ..) 0)
    obtain ⟨hfirst, hrest⟩ := List.pairwise_cons.mp hclock.between
    have hclock' : Chronological es := ⟨fun f hf => hclock.within f (List.mem_cons_of_mem _ hf), hrest⟩
    obtain ⟨⟨t, os⟩, hr⟩ := ih hclock' (step_ready hs hclean.1 h) (hclean.2 s₁ o h) fun f hf j =>
      step_streaks_all h (hstreaks f (List.mem_cons_of_mem _ hf) j) fun i => hfirst f hf i j
    exact ⟨_, run_cons.mpr ⟨s₁, o, os, h, hr, rfl⟩⟩

structure NonDecreasing (es : List (Env × StageBEvent)) : Prop where
  within : ∀ e ∈ es, Monotone e.1.now
  between : es.Pairwise fun e f => ∀ i j, e.1.now i ≤ f.1.now j

theorem NonDecreasing.chronological {es : List (Env × StageBEvent)} (h : NonDecreasing es) :
    Chronological es where
  within e he _ _ hij := Instant.date_mono (h.within e he hij)
  between := h.between.imp fun h i j => Instant.date_mono (h i j)

def eventsAt (events : List (Instant × StageBEvent)) : List (Env × StageBEvent) :=
  events.map fun e => (envAt e.1, e.2)

theorem nonDecreasing_eventsAt {events : List (Instant × StageBEvent)}
    (h : events.Pairwise fun e f => e.1 ≤ f.1) : NonDecreasing (eventsAt events) where
  within e he := by
    obtain ⟨e', -, rfl⟩ := List.mem_map.mp he
    exact fun _ _ _ => le_rfl
  between := List.pairwise_map.mpr (h.imp fun h _ _ => h)

theorem flatCost_sellable (apartmentId : String) (updatedAt : Instant) :
    (flatCost apartmentId updatedAt).Sellable where
  totalMonthly := by norm_num [flatCost]
  availableDays := by norm_num [flatCost]
  fixed := by norm_num [flatCost]
  variable' := by norm_num [flatCost]
  perBooking := by norm_num [flatCost]
  breakdown := by intro b h; cases h
  targetMargin := by norm_num [flatCost]
  discount := by norm_num [flatCost]
  discount_le := by norm_num [flatCost]
  factor := by norm_num [flatCost]
  commission := by norm_num [flatCost]
  commission_le := by norm_num [flatCost]
  rates := by intro pc h; cases h
  version := by norm_num [flatCost]
  room := by
    have h : sumOfRates (allPercentageCosts (flatCost "" 0)) + 20 / 100 < 1 := by decide +kernel
    exact h
  losFloors n := by
    have hden : 0 ≤ 1 - sumOfRates (allPercentageCosts (flatCost "" 0)) - 20 / 100 := by decide +kernel
    have hcost : fixedAndAllocatedCostsPerNightEur (flatCost "" 0) = 30 := by decide +kernel
    have hnet : nettingEur (flatCost "" 0) = 0 := by decide +kernel
    have hstay : (0 : ℚ) ≤ 14 / (n : ℕ) := div_nonneg (by norm_num) (Nat.cast_nonneg _)
    have hfloor : 0 ≤ losFloor (flatCost "" 0) n := by
      refine pyRound_nonneg (div_nonneg ?_ hden) 2
      change 0 ≤ fixedAndAllocatedCostsPerNightEur (flatCost "" 0) + 14 / (n : ℕ) - nettingEur (flatCost "" 0)
      rw [hcost, hnet]
      linarith
    exact hfloor
  channelFloors platform commission h := by
    have hfloor : ∀ platform commission, channelCommissionPct platform = some commission →
        0 ≤ channelFloor (flatCost "" 0) commission := by
      intro platform commission h
      cases platform <;> simp only [channelCommissionPct, Option.some.injEq, reduceCtorEq] at h <;>
        subst h <;> decide +kernel
    exact hfloor platform commission h

/-! ## Mixed prices -/

def AcceptsNoMixed (s : StageB) (e : Env × StageBEvent) : Prop :=
  s.accepts e = true → ∀ value, e.2 = .market value → value.marketContext.platform ≠ some .mixed

theorem stageB_returns_without_mixed {es : List (Env × StageBEvent)} (hclock : NonDecreasing es)
    (hcosts : ∀ e ∈ es, ∀ value, e.2 = .cost value → value.Sellable)
    (hmixed : Along StageB.step AcceptsNoMixed {} es) : ∃ r, run StageB.step {} es = .ok r := by
  refine run_isOk hclock.chronological StageB.ready_empty ?_ fun _ _ _ => Dict.all_empty _
  refine along_imp (fun s e he hmixed hacc => ?_) hmixed
  obtain ⟨env, value | value⟩ := e
  · exact (hcosts _ he value rfl).priceable
  · exact hmixed hacc value rfl

/-- The price of one channel, then the blended price of the same night, then an apartment. -/
def channelEvents (platform : Platform) : List (Instant × StageBEvent) :=
  [(0, .market (flatMarket (some platform) (toordinal 1970 1 21) 0)),
   (1, .market (flatMarket none (toordinal 1970 1 21) 0)),
   (2, .cost (flatCost "a1" 0))]

theorem channelEvents_nonDecreasing (platform : Platform) : NonDecreasing (eventsAt (channelEvents platform)) :=
  nonDecreasing_eventsAt (by simp [channelEvents])

theorem channelEvents_sellable (platform : Platform) :
    ∀ e ∈ eventsAt (channelEvents platform), ∀ value, e.2 = .cost value → value.Sellable := by
  intro e he value hv
  simp only [eventsAt, channelEvents, List.map_cons, List.map_nil, List.mem_cons, List.not_mem_nil,
    or_false] at he
  rcases he with rfl | rfl | rfl
  · cases hv
  · cases hv
  · rw [← StageBEvent.cost.inj hv]
    exact flatCost_sellable _ _

theorem airbnb_price_returns : ∃ r, run StageB.step {} (eventsAt (channelEvents .airbnb)) = .ok r := by
  refine stageB_returns_without_mixed (channelEvents_nonDecreasing _) (channelEvents_sellable _) ?_
  refine along_of_forall (fun s e he _ value hv => ?_) _
  simp only [eventsAt, channelEvents, List.map_cons, List.map_nil, List.mem_cons, List.not_mem_nil,
    or_false] at he
  rcases he with rfl | rfl | rfl
  · rw [← StageBEvent.market.inj hv]
    decide
  · rw [← StageBEvent.market.inj hv]
    decide
  · cases hv

/-- A `mixed` price is stored without a fan-out; after the blended one, the first apartment that prices
the night looks up a commission that does not exist. -/
theorem mixed_price_stops_stageB :
    ¬ ∀ es : List (Env × StageBEvent), NonDecreasing es →
      (∀ e ∈ es, ∀ value, e.2 = .cost value → value.Sellable) → ∃ r, run StageB.step {} es = .ok r := by
  intro h
  obtain ⟨r, hr⟩ := h _ (channelEvents_nonDecreasing .mixed) (channelEvents_sellable .mixed)
  have hraises : (run StageB.step {} (eventsAt (channelEvents .mixed))).toOption.isNone := by
    decide +kernel
  rw [hr] at hraises
  cases hraises

end PriceEngine
