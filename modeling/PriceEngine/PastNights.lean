import PriceEngine.Totality

/-!
# Decisions for nights of the past

A decision is made at one reading of the clock per job, and each job's night is
known before the event is handled. `pricedDates` lists those nights; a step
emits no decision for the past exactly when each of them is at or after the
date of its own reading. The market path checks its date once, before the
fan-out; the cost path does not check at all, and prices what is stored. What is
stored is settled by the market events alone (`stored_iff`): a night leaves
with the first market event that is accepted after its end. So where no midnight
passes while an event is handled, a run prices no past night exactly if each
accepted cost event finds every night that is over already expired.
-/

namespace PriceEngine

def knownNights (s : StageB) : List Date := (s.nights.entries.filter fun e => e.2.blended.isSome).map (·.1)

/-- The night of each decision an accepted event leads to, in order. -/
def pricedDates (s : StageB) (e : Env × StageBEvent) : List Date :=
  match e.2 with
  | .cost _ => knownNights s
  | .market value =>
    if (s.nightOf value).blended.isNone then [] else List.replicate s.apartments.size value.targetDate

/-- No night is priced at a reading of the clock that has left it behind. -/
def PricesNoPastNight (s : StageB) (e : Env × StageBEvent) : Prop :=
  s.accepts e = true → ∀ d ∈ (pricedDates s e).zipIdx e.2.clock, Instant.date (e.1.now d.2) ≤ d.1

def PriceDecision.NotPast (d : PriceDecision) : Prop := Instant.date d.decidedAt ≤ d.targetDate

theorem jobs_targetDates (s : StageB) (e : Env × StageBEvent) :
    (s.jobs e).map (·.targetDate) = pricedDates s e := by
  obtain ⟨env, value | value⟩ := e
  · simp [StageB.jobs, costJobs, pricedDates, knownNights]
  · simp only [StageB.jobs, pricedDates]
    split
    · rfl
    · rw [marketJobs, List.map_map, acceptMarket_apartments]
      exact List.map_const' ..

theorem step_notPast_iff {s s' : StageB} {e : Env × StageBEvent} {ds : List PriceDecision}
    (h : s.step e = .ok (s', ds)) : (∀ d ∈ ds, d.NotPast) ↔ PricesNoPastNight s e := by
  rcases StageB.step_cases h with ⟨hacc, -, rfl⟩ | ⟨hacc, streaks, hr, -⟩
  · exact iff_of_true (fun d hd => nomatch hd) fun hacc' => by rw [hacc] at hacc'; cases hacc'
  have hjobs : (∀ j ∈ (s.jobs e).zipIdx e.2.clock, Instant.date (e.1.now j.2) ≤ j.1.targetDate) ↔
      ∀ d ∈ ds, d.NotPast := by
    have hprices := (reprice_prices (fun _ => trivial) (fun _ _ _ => trivial) hr).1
    refine forall_mem_iff_of_forall₂ hprices fun job d hp => ?_
    obtain ⟨-, hd, ht⟩ := hp.fields
    rw [PriceDecision.NotPast, hd, ht]
  rw [← hjobs, PricesNoPastNight, ← jobs_targetDates, List.zipIdx_map, List.forall_mem_map]
  exact ⟨fun hall _ => hall, fun hall => hall hacc⟩

/-- A run emits no decision for the past exactly when no step prices a night the clock has left
behind. -/
theorem notPast_iff_pricesNoPastNight {es : List (Env × StageBEvent)} {s : StageB} {ds : List PriceDecision}
    (h : run StageB.step {} es = .ok (s, ds)) :
    (∀ d ∈ ds, d.NotPast) ↔ Along StageB.step PricesNoPastNight {} es :=
  run_outputs_iff (fun _ _ _ _ => step_notPast_iff) h

/-! ## Nights that are over -/

/-- No midnight passes while the event is handled. -/
def Env.OneDay (env : Env) : Prop := ∀ i, Instant.date (env.now i) = Instant.date (env.now 0)

def marketEvent : Env × StageBEvent → List (Env × MarketPrice)
  | (_, .cost _) => []
  | (env, .market value) => [(env, value)]

/-- The market events that a run from the start has accepted, the last one at the end. -/
def acceptedMarkets (es : List (Env × StageBEvent)) : List (Env × MarketPrice) :=
  observed StageB.step (fun s e _ ms => if s.accepts e then ms ++ marketEvent e else ms) {} [] es

/-- Of the nights with a blended price, those that are over by `today` were over when the last market event came. -/
def NightsExpired (ms : List (Env × MarketPrice)) (today : Date) : Prop :=
  ∀ last ∈ ms.getLast?, ∀ m ∈ ms, m.2.marketContext.platform = none → m.2.targetDate < today →
    m.2.targetDate < Instant.date (last.1.now 0)

/-- A night may end, but a market event is accepted before the next cost event is. -/
def CostsAfterExpiry (es : List (Env × StageBEvent)) : Prop :=
  ∀ p env value q s ds, es = p ++ (env, .cost value) :: q → run StageB.step {} p = .ok (s, ds) →
    s.accepts (env, .cost value) = true → NightsExpired (acceptedMarkets p) (Instant.date (env.now 0))

theorem mem_knownNights {s : StageB} {d : Date} :
    d ∈ knownNights s ↔ (previousSnapshot (s.nights.get? d) none).isSome := by
  simp only [knownNights, List.mem_map, List.mem_filter, Prod.exists, Dict.mem_entries]
  refine ⟨?_, fun h => ?_⟩
  · rintro ⟨d, night, ⟨hn, hb⟩, rfl⟩
    rw [hn]
    exact hb
  · cases hn : s.nights.get? d with
    | none => rw [hn] at h; cases h
    | some night => exact ⟨d, night, ⟨hn, by rw [hn] at h; exact h⟩, rfl⟩

theorem acceptedMarkets_concat {p : List (Env × StageBEvent)} {e : Env × StageBEvent} {s s' : StageB}
    {ds o : List PriceDecision} (hp : run StageB.step {} p = .ok (s, ds)) (he : s.step e = .ok (s', o)) :
    acceptedMarkets (p ++ [e]) = if s.accepts e then acceptedMarkets p ++ marketEvent e else acceptedMarkets p :=
  observed_concat hp he

theorem acceptedMarkets_mem {es : List (Env × StageBEvent)} {s : StageB} {ds : List PriceDecision}
    (h : run StageB.step {} es = .ok (s, ds)) : ∀ m ∈ acceptedMarkets es, (m.1, .market m.2) ∈ es := by
  refine run_prefix (I := fun p _ _ => ∀ m ∈ acceptedMarkets p, (m.1, .market m.2) ∈ p)
    (fun _ hm => nomatch hm) ?_ h
  intro p e q s os s' o _ hp hi hstep m hm
  rw [acceptedMarkets_concat hp hstep] at hm
  have hmem : m ∈ acceptedMarkets p ∨ m ∈ marketEvent e := by
    split_ifs at hm
    · exact List.mem_append.mp hm
    · exact .inl hm
  rcases hmem with hm | hm
  · exact List.mem_append_left _ (hi m hm)
  · obtain ⟨env, value | value⟩ := e
    · cases hm
    · obtain rfl := List.mem_singleton.mp hm
      exact List.mem_append_right _ (List.mem_singleton_self _)

/-- A price of another night, or of a channel, adds no blended price to a night. -/
theorem blended_accepted_append {ms : List (Env × MarketPrice)} {m : Env × MarketPrice} {d : Date}
    (h : ¬ (m.2.marketContext.platform = none ∧ m.2.targetDate = d)) :
    (∃ x ∈ ms ++ [m], x.2.marketContext.platform = none ∧ x.2.targetDate = d) ↔
      ∃ x ∈ ms, x.2.marketContext.platform = none ∧ x.2.targetDate = d := by
  simp only [List.mem_append, List.mem_singleton, or_and_right, exists_or, exists_eq_left, or_iff_left h]

/-- A night has its blended price stored where one was accepted and no market event came after its end. -/
theorem stored_iff {es : List (Env × StageBEvent)} {s : StageB} {ds : List PriceDecision} (hclock : Chronological es)
    (hday : ∀ e ∈ es, e.1.OneDay) (h : run StageB.step {} es = .ok (s, ds)) : ∀ d,
    (previousSnapshot (s.nights.get? d) none).isSome ↔
      (∃ m ∈ acceptedMarkets es, m.2.marketContext.platform = none ∧ m.2.targetDate = d) ∧
        ∀ last ∈ (acceptedMarkets es).getLast?, Instant.date (last.1.now 0) ≤ d := by
  refine run_prefix (I := fun p s _ => ∀ d, (previousSnapshot (s.nights.get? d) none).isSome ↔
      (∃ m ∈ acceptedMarkets p, m.2.marketContext.platform = none ∧ m.2.targetDate = d) ∧
        ∀ last ∈ (acceptedMarkets p).getLast?, Instant.date (last.1.now 0) ≤ d) ?_ ?_ h
  · intro d
    refine iff_of_false (fun hs => ?_) (fun hm => ?_)
    · cases hs
    · obtain ⟨⟨m, hm, -⟩, -⟩ := hm
      cases hm
  intro p e q s os s' o hsplit hp hi hstep d
  rw [acceptedMarkets_concat hp hstep]
  rcases StageB.step_cases hstep with ⟨hacc, rfl, -⟩ | ⟨hacc, streaks, -, rfl⟩
  · rw [hacc]
    exact hi d
  rw [if_pos hacc, StageB.withStreaks_nights]
  obtain ⟨env, value | value⟩ := e
  · rw [StageB.accept_cost, acceptCost_nights, marketEvent, List.append_nil]
    exact hi d
  have hbefore : ∀ last ∈ (acceptedMarkets p).getLast?, Instant.date (last.1.now 0) ≤ Instant.date (env.now 0) := by
    intro last hlast
    have hin := acceptedMarkets_mem hp last (List.mem_of_getLast? hlast)
    have hpairs := hclock.between
    rw [hsplit, List.pairwise_append] at hpairs
    exact hpairs.2.2 _ hin _ (List.mem_cons_self ..) 0 0
  have hfuture : Instant.date (env.now 0) ≤ value.targetDate := by
    simp only [StageB.accepts, Bool.and_eq_true, Bool.not_eq_true', decide_eq_false_iff_not] at hacc
    exact not_lt.mp hacc.1
  rw [StageB.accept_market, acceptMarket_nights, hday (env, .market value) (by simp [hsplit]) 1, marketEvent,
    List.getLast?_concat]
  simp only [Option.mem_def, Option.some.injEq, forall_eq']
  have hlast : ∀ last ∈ (acceptedMarkets p).getLast?, Instant.date (env.now 0) ≤ d →
      Instant.date (last.1.now 0) ≤ d := fun last hlast => (hbefore last hlast).trans
  by_cases hd : d = value.targetDate
  · -- the event's own night
    subst hd
    rw [if_pos rfl, previousSnapshot_nightOf]
    by_cases hplatform : none = value.marketContext.platform
    · rw [if_pos hplatform]
      exact iff_of_true rfl ⟨⟨(env, value), List.mem_append_right _ (List.mem_singleton_self _), hplatform.symm, rfl⟩,
        hfuture⟩
    · rw [if_neg hplatform, hi, blended_accepted_append fun hnew => hplatform hnew.1.symm]
      exact and_congr_right fun _ => iff_of_true (fun last hl => hlast last hl hfuture) hfuture
  · rw [if_neg hd]
    split_ifs with hover
    · exact iff_of_false (fun hs => by cases hs) fun hm => absurd hover (not_lt.mpr hm.2)
    · rw [hi, blended_accepted_append fun hnew => hd hnew.2.symm]
      have hlive := not_lt.mp hover
      exact and_congr_right fun _ => iff_of_true (fun last hl => hlast last hl hlive) hlive

/-- A market event prices its own night, which its guard has found not to be over; a cost event prices what is
stored. -/
theorem pricesNoPastNight_iff {p : List (Env × StageBEvent)} {e : Env × StageBEvent} {s : StageB}
    {ds : List PriceDecision} (hclock : Chronological p) (hday : ∀ f ∈ p, f.1.OneDay) (he : e.1.OneDay)
    (h : run StageB.step {} p = .ok (s, ds)) :
    PricesNoPastNight s e ↔ ∀ value, e.2 = .cost value → s.accepts e = true →
      NightsExpired (acceptedMarkets p) (Instant.date (e.1.now 0)) := by
  have hdates : (∀ d ∈ (pricedDates s e).zipIdx e.2.clock, Instant.date (e.1.now d.2) ≤ d.1) ↔
      ∀ d ∈ pricedDates s e, Instant.date (e.1.now 0) ≤ d := by
    conv_rhs => rw [← List.zipIdx_map_fst e.2.clock (pricedDates s e), List.forall_mem_map]
    exact forall₂_congr fun d _ => by rw [he d.2]
  rw [PricesNoPastNight, hdates]
  obtain ⟨env, value | value⟩ := e
  · rw [pricedDates]
    refine ⟨fun hall value _ hacc last hlast m hm hblended hover => ?_, fun hall hacc d hd => ?_⟩
    · by_contra hstored
      have hnight := (stored_iff hclock hday h m.2.targetDate).mpr
        ⟨⟨m, hm, hblended, rfl⟩, fun last' hlast' => by
          rw [Option.some.inj (Eq.trans (Eq.symm hlast') hlast)]
          exact not_lt.mp hstored⟩
      exact absurd hover (not_lt.mpr (hall hacc _ (mem_knownNights.mpr hnight)))
    · obtain ⟨⟨m, hm, hblended, rfl⟩, hstored⟩ := (stored_iff hclock hday h d).mp (mem_knownNights.mp hd)
      obtain ⟨last, hlast⟩ := Option.isSome_iff_exists.mp (List.getLast?_isSome.mpr (List.ne_nil_of_mem hm))
      exact not_lt.mp fun hover =>
        absurd (hall value rfl hacc last hlast m hm hblended hover) (not_lt.mpr (hstored last hlast))
  · refine iff_of_true (fun hacc d hd => ?_) fun _ hcost => nomatch hcost
    simp only [pricedDates] at hd
    split_ifs at hd
    · cases hd
    · rw [List.eq_of_mem_replicate hd]
      simp only [StageB.accepts, Bool.and_eq_true, Bool.not_eq_true', decide_eq_false_iff_not] at hacc
      exact not_lt.mp hacc.1

/-- Where no midnight passes while an event is handled: a run emits no decision for the past exactly if no accepted
cost event comes after a priced night has ended but before a market event has expired it. -/
theorem notPast_iff_costsAfterExpiry {es : List (Env × StageBEvent)} {s : StageB} {ds : List PriceDecision}
    (hclock : NonDecreasing es) (hday : ∀ e ∈ es, e.1.OneDay) (h : run StageB.step {} es = .ok (s, ds)) :
    (∀ d ∈ ds, d.NotPast) ↔ CostsAfterExpiry es := by
  rw [notPast_iff_pricesNoPastNight h]
  have hstep : ∀ p e q t ot, es = p ++ e :: q → run StageB.step {} p = .ok (t, ot) →
      (PricesNoPastNight t e ↔ ∀ value, e.2 = .cost value → t.accepts e = true →
        NightsExpired (acceptedMarkets p) (Instant.date (e.1.now 0))) := by
    intro p e q t ot hsplit hp
    have hsub : p.Sublist es := hsplit ▸ List.sublist_append_left p (e :: q)
    exact pricesNoPastNight_iff (hclock.chronological.sublist hsub) (fun f hf => hday f (hsub.subset hf))
      (hday e (by simp [hsplit])) hp
  refine ⟨fun hall p env value q t ot hsplit hp hacc => ?_, fun hcosts => along_of_splits fun p e q t ot hsplit hp => ?_⟩
  · exact (hstep p _ q t ot hsplit hp).mp (along_split hall p _ q t ot hsplit hp) value rfl hacc
  · refine (hstep p e q t ot hsplit hp).mpr fun value hcost hacc => ?_
    obtain ⟨env, event⟩ := e
    obtain rfl : event = .cost value := hcost
    exact hcosts p env value q t ot hsplit hp hacc

/-- The night of 1970-01-01 is priced on its day; the apartment's costs arrive at `t`. -/
def lateCostEvents (t : Instant) : List (Instant × StageBEvent) :=
  [(0, .market (flatMarket none (toordinal 1970 1 1) 0)), (t, .cost (flatCost "a1" 0))]

/-- Two nights on the first day, and one of them again on the next, before the costs arrive. -/
def nextDayEvents : List (Instant × StageBEvent) :=
  [(0, .market (flatMarket none (toordinal 1970 1 1) 0)), (0, .market (flatMarket none (toordinal 1970 1 2) 0)),
    (86400000000, .market (flatMarket none (toordinal 1970 1 2) 1)), (86400000001, .cost (flatCost "a1" 0))]

theorem flatEvents_isOk {events : List (Instant × StageBEvent)} (hclock : NonDecreasing (eventsAt events))
    (hflat : ∀ e ∈ events, (∃ d t, e.2 = .market (flatMarket none d t)) ∨ ∃ a t, e.2 = .cost (flatCost a t)) :
    ∃ r, run StageB.step {} (eventsAt events) = .ok r := by
  refine run_isOk hclock.chronological StageB.ready_empty ?_ fun _ _ _ => Dict.all_empty _
  refine along_of_forall (fun s e he _ => ?_) _
  obtain ⟨⟨t, event⟩, hmem, rfl⟩ := List.mem_map.mp he
  rcases hflat _ hmem with ⟨d, t', hmarket⟩ | ⟨a, t', hcost⟩
  · obtain rfl : event = _ := hmarket
    intro hmixed
    cases hmixed
  · obtain rfl : event = _ := hcost
    exact (flatCost_sellable _ _).priceable

theorem lateCostEvents_isOk {t : Instant} (ht : 0 ≤ t) :
    ∃ r, run StageB.step {} (eventsAt (lateCostEvents t)) = .ok r := by
  refine flatEvents_isOk (nonDecreasing_eventsAt (by simpa [lateCostEvents] using ht)) ?_
  simp only [lateCostEvents, List.forall_mem_cons]
  exact ⟨.inl ⟨_, _, rfl⟩, .inr ⟨_, _, rfl⟩, by simp⟩

/-- The first night is over when the costs come, and has been expired: one decision, for the other. -/
theorem next_day_costs_price_no_past_night : ∃ s ds, run StageB.step {} (eventsAt nextDayEvents) = .ok (s, ds) ∧
    ds.map (·.targetDate) = [toordinal 1970 1 2] ∧ ∀ d ∈ ds, d.NotPast := by
  have hclock : NonDecreasing (eventsAt nextDayEvents) := nonDecreasing_eventsAt (by decide)
  obtain ⟨⟨s, ds⟩, h⟩ := flatEvents_isOk hclock (by
    simp only [nextDayEvents, List.forall_mem_cons]
    exact ⟨.inl ⟨_, _, rfl⟩, .inl ⟨_, _, rfl⟩, .inl ⟨_, _, rfl⟩, .inr ⟨_, _, rfl⟩, by simp⟩)
  have hday : ∀ e ∈ eventsAt nextDayEvents, e.1.OneDay := by
    intro e he i
    obtain ⟨e, -, rfl⟩ := List.mem_map.mp he
    rfl
  refine ⟨s, ds, h, ?_, (notPast_iff_costsAfterExpiry hclock hday h).mpr ?_⟩
  · have hdates : (run StageB.step {} (eventsAt nextDayEvents)).toOption.map (fun r => r.2.map (·.targetDate)) =
        some [toordinal 1970 1 2] := by decide +kernel
    rw [h] at hdates
    exact Option.some.inj hdates
  · intro p env value q t ot hsplit _ _
    match p, hsplit with
    | [a, b, c], hsplit =>
      cases hsplit
      have hms : acceptedMarkets (eventsAt (nextDayEvents.take 3)) =
          [(envAt 0, flatMarket none (toordinal 1970 1 1) 0), (envAt 0, flatMarket none (toordinal 1970 1 2) 0),
            (envAt 86400000000, flatMarket none (toordinal 1970 1 2) 1)] := rfl
      refine (congrArg (NightsExpired · _) hms).mpr ?_
      intro last hlast m hm _ hover
      obtain rfl := Option.some.inj hlast
      simp only [List.mem_cons, List.not_mem_nil, or_false] at hm
      rcases hm with rfl | rfl | rfl
      · decide
      · exact absurd hover (by decide)
      · exact absurd hover (by decide)
    | [], hsplit => cases hsplit
    | [a], hsplit => cases hsplit
    | [a, b], hsplit => cases hsplit
    | a :: b :: c :: d :: p, hsplit =>
      have hlength := congrArg List.length hsplit
      simp [eventsAt, nextDayEvents] at hlength

/-- One day later the same costs price the night that is over. -/
theorem late_costs_price_past_night :
    ¬ ∀ es : List (Env × StageBEvent), NonDecreasing es → ∀ s ds, run StageB.step {} es = .ok (s, ds) →
      ∀ d ∈ ds, d.NotPast := by
  intro h
  obtain ⟨⟨s, ds⟩, hr⟩ := lateCostEvents_isOk (show 0 ≤ 86400000000 by decide)
  have hpast := h _ (nonDecreasing_eventsAt (by decide)) s ds hr
  have halong := (notPast_iff_pricesNoPastNight hr).mp hpast
  have hstep := ((along_cons_iff rfl).mp halong).2.1 rfl (toordinal 1970 1 1, 1) (by decide +kernel)
  exact absurd hstep (by decide)

end PriceEngine
