import PriceEngine.Totality
import Mathlib.Data.Finset.Card

/-!
# Stage B as a join of two independent sides

On one day, with room for every apartment, the stored apartments depend on the
cost events alone (`keepCost`) and the stored nights on the market events alone
(`keepMarket`). `Current` says that the last decision of every known pair was
computed from what is stored now; a step keeps it because its fan-out covers
exactly the pairs it changed. Two interleavings of the same events therefore
end in the same table.
-/

namespace PriceEngine

/-! ## The table of decisions -/

def Job.pair (job : Job) : String × Date := (job.apartmentId, job.targetDate)

def lastDecision (ds : List PriceDecision) (pair : String × Date) : Option PriceDecision :=
  ds.reverse.find? (·.pair == pair)

/-- What a decision says apart from its id and the time it was made. -/
def PriceDecisionRecord.timeless (r : PriceDecisionRecord) : PriceDecisionRecord :=
  { r with decisionId := "", decidedAt := 0, marketInputs := { r.marketInputs with dataAgeSeconds := 0 } }

/-- The decision was computed on `day` from this cost and this night. -/
def PricedFrom (day : Date) (cost : CostAggregate) (night : NightSnapshot) (targetDate : Date)
    (d : PriceDecision) : Prop :=
  ∃ decisionId decidedAt since since', Instant.date decidedAt = day ∧ (∀ x ∈ since, x = day) ∧
    buildPriceDecision decisionId decidedAt cost night targetDate since = .ok (d, since')

theorem lastDecision_mem {ds : List PriceDecision} {pair : String × Date} {d : PriceDecision}
    (h : lastDecision ds pair = some d) : d ∈ ds ∧ d.pair = pair :=
  ⟨List.mem_reverse.mp (List.mem_of_find?_eq_some h), by simpa using List.find?_some h⟩

theorem lastDecision_append (ds o : List PriceDecision) (pair : String × Date) :
    lastDecision (ds ++ o) pair = (lastDecision o pair).or (lastDecision ds pair) := by
  rw [lastDecision, List.reverse_append, List.find?_append]
  rfl

theorem lastDecision_eq_none {ds : List PriceDecision} {pair : String × Date} :
    lastDecision ds pair = none ↔ ∀ d ∈ ds, d.pair ≠ pair := by
  simp [lastDecision]

/-- On its own day a streak is no days old, whenever it began. -/
theorem newFloorBreachSince_today {today : Date} {since : Option Date} (h : ∀ x ∈ since, x = today)
    (rule : RuleApplied) : newFloorBreachSince rule today since = newFloorBreachSince rule today none := by
  cases since with
  | none => rfl
  | some x => rw [h x rfl]; rfl

theorem PricedFrom.timeless_eq {day : Date} {cost : CostAggregate} {night : NightSnapshot} {targetDate : Date}
    {d d' : PriceDecision} (h : PricedFrom day cost night targetDate d)
    (h' : PricedFrom day cost night targetDate d') :
    d.toPriceDecisionRecord.timeless = d'.toPriceDecisionRecord.timeless := by
  obtain ⟨id, t, since, _, ht, hs, hb⟩ := h
  obtain ⟨id', t', since', _, ht', hs', hb'⟩ := h'
  obtain ⟨market, stay, channels, hm, hstay, hch, hd, -⟩ := buildPriceDecision_eq_ok.mp hb
  obtain ⟨market', stay', channels', hm', hstay', hch', hd', -⟩ := buildPriceDecision_eq_ok.mp hb'
  rw [ht] at hstay hch
  rw [ht'] at hstay' hch'
  obtain rfl : market = market' := Option.some.inj (hm.symm.trans hm')
  obtain rfl : stay = stay' := Except.ok.inj (hstay.symm.trans hstay')
  obtain rfl : channels = channels' := Except.ok.inj (hch.symm.trans hch')
  rw [hd, hd']
  simp only [PriceDecisionRecord.timeless, decisionRecord, ht, ht', newFloorBreachSince_today hs,
    newFloorBreachSince_today hs']

/-! ## The two sides -/

def costsOf : List (Env × StageBEvent) → List CostAggregate
  | [] => []
  | (_, .cost value) :: es => value :: costsOf es
  | (_, .market _) :: es => costsOf es

def marketsOf : List (Env × StageBEvent) → List MarketPrice
  | [] => []
  | (_, .cost _) :: es => marketsOf es
  | (_, .market value) :: es => value :: marketsOf es

/-- The cost side alone: every apartment keeps its newest aggregate. -/
def keepCost (apartments : Dict String CostAggregate) (value : CostAggregate) : Dict String CostAggregate :=
  if isSafeToOverwrite value.updatedAt ((apartments.get? value.apartmentId).map (·.updatedAt)) then
    apartments.put value.apartmentId value
  else apartments

/-- The market side alone: every night from `day` on keeps its newest snapshots. -/
def keepMarket (day : Date) (nights : Dict Date NightSnapshot) (value : MarketPrice) :
    Dict Date NightSnapshot :=
  let existing := nights.get? value.targetDate
  let previous := previousSnapshot existing value.marketContext.platform
  if ¬ value.targetDate < day ∧ isSafeToOverwrite value.collectedAt (previous.map (·.collectedAt)) then
    nights.put value.targetDate (updateNight existing value.marketContext.platform (snapshotOf value))
  else nights

structure StageB.OnDay (day : Date) (ids : Finset String) (s : StageB) : Prop where
  ids : ∀ a ∈ s.apartments.keys, a ∈ ids
  own : s.apartments.All fun a cost => cost.apartmentId = a
  nights : ∀ d ∈ s.nights.keys, day ≤ d
  streaks : s.floorBreachSince.All fun _ since => since = day

/-- An event handled on `day` about an apartment among `ids`, or about a market. -/
structure EventOnDay (day : Date) (ids : Finset String) (e : Env × StageBEvent) : Prop where
  day : ∀ i, Instant.date (e.1.now i) = day
  ids : ∀ value, e.2 = .cost value → value.apartmentId ∈ ids

theorem StageB.onDay_empty (day : Date) (ids : Finset String) : ({} : StageB).OnDay day ids where
  ids _ h := nomatch h
  own := Dict.all_empty _
  nights _ h := nomatch h
  streaks := Dict.all_empty _

section
variable {day : Date} {ids : Finset String} {s : StageB} (hs : s.OnDay day ids)
include hs

theorem evicted_none (hcard : ids.card ≤ hoja1MaxEntriesPerSegment) {value : CostAggregate}
    (hv : value.apartmentId ∈ ids) : s.evicted value = none := by
  have hsub : (s.apartments.put value.apartmentId value).keys.toFinset ⊆ ids := by
    intro a ha
    rcases Dict.mem_keys_put.mp (List.mem_toFinset.mp ha) with rfl | ha
    · exact hv
    · exact hs.ids a ha
  have hsize : (s.apartments.put value.apartmentId value).size ≤ ids.card := by
    rw [← Dict.keys_length, ← List.toFinset_card_of_nodup (Dict.keys_nodup _)]
    exact Finset.card_le_card hsub
  exact if_neg fun hfull => absurd (of_decide_eq_true hfull) (not_lt.mpr (hsize.trans hcard))

theorem expireNights_nights : (expireNights day s).nights = s.nights := by
  rw [expireNights, dropNights_eq]
  refine Dict.removeWhere_eq_self fun d hd => decide_eq_false fun hm => ?_
  exact absurd (mem_expiredNightKeys.mp hm).2 (not_lt.mpr (hs.nights d hd))

theorem accept_onDay {e : Env × StageBEvent} (he : EventOnDay day ids e) (hacc : s.accepts e = true) :
    (s.accept e).OnDay day ids := by
  obtain ⟨env, value | value⟩ := e
  · refine ⟨fun a ha => ?_, fun a c hc => ?_, fun d hd => ?_, accept_streaks_all hs.streaks _⟩
    · rw [Dict.mem_keys_iff_isSome, StageB.accept_cost, acceptCost_apartments] at ha
      split_ifs at ha with h1 h2
      · rw [h1]
        exact he.ids value rfl
      · cases ha
      · exact hs.ids a (Dict.mem_keys_iff_isSome.mpr ha)
    · rw [StageB.accept_cost, acceptCost_apartments] at hc
      split_ifs at hc with h1
      · rw [← Option.some.inj hc, h1]
      · exact hs.own a c hc
    · rw [StageB.accept_cost, acceptCost_nights] at hd
      exact hs.nights d hd
  · refine ⟨?_, ?_, fun d hd => ?_, accept_streaks_all hs.streaks _⟩
    · rw [StageB.accept_market, acceptMarket_apartments]
      exact hs.ids
    · rw [StageB.accept_market, acceptMarket_apartments]
      exact hs.own
    · rw [Dict.mem_keys_iff_isSome, StageB.accept_market, acceptMarket_nights] at hd
      split_ifs at hd with h1 h2
      · simp only [StageB.accepts, Bool.and_eq_true, Bool.not_eq_true', decide_eq_false_iff_not,
          he.day 0] at hacc
        rw [h1]
        exact not_lt.mp hacc.1
      · cases hd
      · exact hs.nights d (Dict.mem_keys_iff_isSome.mpr hd)

theorem step_onDay {e : Env × StageBEvent} (he : EventOnDay day ids e) {s' : StageB} {o : List PriceDecision}
    (h : s.step e = .ok (s', o)) : s'.OnDay day ids := by
  have hstreaks := step_streaks_all h hs.streaks he.day
  rcases StageB.step_cases h with ⟨-, rfl, -⟩ | ⟨hacc, streaks, -, rfl⟩
  · exact hs
  · obtain ⟨hids, hown, hnights, -⟩ := accept_onDay hs he hacc
    exact ⟨hids, hown, hnights, hstreaks⟩

theorem step_sides (hcard : ids.card ≤ hoja1MaxEntriesPerSegment) {e : Env × StageBEvent}
    (he : EventOnDay day ids e) {s' : StageB} {o : List PriceDecision} (h : s.step e = .ok (s', o)) :
    s'.apartments = (costsOf [e]).foldl keepCost s.apartments ∧
      s'.nights = (marketsOf [e]).foldl (keepMarket day) s.nights := by
  obtain ⟨env, value | value⟩ := e
  · simp only [costsOf, marketsOf, List.foldl_cons, List.foldl_nil, keepCost]
    rcases StageB.step_cases h with ⟨hrej, rfl, -⟩ | ⟨hacc, streaks, -, rfl⟩
    · simp only [StageB.accepts] at hrej
      simp [hrej]
    · simp only [StageB.accepts] at hacc
      simp only [StageB.withStreaks_apartments, StageB.withStreaks_nights, StageB.accept_cost, hacc,
        acceptCost_eq, evicted_none hs hcard (he.ids value rfl), if_true]
      exact ⟨rfl, rfl⟩
  · have hiff : s.accepts (env, .market value) = true ↔ ¬ value.targetDate < day ∧
        isSafeToOverwrite value.collectedAt ((previousSnapshot (s.nights.get? value.targetDate)
          value.marketContext.platform).map (·.collectedAt)) = true := by
      simp [StageB.accepts, he.day 0]
    simp only [costsOf, marketsOf, List.foldl_cons, List.foldl_nil, keepMarket]
    rcases StageB.step_cases h with ⟨hrej, rfl, -⟩ | ⟨hacc, streaks, -, rfl⟩
    · rw [if_neg fun hc => by rw [hiff.mpr hc] at hrej; cases hrej]
      exact ⟨rfl, rfl⟩
    · rw [if_pos (hiff.mp hacc), StageB.withStreaks_apartments, StageB.withStreaks_nights,
        StageB.accept_market, acceptMarket_apartments]
      have hnights := expireNights_nights hs
      refine ⟨rfl, ?_⟩
      simp only [acceptMarket, putNight, he.day 1, hnights]

end

theorem costsOf_cons (e : Env × StageBEvent) (es : List (Env × StageBEvent)) :
    costsOf (e :: es) = costsOf [e] ++ costsOf es := by
  obtain ⟨env, value | value⟩ := e <;> rfl

theorem marketsOf_cons (e : Env × StageBEvent) (es : List (Env × StageBEvent)) :
    marketsOf (e :: es) = marketsOf [e] ++ marketsOf es := by
  obtain ⟨env, value | value⟩ := e <;> rfl

section
variable {day : Date} {ids : Finset String} (hcard : ids.card ≤ hoja1MaxEntriesPerSegment)
  {es : List (Env × StageBEvent)} (hes : ∀ e ∈ es, EventOnDay day ids e)
include hcard hes

theorem run_sides {s s' : StageB} (hs : s.OnDay day ids) {ds : List PriceDecision}
    (h : run StageB.step s es = .ok (s', ds)) :
    s'.apartments = (costsOf es).foldl keepCost s.apartments ∧
      s'.nights = (marketsOf es).foldl (keepMarket day) s.nights := by
  induction es generalizing s ds with
  | nil =>
    rw [(run_nil.mp h).1]
    exact ⟨rfl, rfl⟩
  | cons e es ih =>
    obtain ⟨s₁, o, os, hstep, hr, -⟩ := run_cons.mp h
    have he := hes e (List.mem_cons_self ..)
    obtain ⟨ha, hn⟩ := step_sides hs hcard he hstep
    obtain ⟨ha', hn'⟩ := ih (fun f hf => hes f (List.mem_cons_of_mem _ hf)) (step_onDay hs he hstep) hr
    rw [costsOf_cons, marketsOf_cons, List.foldl_append, List.foldl_append, ← ha, ← hn]
    exact ⟨ha', hn'⟩

end

/-! ## What one step emits -/

section
variable {s s' : StageB} {e : Env × StageBEvent} {o : List PriceDecision}

theorem jobs_pairs_nodup (s : StageB) (e : Env × StageBEvent) : ((s.jobs e).map Job.pair).Nodup := by
  obtain ⟨env, value | value⟩ := e
  · refine List.Nodup.of_map Prod.snd ?_
    simp only [StageB.jobs, costJobs, List.map_map]
    exact (Dict.keys_nodup _).sublist (List.filter_sublist.map _)
  · simp only [StageB.jobs]
    split
    · exact List.nodup_nil
    · refine List.Nodup.of_map Prod.fst ?_
      simp only [marketJobs, List.map_map]
      exact Dict.keys_nodup _

/-- An event that is not accepted leaves no trace; an accepted one emits one decision for each pair on
its side that is known once it is stored. -/
structure EmitsOnce (s s' : StageB) (e : Env × StageBEvent) (o : List PriceDecision) : Prop where
  discarded : s.accepts e = false → s' = s ∧ o = []
  once : (o.map PriceDecision.pair).Nodup
  pairs : s.accepts e = true → ∀ a d, (a, d) ∈ o.map PriceDecision.pair ↔
    e.2.Concerns a d ∧ a ∈ s'.apartments.keys ∧
      ∃ night, s'.nights.get? d = some night ∧ night.blended.isSome

theorem map_pair_eq {P : Date → Prop} {env : Env} {clock : ℕ} {jobs : List Job}
    (hown : ∀ job ∈ jobs, job.cost.apartmentId = job.apartmentId)
    (h : List.Forall₂ (fun job d => Prices P env job.2 job.1 d) (jobs.zipIdx clock) o) :
    o.map PriceDecision.pair = jobs.map Job.pair := by
  induction jobs generalizing clock o with
  | nil =>
    rw [List.forall₂_nil_left_iff.mp h]
    rfl
  | cons job jobs ih =>
    rw [List.zipIdx_cons] at h
    cases h with
    | cons hd hrest =>
      obtain ⟨ha, ht, -⟩ := hd.fields
      rw [List.map_cons, List.map_cons, ih (fun j hj => hown j (List.mem_cons_of_mem _ hj)) hrest,
        PriceDecision.pair, ha, ht, hown job (List.mem_cons_self ..), Job.pair]

theorem step_pairs (hs : s.Own) (h : s.step e = .ok (s', o)) (hacc : s.accepts e = true) :
    o.map PriceDecision.pair = (s.jobs e).map Job.pair := by
  obtain ⟨streaks, hr, -⟩ := StageB.step_accepted h hacc
  exact map_pair_eq (hs.jobs h hacc) (reprice_prices (fun _ => trivial) (fun _ _ _ => trivial) hr).1

theorem step_emitsOnce (hs : s.Own) (h : s.step e = .ok (s', o)) : EmitsOnce s s' e o := by
  refine ⟨StageB.step_rejected h, ?_, fun hacc a d => ?_⟩
  · cases hacc : s.accepts e with
    | false =>
      rw [(StageB.step_rejected h hacc).2]
      exact List.nodup_nil
    | true =>
      rw [step_pairs hs h hacc]
      exact jobs_pairs_nodup s e
  · rw [step_pairs hs h hacc, List.mem_map]
    obtain ⟨streaks, -, rfl⟩ := StageB.step_accepted h hacc
    constructor
    · intro ⟨job, hj, hpair⟩
      obtain ⟨rfl, rfl⟩ := Prod.mk.inj hpair
      obtain ⟨hside, hc, hn, hb⟩ := StageB.mem_jobs.mp hj
      exact ⟨hside, Dict.mem_keys.mpr ⟨_, hc⟩, _, hn, hb⟩
    · intro ⟨hside, ha, night, hn, hb⟩
      obtain ⟨cost, hc⟩ := Dict.mem_keys.mp ha
      exact ⟨⟨a, cost, night, d⟩, StageB.mem_jobs.mpr ⟨hside, hc, hn, hb⟩, rfl⟩

end

/-! ## The last decision is current -/

/-- The last decision of each known pair was computed from what is stored, and no other pair has one. -/
structure Current (day : Date) (s : StageB) (ds : List PriceDecision) : Prop where
  priced : ∀ a cost d night, s.apartments.get? a = some cost → s.nights.get? d = some night →
    night.blended.isSome → ∃ decision, lastDecision ds (a, d) = some decision ∧
      PricedFrom day cost night d decision
  stored : ∀ decision ∈ ds, decision.apartmentId ∈ s.apartments.keys ∧
    ∃ night, s.nights.get? decision.targetDate = some night ∧ night.blended.isSome

theorem current_empty (day : Date) : Current day {} [] where
  priced _ _ _ _ h := nomatch h
  stored _ h := nomatch h

section
variable {day : Date} {ids : Finset String} {s : StageB} {e : Env × StageBEvent}

theorem accept_frame {a : String} {d : Date} (hside : ¬ e.2.Concerns a d) {cost : CostAggregate}
    (hc : (s.accept e).apartments.get? a = some cost) {night : NightSnapshot}
    (hn : (s.accept e).nights.get? d = some night) :
    s.apartments.get? a = some cost ∧ s.nights.get? d = some night := by
  obtain ⟨env, value | value⟩ := e
  · have hside : a ≠ value.apartmentId := hside
    rw [StageB.accept_cost, acceptCost_apartments, if_neg hside] at hc
    rw [StageB.accept_cost, acceptCost_nights] at hn
    split at hc
    · cases hc
    · exact ⟨hc, hn⟩
  · have hside : d ≠ value.targetDate := hside
    rw [StageB.accept_market, acceptMarket_apartments] at hc
    rw [StageB.accept_market, acceptMarket_nights, if_neg hside] at hn
    split at hn
    · cases hn
    · exact ⟨hc, hn⟩

section
variable (hcard : ids.card ≤ hoja1MaxEntriesPerSegment) (hs : s.OnDay day ids) (he : EventOnDay day ids e)
include hs he

include hcard in
theorem accept_keeps_apartment {a : String} (ha : a ∈ s.apartments.keys) :
    a ∈ (s.accept e).apartments.keys := by
  obtain ⟨env, value | value⟩ := e
  · rw [Dict.mem_keys_iff_isSome] at ha ⊢
    rw [StageB.accept_cost, acceptCost_apartments, evicted_none hs hcard (he.ids value rfl)]
    split
    · rfl
    · exact ha
  · rwa [StageB.accept_market, acceptMarket_apartments]

theorem accept_keeps_night {d : Date}
    (hd : ∃ night, s.nights.get? d = some night ∧ night.blended.isSome) :
    ∃ night, (s.accept e).nights.get? d = some night ∧ night.blended.isSome := by
  obtain ⟨night, hn, hb⟩ := hd
  obtain ⟨env, value | value⟩ := e
  · exact ⟨night, by rwa [StageB.accept_cost, acceptCost_nights], hb⟩
  rw [StageB.accept_market, acceptMarket_nights]
  split
  · rename_i htarget
    refine ⟨_, rfl, ?_⟩
    change (previousSnapshot (some (s.nightOf value)) none).isSome
    rw [previousSnapshot_nightOf, ← htarget, hn]
    split
    · rfl
    · exact hb
  · have hlive : ¬ d < Instant.date (env.now 1) := by
      rw [he.day 1]
      exact not_lt.mpr (hs.nights d (Dict.mem_keys.mpr ⟨night, hn⟩))
    rw [if_neg hlive]
    exact ⟨night, hn, hb⟩

include hcard in
theorem step_current {ds : List PriceDecision} (hcur : Current day s ds) {s' : StageB}
    {o : List PriceDecision} (h : s.step e = .ok (s', o)) : Current day s' (ds ++ o) := by
  have hemit := step_emitsOnce hs.own h
  rcases StageB.step_cases h with ⟨-, rfl, rfl⟩ | ⟨hacc, streaks, hr, rfl⟩
  · rwa [List.append_nil]
  have hpairs := hemit.pairs hacc
  have hprices := (reprice_prices he.day (accept_streaks_all hs.streaks e) hr).1
  have hown := StageB.Own.jobs hs.own h hacc
  refine ⟨fun a cost d night hc hn hb => ?_, fun decision hm => ?_⟩
  · rw [lastDecision_append]
    by_cases hside : e.2.Concerns a d
    · -- the fan-out has just priced the pair
      have hmem := (hpairs a d).mpr ⟨hside, Dict.mem_keys.mpr ⟨cost, hc⟩, night, hn, hb⟩
      cases hlast : lastDecision o (a, d) with
      | none =>
        obtain ⟨decision, hm, hpair⟩ := List.mem_map.mp hmem
        exact absurd hpair (lastDecision_eq_none.mp hlast decision hm)
      | some decision =>
        refine ⟨decision, rfl, ?_⟩
        obtain ⟨hm, hpair⟩ := lastDecision_mem hlast
        obtain ⟨⟨job, i⟩, hj, hp⟩ := exists_of_forall₂ hprices decision hm
        have hjob : job ∈ s.jobs e := List.fst_mem_of_mem_zipIdx hj
        obtain ⟨-, hc', hn', -⟩ := StageB.mem_jobs.mp hjob
        obtain ⟨ha, ht, -⟩ := hp.fields
        obtain ⟨hpa, hpd⟩ := Prod.mk.inj hpair
        rw [← hown job hjob, ← ha, hpa] at hc'
        rw [← ht, hpd] at hn'
        obtain ⟨since, since', hP, hbuild⟩ := hp
        rw [← ht, hpd, ← Option.some.inj (hc.symm.trans hc'), ← Option.some.inj (hn.symm.trans hn')] at hbuild
        exact ⟨_, _, since, since', he.day i, hP, hbuild⟩
    · -- the fan-out has not touched the pair
      have hlast : lastDecision o (a, d) = none := lastDecision_eq_none.mpr fun decision hm hpair =>
        hside ((hpairs a d).mp (List.mem_map.mpr ⟨decision, hm, hpair⟩)).1
      obtain ⟨hc', hn'⟩ := accept_frame hside hc hn
      rw [hlast, Option.none_or]
      exact hcur.priced a cost d night hc' hn' hb
  · rcases List.mem_append.mp hm with hm | hm
    · obtain ⟨ha, hn⟩ := hcur.stored decision hm
      exact ⟨accept_keeps_apartment hcard hs he ha, accept_keeps_night hs he hn⟩
    · exact ((hpairs _ _).mp (List.mem_map.mpr ⟨decision, hm, rfl⟩)).2

end

end

/-! ## Runs -/

section
variable {day : Date} {ids : Finset String} (hcard : ids.card ≤ hoja1MaxEntriesPerSegment)
  {es : List (Env × StageBEvent)} (hes : ∀ e ∈ es, EventOnDay day ids e)

theorem chronological_of_onDay (hes : ∀ e ∈ es, EventOnDay day ids e) : Chronological es where
  within e he i j _ := by rw [(hes e he).day, (hes e he).day]
  between := by
    refine List.pairwise_of_forall_mem_list fun e he f hf i j => ?_
    rw [(hes e he).day, (hes f hf).day]

include hes

theorem run_onDay {s s' : StageB} (hs : s.OnDay day ids) {ds : List PriceDecision}
    (h : run StageB.step s es = .ok (s', ds)) : s'.OnDay day ids :=
  run_invariant (C := fun _ e => EventOnDay day ids e) (fun _ _ _ _ hs he h' => step_onDay hs he h') hs
    (along_of_forall (fun _ e he => hes e he) s) h

include hcard

theorem run_current {s s' : StageB} (hs : s.OnDay day ids) {ds os : List PriceDecision}
    (hcur : Current day s ds) (h : run StageB.step s es = .ok (s', os)) : Current day s' (ds ++ os) := by
  induction es generalizing s ds os with
  | nil =>
    obtain ⟨rfl, rfl⟩ := run_nil.mp h
    rwa [List.append_nil]
  | cons e es ih =>
    obtain ⟨s₁, o, os', hstep, hr, rfl⟩ := run_cons.mp h
    have he := hes e (List.mem_cons_self ..)
    rw [← List.append_assoc]
    exact ih (fun f hf => hes f (List.mem_cons_of_mem _ hf)) (step_onDay hs he hstep)
      (step_current hcard hs he hcur hstep) hr

end

theorem table_eq {day : Date} {s s' : StageB} {ds ds' : List PriceDecision} (h : Current day s ds)
    (h' : Current day s' ds') (ha : s'.apartments = s.apartments) (hn : s'.nights = s.nights)
    (pair : String × Date) :
    (lastDecision ds' pair).map (·.toPriceDecisionRecord.timeless) =
      (lastDecision ds pair).map (·.toPriceDecisionRecord.timeless) := by
  have hpriced : ∀ {t : StageB} {os : List PriceDecision} {d : PriceDecision}, Current day t os →
      lastDecision os pair = some d → ∃ cost night, t.apartments.get? pair.1 = some cost ∧
        t.nights.get? pair.2 = some night ∧ night.blended.isSome ∧ PricedFrom day cost night pair.2 d := by
    intro t os d hcur hlast
    obtain ⟨hm, hpair⟩ := lastDecision_mem hlast
    obtain ⟨hk, night, hnight, hb⟩ := hcur.stored d hm
    obtain ⟨cost, hcost⟩ := Dict.mem_keys.mp hk
    subst hpair
    obtain ⟨d', hlast', hp⟩ := hcur.priced _ _ _ _ hcost hnight hb
    obtain rfl : d = d' := Option.some.inj (hlast.symm.trans hlast')
    exact ⟨cost, night, hcost, hnight, hb, hp⟩
  cases hlast : lastDecision ds pair with
  | some d =>
    obtain ⟨cost, night, hcost, hnight, hb, hp⟩ := hpriced h hlast
    obtain ⟨d', hlast', hp'⟩ := h'.priced _ _ _ _ (ha ▸ hcost) (hn ▸ hnight) hb
    rw [hlast', Option.map_some, Option.map_some, hp.timeless_eq hp']
  | none =>
    cases hlast' : lastDecision ds' pair with
    | none => rfl
    | some d' =>
      obtain ⟨cost, night, hcost, hnight, hb, -⟩ := hpriced h' hlast'
      obtain ⟨d, hsome, -⟩ := h.priced _ _ _ _ (ha ▸ hcost) (hn ▸ hnight) hb
      rw [hlast] at hsome
      cases hsome

theorem mem_costsOf {es : List (Env × StageBEvent)} {env : Env} {value : CostAggregate}
    (h : (env, .cost value) ∈ es) : value ∈ costsOf es := by
  induction es with
  | nil => cases h
  | cons e es ih =>
    rw [costsOf_cons, List.mem_append]
    rcases List.mem_cons.mp h with rfl | h
    · exact Or.inl (List.mem_singleton.mpr rfl)
    · exact Or.inr (ih h)

theorem mem_marketsOf {es : List (Env × StageBEvent)} {env : Env} {value : MarketPrice}
    (h : (env, .market value) ∈ es) : value ∈ marketsOf es := by
  induction es with
  | nil => cases h
  | cons e es ih =>
    rw [marketsOf_cons, List.mem_append]
    rcases List.mem_cons.mp h with rfl | h
    · exact Or.inl (List.mem_singleton.mpr rfl)
    · exact Or.inr (ih h)

/-- `es` handles `cs` and `ms` on `day`, each in its own order. -/
structure Interleaves (day : Date) (cs : List CostAggregate) (ms : List MarketPrice)
    (es : List (Env × StageBEvent)) : Prop where
  costs : costsOf es = cs
  markets : marketsOf es = ms
  day : ∀ e ∈ es, ∀ i, Instant.date (e.1.now i) = day

section
variable {day : Date} {ids : Finset String} {cs : List CostAggregate} {ms : List MarketPrice}
  (hcs : ∀ c ∈ cs, c.Priceable ∧ c.apartmentId ∈ ids)
  (hms : ∀ m ∈ ms, m.marketContext.platform ≠ some .mixed) {es : List (Env × StageBEvent)}
  (hes : Interleaves day cs ms es)
include hcs hes

theorem interleaves_onDay : ∀ e ∈ es, EventOnDay day ids e := by
  intro e he
  refine ⟨hes.day e he, fun value hv => ?_⟩
  obtain ⟨env, event⟩ := e
  subst hv
  exact (hcs value (hes.costs ▸ mem_costsOf he)).2

include hms

theorem interleaves_isOk : ∃ r, run StageB.step {} es = .ok r := by
  refine run_isOk (chronological_of_onDay (interleaves_onDay hcs hes)) StageB.ready_empty ?_
    fun _ _ _ => Dict.all_empty _
  refine along_of_forall (fun s e he _ => ?_) _
  obtain ⟨env, value | value⟩ := e
  · exact (hcs value (hes.costs ▸ mem_costsOf he)).1
  · exact hms value (hes.markets ▸ mem_marketsOf he)

end

/-- No update is lost: after every step of every interleaving each side is what its own events make of it,
the table is current, and the step has emitted what its event changed. All interleavings end in the same
table. -/
theorem interleavings_agree {day : Date} {ids : Finset String} (hcard : ids.card ≤ hoja1MaxEntriesPerSegment)
    {cs : List CostAggregate} (hcs : ∀ c ∈ cs, c.Priceable ∧ c.apartmentId ∈ ids) {ms : List MarketPrice}
    (hms : ∀ m ∈ ms, m.marketContext.platform ≠ some .mixed) :
    (∀ es, Interleaves day cs ms es → ∀ es₁ e es₂, es = es₁ ++ e :: es₂ →
      ∃ s ds s' o, run StageB.step {} es₁ = .ok (s, ds) ∧ s.step e = .ok (s', o) ∧ EmitsOnce s s' e o ∧
        Current day s' (ds ++ o) ∧ s'.apartments = (costsOf (es₁ ++ [e])).foldl keepCost .empty ∧
        s'.nights = (marketsOf (es₁ ++ [e])).foldl (keepMarket day) .empty) ∧
    ∃ table : String × Date → Option PriceDecisionRecord, ∀ es, Interleaves day cs ms es →
      ∃ s ds, run StageB.step {} es = .ok (s, ds) ∧
        ∀ pair, (lastDecision ds pair).map (·.toPriceDecisionRecord.timeless) = table pair := by
  refine ⟨fun es hes es₁ e es₂ hsplit => ?_, ?_⟩
  · obtain ⟨⟨t, os⟩, hrun⟩ := interleaves_isOk hcs hms hes
    have hday := interleaves_onDay hcs hes
    rw [hsplit] at hrun hday
    obtain ⟨s, ds, o', h₁, h₂, -⟩ := run_append.mp hrun
    obtain ⟨s', o, os', hstep, -, -⟩ := run_cons.mp h₂
    have hday₁ : ∀ f ∈ es₁, EventOnDay day ids f := fun f hf => hday f (List.mem_append_left _ hf)
    have he := hday e (List.mem_append_right _ (List.mem_cons_self ..))
    have hs := run_onDay hday₁ (StageB.onDay_empty day ids) h₁
    have hcur := run_current hcard hday₁ (StageB.onDay_empty day ids) (current_empty day) h₁
    have hday₂ : ∀ f ∈ es₁ ++ [e], EventOnDay day ids f := fun f hf =>
      (List.mem_append.mp hf).elim (hday₁ f) fun hf => List.mem_singleton.mp hf ▸ he
    have hsides := run_sides hcard hday₂ (StageB.onDay_empty day ids)
      (run_append.mpr ⟨s, ds, o, h₁, run_singleton.mpr hstep, rfl⟩)
    exact ⟨s, ds, s', o, h₁, hstep, step_emitsOnce hs.own hstep, step_current hcard hs he hcur hstep, hsides⟩
  · have hends : ∀ es, Interleaves day cs ms es → ∃ s ds, run StageB.step {} es = .ok (s, ds) ∧
        Current day s ds ∧ s.apartments = cs.foldl keepCost .empty ∧
        s.nights = ms.foldl (keepMarket day) .empty := by
      intro es hes
      obtain ⟨⟨s, ds⟩, hrun⟩ := interleaves_isOk hcs hms hes
      have hday := interleaves_onDay hcs hes
      have hcur := run_current hcard hday (StageB.onDay_empty day ids) (current_empty day) hrun
      obtain ⟨ha, hn⟩ := run_sides hcard hday (StageB.onDay_empty day ids) hrun
      rw [hes.costs] at ha
      rw [hes.markets] at hn
      exact ⟨s, ds, hrun, hcur, ha, hn⟩
    by_cases hany : ∃ es, Interleaves day cs ms es
    · obtain ⟨es₀, hes₀⟩ := hany
      obtain ⟨s₀, ds₀, -, hcur₀, ha₀, hn₀⟩ := hends es₀ hes₀
      refine ⟨fun pair => (lastDecision ds₀ pair).map (·.toPriceDecisionRecord.timeless), fun es hes => ?_⟩
      obtain ⟨s, ds, hrun, hcur, ha, hn⟩ := hends es hes
      exact ⟨s, ds, hrun, table_eq hcur₀ hcur (ha.trans ha₀.symm) (hn.trans hn₀.symm)⟩
    · exact ⟨fun _ => none, fun es hes => absurd ⟨es, hes⟩ hany⟩

def flatCosts : List CostAggregate := [flatCost "a1" 0, flatCost "a1" 5]

def flatMarkets : List MarketPrice :=
  [flatMarket none (toordinal 1970 1 21) 0, flatMarket (some .airbnb) (toordinal 1970 1 21) 3]

theorem flat_interleavings_agree :
    (∀ es, Interleaves (toordinal 1970 1 1) flatCosts flatMarkets es → ∀ es₁ e es₂, es = es₁ ++ e :: es₂ →
      ∃ s ds s' o, run StageB.step {} es₁ = .ok (s, ds) ∧ s.step e = .ok (s', o) ∧ EmitsOnce s s' e o ∧
        Current (toordinal 1970 1 1) s' (ds ++ o) ∧
        s'.apartments = (costsOf (es₁ ++ [e])).foldl keepCost .empty ∧
        s'.nights = (marketsOf (es₁ ++ [e])).foldl (keepMarket (toordinal 1970 1 1)) .empty) ∧
    ∃ table : String × Date → Option PriceDecisionRecord, ∀ es,
      Interleaves (toordinal 1970 1 1) flatCosts flatMarkets es →
      ∃ s ds, run StageB.step {} es = .ok (s, ds) ∧
        ∀ pair, (lastDecision ds pair).map (·.toPriceDecisionRecord.timeless) = table pair := by
  have hcs : ∀ c ∈ flatCosts, c.Priceable ∧ c.apartmentId ∈ ({"a1"} : Finset String) := by
    simp only [flatCosts, List.forall_mem_cons, List.not_mem_nil, false_implies, implies_true, and_true]
    exact ⟨⟨(flatCost_sellable _ _).priceable, Finset.mem_singleton_self _⟩,
      (flatCost_sellable _ _).priceable, Finset.mem_singleton_self _⟩
  exact interleavings_agree (by decide) hcs (by decide)

end PriceEngine
