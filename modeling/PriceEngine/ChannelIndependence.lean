import PriceEngine.Interleaving

/-!
# Channel prices and the direct price

A run of Stage B and the same run without its channel-specific prices keep the
same apartments and, from the day that has been reached on, the same blended
price of every night (`Alike`). What both then emit for an event are decisions
about the same pairs. Two of them about one pair may differ in what they say of
the channels, and otherwise only if midnight passes between them: the price
depends on the days to arrival, and each decision reads the clock for itself.
-/

namespace PriceEngine

/-- What a decision says apart from its id, its time, the channels and the streak of breaches. -/
def PriceDecisionRecord.direct (r : PriceDecisionRecord) : PriceDecisionRecord :=
  { r.timeless with
    calculation := { r.calculation with channelPriceMatrix := [], viabilityStatus := .ok, floorBreachDays := 0 } }

def isChannelEvent (e : Env × StageBEvent) : Bool :=
  match e.2 with
  | .cost _ => false
  | .market value => value.marketContext.platform.isSome

def withoutChannelEvents (es : List (Env × StageBEvent)) : List (Env × StageBEvent) :=
  es.filter fun e => !isChannelEvent e

def NightSnapshot.withoutChannels (night : NightSnapshot) : NightSnapshot := { night with channels := .empty }

def StageB.withoutChannels (s : StageB) : StageB :=
  { s with nights := s.nights.mapValues NightSnapshot.withoutChannels }

/-- Priced again on its day from what is stored without channels, the pair gets the same direct price. -/
def RepricedWithoutChannels (s : StageB) (d : PriceDecision) : Prop :=
  ∃ cost night, s.apartments.get? d.apartmentId = some cost ∧
    s.withoutChannels.nights.get? d.targetDate = some night ∧
    ∀ decisionId decidedAt (since : Option Date), Instant.date decidedAt = Instant.date d.decidedAt →
      (∀ x ∈ since, x ≤ Instant.date decidedAt) →
      ∃ d' since', buildPriceDecision decisionId decidedAt cost night d.targetDate since = .ok (d', since') ∧
        d'.direct = d.direct

def decisionsFrom (day : Date) (ds : List PriceDecision) : List PriceDecision :=
  ds.filter fun d => day ≤ d.targetDate

/-- From `day` on the decisions are about the same pairs, and two about one pair, made on the same date,
have the same direct price. -/
structure SameDirect (day : Date) (o p : List PriceDecision) : Prop where
  pairs : ((decisionsFrom day o).map PriceDecision.pair).Perm ((decisionsFrom day p).map PriceDecision.pair)
  direct : ∀ d ∈ decisionsFrom day o, ∀ d' ∈ decisionsFrom day p, d.pair = d'.pair →
    Instant.date d.decidedAt = Instant.date d'.decidedAt → d.direct = d'.direct

theorem direct_eq {decisionId decisionId' : String} {decidedAt decidedAt' : Instant} {cost : CostAggregate}
    {night night' : NightSnapshot} {targetDate : Date} {since since' x x' : Option Date} {d d' : PriceDecision}
    (h : buildPriceDecision decisionId decidedAt cost night targetDate since = .ok (d, x))
    (h' : buildPriceDecision decisionId' decidedAt' cost night' targetDate since' = .ok (d', x'))
    (hblended : night.blended = night'.blended) (hday : Instant.date decidedAt = Instant.date decidedAt') :
    d.direct = d'.direct := by
  obtain ⟨market, stay, channels, hm, hstay, -, hd, -⟩ := buildPriceDecision_eq_ok.mp h
  obtain ⟨market', stay', channels', hm', hstay', -, hd', -⟩ := buildPriceDecision_eq_ok.mp h'
  obtain rfl : market = market' := Option.some.inj (hm.symm.trans (hblended.trans hm'))
  rw [hday] at hstay
  obtain rfl : stay = stay' := Except.ok.inj (hstay.symm.trans hstay')
  rw [hd, hd']
  simp only [PriceDecisionRecord.direct, PriceDecisionRecord.timeless, decisionRecord, hday]

/-! ## States of the two runs -/

def StageB.blendedAt (s : StageB) (d : Date) : Option MarketSnapshot := previousSnapshot (s.nights.get? d) none

structure Alike (day : Date) (s t : StageB) : Prop where
  apartments : s.apartments = t.apartments
  blended : ∀ d, day ≤ d → s.blendedAt d = t.blendedAt d

section
variable {day : Date} {s t : StageB} {e : Env × StageBEvent}

theorem Alike.symm (h : Alike day s t) : Alike day t s :=
  ⟨h.apartments.symm, fun d hd => (h.blended d hd).symm⟩

theorem Alike.withStreaks (h : Alike day s t) (streaks streaks' : Dict String Date) :
    Alike day (s.withStreaks streaks) (t.withStreaks streaks') := ⟨h.apartments, h.blended⟩

theorem acceptCost_apartments_eq (env : Env) (s : StageB) (value : CostAggregate) :
    (acceptCost env s value).apartments =
      ((s.evicted value).elim s.apartments (s.apartments.remove ·)).put value.apartmentId value := by
  rw [acceptCost_eq]
  cases s.evicted value <;> rfl

theorem blendedAt_acceptMarket (env : Env) (s : StageB) (value : MarketPrice) (d : Date) :
    (acceptMarket env s value).blendedAt d =
      if d = value.targetDate then
        if value.marketContext.platform = none then some (snapshotOf value) else s.blendedAt d
      else if d < Instant.date (env.now 1) then none else s.blendedAt d := by
  unfold StageB.blendedAt
  rw [acceptMarket_nights]
  by_cases hd : d = value.targetDate
  · rw [if_pos hd, if_pos hd, previousSnapshot_nightOf, hd]
    exact if_congr eq_comm rfl rfl
  · rw [if_neg hd, if_neg hd]
    split <;> rfl

theorem Alike.accept (h : Alike day s t) (he : isChannelEvent e = false) : Alike day (s.accept e) (t.accept e) := by
  obtain ⟨env, value | value⟩ := e
  · refine ⟨?_, fun d hd => ?_⟩
    · rw [StageB.accept_cost, StageB.accept_cost, acceptCost_apartments_eq, acceptCost_apartments_eq,
        StageB.evicted, StageB.evicted, h.apartments]
    · rw [StageB.blendedAt, StageB.blendedAt, StageB.accept_cost, StageB.accept_cost, acceptCost_nights,
        acceptCost_nights]
      exact h.blended d hd
  · refine ⟨?_, fun d hd => ?_⟩
    · rw [StageB.accept_market, StageB.accept_market, acceptMarket_apartments, acceptMarket_apartments,
        h.apartments]
    · rw [StageB.accept_market, StageB.accept_market, blendedAt_acceptMarket, blendedAt_acceptMarket,
        h.blended d hd]

/-- A channel price, or the price of a night before `day`. -/
def Unseen (day : Date) (e : Env × StageBEvent) : Prop :=
  ∃ value, e.2 = .market value ∧ (value.marketContext.platform ≠ none ∨ value.targetDate < day)

theorem Alike.unseen (h : Alike day s t) (he : Unseen day e) (hclock : ∀ i, Instant.date (e.1.now i) ≤ day) :
    Alike day (s.accept e) t := by
  obtain ⟨env, event⟩ := e
  obtain ⟨value, hvalue, he⟩ := he
  obtain rfl : event = .market value := hvalue
  refine ⟨?_, fun d hd => ?_⟩
  · rw [StageB.accept_market, acceptMarket_apartments, h.apartments]
  · rw [StageB.accept_market, blendedAt_acceptMarket, if_neg (not_lt.mpr ((hclock 1).trans hd))]
    rw [← h.blended d hd]
    split
    · rename_i htarget
      rcases he with hchannel | hpast
      · rw [if_neg hchannel]
      · exact absurd hpast (not_lt.mpr (htarget ▸ hd))
    · rfl

/-- A kept event is accepted in both runs or in neither, unless it is about a night before `day`. -/
theorem Alike.accepts (h : Alike day s t) (he : isChannelEvent e = false) :
    s.accepts e = t.accepts e ∨ Unseen day e := by
  obtain ⟨env, value | value⟩ := e
  · left
    simp only [StageB.accepts, h.apartments]
  · by_cases hday : day ≤ value.targetDate
    · left
      have hplatform : value.marketContext.platform = none := by
        simpa [isChannelEvent] using he
      have hblended := h.blended value.targetDate hday
      simp only [StageB.blendedAt] at hblended
      simp only [StageB.accepts, hplatform, hblended]
    · exact .inr ⟨value, rfl, .inr (not_le.mp hday)⟩

theorem Alike.step_unseen (h : Alike day s t) (he : Unseen day e) (hclock : ∀ i, Instant.date (e.1.now i) ≤ day)
    {s' : StageB} {o : List PriceDecision} (hs : s.step e = .ok (s', o)) : Alike day s' t := by
  rcases StageB.step_cases hs with ⟨-, rfl, -⟩ | ⟨-, streaks, -, rfl⟩
  · exact h
  · obtain ⟨hapartments, hblended⟩ := h.unseen he hclock
    exact ⟨hapartments, hblended⟩

theorem Alike.step_kept (h : Alike day s t) (he : isChannelEvent e = false)
    (hclock : ∀ i, Instant.date (e.1.now i) ≤ day) {s' t' : StageB} {o p : List PriceDecision}
    (hs : s.step e = .ok (s', o)) (ht : t.step e = .ok (t', p)) : Alike day s' t' := by
  rcases h.accepts he with haccepts | hunseen
  · rcases StageB.step_cases hs with ⟨hrej, rfl, -⟩ | ⟨hacc, streaks, -, rfl⟩
    · obtain ⟨rfl, -⟩ := StageB.step_rejected ht (haccepts ▸ hrej)
      exact h
    · obtain ⟨streaks', -, rfl⟩ := StageB.step_accepted ht (haccepts ▸ hacc)
      exact (h.accept he).withStreaks streaks streaks'
  · exact ((h.step_unseen hunseen hclock hs).symm.step_unseen hunseen hclock ht).symm

end

theorem run_alike {day : Date} {es : List (Env × StageBEvent)} {s t s' t' : StageB} {ds dt : List PriceDecision}
    (h : Alike day s t) (hclock : ∀ e ∈ es, ∀ i, Instant.date (e.1.now i) ≤ day)
    (hs : run StageB.step s es = .ok (s', ds)) (ht : run StageB.step t (withoutChannelEvents es) = .ok (t', dt)) :
    Alike day s' t' := by
  refine run_filter_of_ok (fun s t e s' o t' p h hclock hkeep hs ht => ?_) (fun s t e s' o h hclock hdrop hs => ?_)
    h hclock hs ht
  · exact h.step_kept (Bool.not_eq_true' _ ▸ hkeep) hclock hs ht
  · obtain ⟨env, value | value⟩ := e
    · cases hdrop
    · refine h.step_unseen ⟨value, rfl, .inl fun hplatform => ?_⟩ hclock hs
      simp [isChannelEvent, hplatform] at hdrop

/-! ## What both emit -/

section
variable {day : Date} {s t s' t' : StageB} {e : Env × StageBEvent} {o p : List PriceDecision}

theorem Alike.job (h : Alike day s t) (he : isChannelEvent e = false) {job : Job} (hj : job ∈ s.jobs e)
    (hday : day ≤ job.targetDate) : ∃ job' ∈ t.jobs e, job'.pair = job.pair := by
  obtain ⟨hapartments, hblended⟩ := h.accept he
  obtain ⟨hside, hc, hn, hb⟩ := StageB.mem_jobs.mp hj
  have hnight := hblended job.targetDate hday
  rw [StageB.blendedAt, hn] at hnight
  obtain ⟨night, hn', hb'⟩ := Option.bind_eq_some_iff.mp
    (hnight.symm.trans (Option.some_get hb).symm)
  refine ⟨⟨job.apartmentId, job.cost, night, job.targetDate⟩, StageB.mem_jobs.mpr ⟨hside, ?_, hn', ?_⟩, rfl⟩
  · rw [← hapartments]
    exact hc
  · exact Option.isSome_iff_exists.mpr ⟨_, hb'⟩

theorem map_pair_decisionsFrom (day : Date) (ds : List PriceDecision) :
    (decisionsFrom day ds).map PriceDecision.pair = (ds.map PriceDecision.pair).filter fun pair => day ≤ pair.2 := by
  rw [decisionsFrom, List.filter_map]
  rfl

theorem Alike.pair_mem (h : Alike day s t) (he : isChannelEvent e = false) {pair : String × Date}
    (hp : pair ∈ ((s.jobs e).map Job.pair).filter fun pair => day ≤ pair.2) :
    pair ∈ ((t.jobs e).map Job.pair).filter fun pair => day ≤ pair.2 := by
  obtain ⟨hp, hday⟩ := List.mem_filter.mp hp
  obtain ⟨job, hj, rfl⟩ := List.mem_map.mp hp
  obtain ⟨job', hj', hpair⟩ := h.job he hj (of_decide_eq_true hday)
  exact List.mem_filter.mpr ⟨List.mem_map.mpr ⟨job', hj', hpair⟩, hday⟩

theorem Alike.perm_pairs (h : Alike day s t) (he : isChannelEvent e = false) :
    (((s.jobs e).map Job.pair).filter fun pair => day ≤ pair.2).Perm
      (((t.jobs e).map Job.pair).filter fun pair => day ≤ pair.2) := by
  refine (List.perm_ext_iff_of_nodup ((jobs_pairs_nodup s e).filter _) ((jobs_pairs_nodup t e).filter _)).mpr ?_
  exact fun pair => ⟨h.pair_mem he, h.symm.pair_mem he⟩

theorem Alike.direct (h : Alike day s t) (he : isChannelEvent e = false) (hs : s.Own) (ht : t.Own)
    (hstep : s.step e = .ok (s', o)) (htstep : t.step e = .ok (t', p)) {d d' : PriceDecision} (hd : d ∈ o)
    (hd' : d' ∈ p) (hday : day ≤ d.targetDate) (hpair : d.pair = d'.pair)
    (hdate : Instant.date d.decidedAt = Instant.date d'.decidedAt) : d.direct = d'.direct := by
  obtain ⟨hacc, job, hj, i, hprices⟩ := step_decision hstep d hd
  obtain ⟨hacc', job', hj', i', hprices'⟩ := step_decision htstep d' hd'
  obtain ⟨ha, htarget, hat⟩ := hprices.fields
  obtain ⟨ha', htarget', hat'⟩ := hprices'.fields
  obtain ⟨hapartment, htargets⟩ := Prod.mk.inj hpair
  obtain ⟨-, hc, hn, hb⟩ := StageB.mem_jobs.mp hj
  obtain ⟨-, hc', hn', hb'⟩ := StageB.mem_jobs.mp hj'
  have hid : job.apartmentId = job'.apartmentId := by
    rw [← hs.jobs hstep hacc job hj, ← ht.jobs htstep hacc' job' hj', ← ha, ← ha', hapartment]
  have hnights : job.targetDate = job'.targetDate := by rw [← htarget, ← htarget', htargets]
  obtain ⟨hapartments, hblended⟩ := h.accept he
  have hcost : job.cost = job'.cost := by
    rw [hid, hapartments, hc'] at hc
    exact (Option.some.inj hc).symm
  have hnight : job.night.blended = job'.night.blended := by
    have hboth := hblended job.targetDate (htarget ▸ hday)
    rw [StageB.blendedAt, StageB.blendedAt, hn, hnights, hn'] at hboth
    exact hboth
  obtain ⟨since, x, -, hbuild⟩ := hprices
  obtain ⟨since', x', -, hbuild'⟩ := hprices'
  rw [hcost, hnights] at hbuild
  exact direct_eq hbuild hbuild' hnight (by rw [← hat, ← hat', hdate])

theorem Alike.sameDirect (h : Alike (Instant.date (e.1.now 0)) s t) (he : isChannelEvent e = false) (hs : s.Own)
    (ht : t.Own) (hstep : s.step e = .ok (s', o)) (htstep : t.step e = .ok (t', p)) :
    SameDirect (Instant.date (e.1.now 0)) o p := by
  have haccepts : s.accepts e = t.accepts e := by
    rcases h.accepts he with haccepts | ⟨value, hvalue, hunseen⟩
    · exact haccepts
    · obtain ⟨env, event⟩ := e
      obtain rfl : event = .market value := hvalue
      rcases hunseen with hchannel | hpast
      · simp [isChannelEvent, hchannel] at he
      · simp [StageB.accepts, hpast]
  constructor
  · rw [map_pair_decisionsFrom, map_pair_decisionsFrom]
    cases hacc : s.accepts e with
    | true =>
      rw [step_pairs hs hstep hacc, step_pairs ht htstep (haccepts ▸ hacc)]
      exact h.perm_pairs he
    | false =>
      obtain ⟨-, rfl⟩ := StageB.step_rejected hstep hacc
      obtain ⟨-, rfl⟩ := StageB.step_rejected htstep (haccepts ▸ hacc)
      exact .refl _
  · intro d hd d' hd' hpair hdate
    obtain ⟨hd, hday⟩ := List.mem_filter.mp hd
    exact h.direct he hs ht hstep htstep hd (List.mem_filter.mp hd').1 (of_decide_eq_true hday) hpair hdate

end

/-! ## Priced again without channels -/

theorem NightSnapshot.withoutChannels_valid {night : NightSnapshot} (h : night.Valid) :
    night.withoutChannels.Valid := ⟨h.blended, Dict.all_empty _⟩

theorem step_repricedWithoutChannels {s s' : StageB} {e : Env × StageBEvent} {o : List PriceDecision}
    (hs : s.Own) (hready : s.Ready) (he : e.2.Clean) (h : s.step e = .ok (s', o)) :
    ∀ d ∈ o, RepricedWithoutChannels s' d := by
  intro d hd
  obtain ⟨hacc, job, hj, i, hprices⟩ := step_decision h d hd
  obtain ⟨ha, htarget, hat⟩ := hprices.fields
  have hown := hs.jobs h hacc job hj
  obtain ⟨-, hc, hn, hb⟩ := StageB.mem_jobs.mp hj
  obtain ⟨hcosts, hnights⟩ := accept_ready hready he
  obtain ⟨streaks, -, rfl⟩ := StageB.step_accepted h hacc
  refine ⟨job.cost, job.night.withoutChannels, ?_, ?_, fun decisionId decidedAt since hdate hsince => ?_⟩
  · rw [ha, hown]
    exact hc
  · have hmap : (s.accept e).withoutChannels.nights.get? d.targetDate =
        ((s.accept e).nights.get? d.targetDate).map NightSnapshot.withoutChannels := Dict.get?_mapValues ..
    rw [htarget, hn] at hmap
    rw [htarget]
    exact hmap
  · have hvalid := NightSnapshot.withoutChannels_valid (hnights _ _ hn).1
    have hmixed : Platform.mixed ∉ job.night.withoutChannels.channels.keys := List.not_mem_nil
    obtain ⟨⟨d', since'⟩, hbuild'⟩ := hcosts _ _ hc decisionId decidedAt _ d.targetDate since hvalid hb hmixed hsince
    obtain ⟨streak, x, -, hbuild⟩ := hprices
    refine ⟨d', since', hbuild', ?_⟩
    rw [← htarget] at hbuild
    exact direct_eq hbuild' hbuild rfl (by rw [hdate, hat])

/-! ## Runs -/

theorem run_isOk_of_clean {es : List (Env × StageBEvent)} (hclock : Chronological es)
    (hclean : ∀ e ∈ es, e.2.Clean) : ∃ r, run StageB.step {} es = .ok r := by
  refine run_isOk hclock StageB.ready_empty ?_ fun _ _ _ => Dict.all_empty _
  refine along_of_forall (fun s e he _ => ?_) _
  exact hclean e he

theorem exists_last_step {es : List (Env × StageBEvent)} {e : Env × StageBEvent} (hclock : Chronological (es ++ [e]))
    (hclean : ∀ f ∈ es ++ [e], f.2.Clean) :
    ∃ s ds s' o, run StageB.step {} es = .ok (s, ds) ∧ s.step e = .ok (s', o) ∧ s.Own ∧ s.Ready := by
  obtain ⟨⟨s', all⟩, hr⟩ := run_isOk_of_clean hclock hclean
  obtain ⟨s, ds, o, hrun, hlast, -⟩ := run_append.mp hr
  refine ⟨s, ds, s', o, hrun, run_singleton.mp hlast, ?_, ?_⟩
  · exact run_preserves (fun s e s' o hs h => hs.step h) StageB.own_empty hrun
  · refine run_invariant (fun s e s' o hs hc h => step_ready hs hc h) StageB.ready_empty ?_ hrun
    refine along_of_forall (fun s f hf _ => ?_) _
    exact hclean f (List.mem_append_left _ hf)

/-- In each run, at its last event: every decision is repriced alike without channels, and a kept event
emits the same decisions in the run without channel events, up to the date they are made on. -/
theorem direct_price_without_channels {es : List (Env × StageBEvent)} {e : Env × StageBEvent}
    (hclock : Chronological (es ++ [e])) (hclean : ∀ f ∈ es ++ [e], f.2.Clean) :
    ∃ s ds s' o t dt, run StageB.step {} es = .ok (s, ds) ∧ s.step e = .ok (s', o) ∧
      run StageB.step {} (withoutChannelEvents es) = .ok (t, dt) ∧ (∀ d ∈ o, RepricedWithoutChannels s' d) ∧
      (isChannelEvent e = false →
        ∃ t' p, t.step e = .ok (t', p) ∧ SameDirect (Instant.date (e.1.now 0)) o p) := by
  obtain ⟨s, ds, s', o, hrun, hstep, hown, hready⟩ := exists_last_step hclock hclean
  have hsub : (withoutChannelEvents es ++ [e]).Sublist (es ++ [e]) := List.filter_sublist.append (.refl _)
  obtain ⟨t, dt, t', p, hrun', hstep', hown', -⟩ :=
    exists_last_step (hclock.sublist hsub) fun f hf => hclean f (hsub.subset hf)
  have hlast : e.2.Clean := hclean e (List.mem_append_right _ (List.mem_singleton_self e))
  refine ⟨s, ds, s', o, t, dt, hrun, hstep, hrun', ?_, fun he => ⟨t', p, hstep', ?_⟩⟩
  · exact step_repricedWithoutChannels hown hready hlast hstep
  · -- every earlier reading of the clock is on or before the day of `e`
    have hday : ∀ f ∈ es, ∀ i, Instant.date (f.1.now i) ≤ Instant.date (e.1.now 0) := fun f hf i =>
      (List.pairwise_append.mp hclock.between).2.2 f hf e (List.mem_singleton_self e) i 0
    have halike := run_alike (s := {}) (t := {}) ⟨rfl, fun _ _ => rfl⟩ hday hrun hrun'
    exact halike.sameDirect he hown hown' hstep hstep'

/-! ## A night more in one of the runs -/

def lastDecisions (es : List (Env × StageBEvent)) (e : Env × StageBEvent) : Option (List PriceDecision) :=
  (run StageB.step {} es).toOption.bind fun r => (r.1.step e).toOption.map Prod.snd

theorem lastDecisions_of_ok {es : List (Env × StageBEvent)} {e : Env × StageBEvent} {s s' : StageB}
    {ds o : List PriceDecision} (h : run StageB.step {} es = .ok (s, ds)) (he : s.step e = .ok (s', o)) :
    lastDecisions es e = some o := by
  rw [lastDecisions, h]
  change (s.step e).toOption.map Prod.snd = some o
  rw [he]
  rfl

theorem ok_of_lastDecisions {es : List (Env × StageBEvent)} {e : Env × StageBEvent} {o : List PriceDecision}
    (h : lastDecisions es e = some o) :
    ∃ s ds s', run StageB.step {} es = .ok (s, ds) ∧ s.step e = .ok (s', o) := by
  obtain ⟨⟨s, ds⟩, hrun, hlast⟩ := ok_of_bind h
  obtain ⟨⟨s', o'⟩, hstep, rfl⟩ := ok_of_map hlast
  exact ⟨s, ds, s', hrun, hstep⟩

/-- The nights of 1970-01-01, 01-21 and 01-22; a day later the channel price of the last drops the first. -/
def nightsAndChannel : List (Env × StageBEvent) :=
  [(envAt 0, .market (flatMarket none (toordinal 1970 1 1) 0)),
    (envAt 0, .market (flatMarket none (toordinal 1970 1 21) 0)),
    (envAt 0, .market (flatMarket none (toordinal 1970 1 22) 0)),
    (envAt 86400000000, .market (flatMarket (some .airbnb) (toordinal 1970 1 22) 0))]

/-- The first two readings are before midnight, the later ones after it. -/
def costsAtMidnight : Env × StageBEvent :=
  ({ now := fun i => if i ≤ 1 then 172799000000 else 172801000000, uuid4 := fun _ => "1" }, .cost (flatCost "a1" 0))

theorem nightsAndChannel_chronological : Chronological (nightsAndChannel ++ [costsAtMidnight]) := by
  have hlate : ∀ i, 172799000000 ≤ costsAtMidnight.1.now i := by
    intro i
    change (172799000000 : ℤ) ≤ if i ≤ 1 then 172799000000 else 172801000000
    split <;> decide
  refine NonDecreasing.chronological ⟨fun e he => ?_, ?_⟩
  · simp only [nightsAndChannel, List.cons_append, List.nil_append, List.mem_cons, List.not_mem_nil, or_false] at he
    rcases he with rfl | rfl | rfl | rfl | rfl
    · exact monotone_const
    · exact monotone_const
    · exact monotone_const
    · exact monotone_const
    · intro i j hij
      change (if i ≤ 1 then 172799000000 else 172801000000 : ℤ) ≤ if j ≤ 1 then 172799000000 else 172801000000
      split_ifs <;> omega
  · simp only [nightsAndChannel, List.cons_append, List.nil_append, List.pairwise_cons, List.forall_mem_cons,
      List.not_mem_nil, false_implies, implies_true, List.Pairwise.nil, and_true]
    have hday : (0 : ℤ) ≤ 86400000000 := by decide
    have hnight : (86400000000 : ℤ) ≤ 172799000000 := by decide
    have hcosts : ∀ j, (0 : ℤ) ≤ costsAtMidnight.1.now j := fun j => (hday.trans hnight).trans (hlate j)
    exact ⟨⟨fun _ _ => le_rfl, fun _ _ => le_rfl, fun _ _ => hday, fun _ => hcosts⟩,
      ⟨fun _ _ => le_rfl, fun _ _ => hday, fun _ => hcosts⟩, ⟨fun _ _ => hday, fun _ => hcosts⟩,
      fun _ j => hnight.trans (hlate j)⟩

theorem nightsAndChannel_clean (env : Env) :
    ∀ f ∈ nightsAndChannel ++ [(env, .cost (flatCost "a1" 0))], f.2.Clean := by
  simp only [nightsAndChannel, List.cons_append, List.nil_append, List.forall_mem_cons, List.not_mem_nil,
    false_implies, implies_true, and_true]
  refine ⟨?_, ?_, ?_, ?_, (flatCost_sellable _ _).priceable⟩ <;> intro hmixed <;> cases hmixed

/-- When a decision was made, and the number of its channel prices. -/
def madeWith (d : PriceDecision) : Date × ℕ :=
  (Instant.date d.decidedAt, d.calculation.channelPriceMatrix.length)

/-- The night of the 22nd is priced after midnight in both runs, in one of them with a channel price. -/
theorem nightsAndChannel_same_direct :
    ∃ s ds s' o t dt t' p, run StageB.step {} nightsAndChannel = .ok (s, ds) ∧ s.step costsAtMidnight = .ok (s', o) ∧
      run StageB.step {} (withoutChannelEvents nightsAndChannel) = .ok (t, dt) ∧
      t.step costsAtMidnight = .ok (t', p) ∧ (∀ d ∈ o, RepricedWithoutChannels s' d) ∧
      SameDirect (Instant.date (costsAtMidnight.1.now 0)) o p ∧
      ∃ d ∈ o, ∃ d' ∈ p, d.pair = ("a1", toordinal 1970 1 22) ∧ madeWith d = (toordinal 1970 1 3, 1) ∧
        d'.pair = d.pair ∧ madeWith d' = (toordinal 1970 1 3, 0) ∧ d.direct = d'.direct := by
  obtain ⟨s, ds, s', o, t, dt, hrun, hstep, hrun', hrepriced, hkept⟩ :=
    direct_price_without_channels nightsAndChannel_chronological (nightsAndChannel_clean costsAtMidnight.1)
  obtain ⟨t', p, hstep', hsame⟩ := hkept rfl
  have ho : (lastDecisions nightsAndChannel costsAtMidnight).map (·.map fun d => (d.pair, madeWith d)) =
      some [(("a1", toordinal 1970 1 21), toordinal 1970 1 2, 0),
        (("a1", toordinal 1970 1 22), toordinal 1970 1 3, 1)] := by decide +kernel
  have hp : (lastDecisions (withoutChannelEvents nightsAndChannel) costsAtMidnight).map
      (·.map fun d => (d.pair, madeWith d)) =
      some [(("a1", toordinal 1970 1 1), toordinal 1970 1 2, 0), (("a1", toordinal 1970 1 21), toordinal 1970 1 3, 0),
        (("a1", toordinal 1970 1 22), toordinal 1970 1 3, 0)] := by decide +kernel
  rw [lastDecisions_of_ok hrun hstep, Option.map_some, Option.some.injEq] at ho
  rw [lastDecisions_of_ok hrun' hstep', Option.map_some, Option.some.injEq] at hp
  obtain ⟨d, hd, hfacts⟩ := List.mem_map.mp (ho ▸ List.mem_cons_of_mem _ (List.mem_singleton_self _))
  obtain ⟨d', hd', hfacts'⟩ := List.mem_map.mp
    (hp ▸ List.mem_cons_of_mem _ (List.mem_cons_of_mem _ (List.mem_singleton_self _)))
  obtain ⟨hpair, hmade⟩ := Prod.mk.inj hfacts
  obtain ⟨hpair', hmade'⟩ := Prod.mk.inj hfacts'
  have hkeep : ∀ x : PriceDecision, x.pair = ("a1", toordinal 1970 1 22) →
      decide (Instant.date (costsAtMidnight.1.now 0) ≤ x.targetDate) = true := by
    intro x hx
    rw [(Prod.mk.inj hx).2]
    decide +kernel
  have hdirect := hsame.direct d (List.mem_filter.mpr ⟨hd, hkeep d hpair⟩)
    d' (List.mem_filter.mpr ⟨hd', hkeep d' hpair'⟩) (hpair.trans hpair'.symm)
    ((Prod.mk.inj hmade).1.trans (Prod.mk.inj hmade').1.symm)
  exact ⟨s, ds, s', o, t, dt, t', p, hrun, hstep, hrun', hstep', hrepriced, hsame, d, hd, d', hd', hpair, hmade,
    hpair'.trans hpair.symm, hmade', hdirect⟩

/-- Without the channel price the night of the 1st is still priced, and before midnight; the night of the
21st is then priced after midnight. -/
theorem price_after_midnight_differs :
    ¬ ∀ (es : List (Env × StageBEvent)) (e : Env × StageBEvent), Chronological (es ++ [e]) →
      (∀ f ∈ es ++ [e], f.2.Clean) → isChannelEvent e = false → ∀ s ds s' o t dt t' p,
      run StageB.step {} es = .ok (s, ds) → s.step e = .ok (s', o) →
      run StageB.step {} (withoutChannelEvents es) = .ok (t, dt) → t.step e = .ok (t', p) →
      ∀ d ∈ decisionsFrom (Instant.date (e.1.now 0)) o, ∀ d' ∈ decisionsFrom (Instant.date (e.1.now 0)) p,
        d.pair = d'.pair → d.direct = d'.direct := by
  intro h
  have ho : ((lastDecisions nightsAndChannel costsAtMidnight).map fun o =>
      (decisionsFrom (Instant.date (costsAtMidnight.1.now 0)) o).map fun d => (d.pair, d.calculation.daysToArrival)) =
      some [(("a1", toordinal 1970 1 21), 19), (("a1", toordinal 1970 1 22), 19)] := by decide +kernel
  have hp : ((lastDecisions (withoutChannelEvents nightsAndChannel) costsAtMidnight).map fun p =>
      (decisionsFrom (Instant.date (costsAtMidnight.1.now 0)) p).map fun d => (d.pair, d.calculation.daysToArrival)) =
      some [(("a1", toordinal 1970 1 21), 18), (("a1", toordinal 1970 1 22), 19)] := by decide +kernel
  obtain ⟨o, hlast, ho⟩ := Option.map_eq_some_iff.mp ho
  obtain ⟨p, hlast', hp⟩ := Option.map_eq_some_iff.mp hp
  obtain ⟨s, ds, s', hrun, hstep⟩ := ok_of_lastDecisions hlast
  obtain ⟨t, dt, t', hrun', hstep'⟩ := ok_of_lastDecisions hlast'
  obtain ⟨d, hd, hfacts⟩ := List.mem_map.mp (ho ▸ List.mem_cons_self ..)
  obtain ⟨d', hd', hfacts'⟩ := List.mem_map.mp (hp ▸ List.mem_cons_self ..)
  obtain ⟨hpair, harrival⟩ := Prod.mk.inj hfacts
  obtain ⟨hpair', harrival'⟩ := Prod.mk.inj hfacts'
  have hsame := h nightsAndChannel costsAtMidnight nightsAndChannel_chronological
    (nightsAndChannel_clean costsAtMidnight.1) rfl s ds s' o t dt t' p hrun hstep hrun' hstep' d hd d' hd'
    (hpair.trans hpair'.symm)
  have hdays := congrArg (fun r => r.calculation.daysToArrival) hsame
  change d.calculation.daysToArrival = d'.calculation.daysToArrival at hdays
  rw [harrival, harrival'] at hdays
  exact absurd hdays (by decide)

/-- With a clock whose date goes back even the nights differ: the channel price has dropped the night of the
1st, which lies ahead again on the 1st. -/
theorem dropped_night_comes_again :
    ¬ ∀ (es : List (Env × StageBEvent)) (e : Env × StageBEvent),
      (∀ f ∈ es ++ [e], f.2.Clean) → isChannelEvent e = false → ∀ s ds s' o t dt t' p,
      run StageB.step {} es = .ok (s, ds) → s.step e = .ok (s', o) →
      run StageB.step {} (withoutChannelEvents es) = .ok (t, dt) → t.step e = .ok (t', p) →
      ((decisionsFrom (Instant.date (e.1.now 0)) o).map PriceDecision.pair).Perm
        ((decisionsFrom (Instant.date (e.1.now 0)) p).map PriceDecision.pair) := by
  intro h
  have ho : ((lastDecisions nightsAndChannel (envAt 0, .cost (flatCost "a1" 0))).map fun o =>
      (decisionsFrom (Instant.date 0) o).map PriceDecision.pair) =
      some [("a1", toordinal 1970 1 21), ("a1", toordinal 1970 1 22)] := by decide +kernel
  have hp : ((lastDecisions (withoutChannelEvents nightsAndChannel) (envAt 0, .cost (flatCost "a1" 0))).map fun p =>
      (decisionsFrom (Instant.date 0) p).map PriceDecision.pair) =
      some [("a1", toordinal 1970 1 1), ("a1", toordinal 1970 1 21), ("a1", toordinal 1970 1 22)] := by
    decide +kernel
  obtain ⟨o, hlast, ho⟩ := Option.map_eq_some_iff.mp ho
  obtain ⟨p, hlast', hp⟩ := Option.map_eq_some_iff.mp hp
  obtain ⟨s, ds, s', hrun, hstep⟩ := ok_of_lastDecisions hlast
  obtain ⟨t, dt, t', hrun', hstep'⟩ := ok_of_lastDecisions hlast'
  have hperm := (h nightsAndChannel (envAt 0, .cost (flatCost "a1" 0)) (nightsAndChannel_clean _) rfl
    s ds s' o t dt t' p hrun hstep hrun' hstep').length_eq
  change ((decisionsFrom (Instant.date 0) o).map PriceDecision.pair).length =
    ((decisionsFrom (Instant.date 0) p).map PriceDecision.pair).length at hperm
  rw [ho, hp] at hperm
  exact absurd hperm (by decide)

end PriceEngine
