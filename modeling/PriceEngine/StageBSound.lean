import PriceEngine.DecisionSound
import PriceEngine.StageB

/-!
# What one step of Stage B does

`step_eq` says it once for both inputs: an event that is not accepted changes
nothing; an accepted one makes its writes (`accept`) and reprices its jobs.
The fan-out touches the streaks of its own pairs only (`reprice_streak_unchanged`), and the
lemmas on `accept` say what each event does to every map.
-/

namespace PriceEngine

/-! ## Streak keys -/

theorem toList_floorBreachKey (a : String) (d : Date) :
    (floorBreachKey a d).toList = a.toList ++ '|' :: isoChars d := by
  simp [floorBreachKey, toList_isoformat]

theorem floorBreachKey_inj {a b : String} {d e : Date} :
    floorBreachKey a d = floorBreachKey b e ↔ a = b ∧ d = e := by
  refine ⟨fun h => ?_, fun ⟨ha, hd⟩ => by rw [ha, hd]⟩
  have h' := congrArg String.toList h
  rw [toList_floorBreachKey, toList_floorBreachKey] at h'
  obtain ⟨ha, hd⟩ := append_cons_isoChars_inj bar_notMem_isoChars h'
  exact ⟨String.toList_inj.mp ha, hd⟩

theorem endsWith_floorBreachKey {a : String} {d e : Date} :
    endsWith (floorBreachKey a d) ("|" ++ isoformat e) = true ↔ d = e := by
  have hsplit : ("|" ++ isoformat e).toList = '|' :: isoChars e := by simp [toList_isoformat]
  rw [endsWith, List.isSuffixOf_iff_suffix, hsplit, toList_floorBreachKey]
  refine ⟨?_, ?_⟩
  · intro ⟨t, ht⟩
    have h' := congrArg List.reverse ht
    simp only [List.reverse_append, List.reverse_cons, List.append_assoc, List.singleton_append] at h'
    have hbar : ∀ d, '|' ∉ (isoChars d).reverse := fun d hm =>
      bar_notMem_isoChars d (List.mem_reverse.mp hm)
    exact (isoChars_injective (List.reverse_injective (append_cons_inj_left (hbar e) (hbar d) h').1)).symm
  · intro h; subst h
    exact ⟨a.toList, rfl⟩

theorem startsWith_floorBreachKey {a b : String} {d : Date} (ha : '|' ∉ a.toList) (hb : '|' ∉ b.toList) :
    startsWith (floorBreachKey a d) (b ++ "|") = true ↔ a = b := by
  have hsplit : (b ++ "|").toList = b.toList ++ '|' :: [] := by simp
  rw [startsWith, List.isPrefixOf_iff_prefix, hsplit, toList_floorBreachKey]
  refine ⟨?_, ?_⟩
  · intro ⟨t, ht⟩
    rw [List.append_assoc, List.cons_append, List.nil_append] at ht
    exact (String.toList_inj.mp (append_cons_inj_left hb ha ht).1).symm
  · intro h; subst h
    exact ⟨isoChars d, by simp⟩

/-! ## Fan-out -/

theorem reprice_nil {env : Env} {clock : ℕ} {streaks streaks' : Dict String Date} {ds : List PriceDecision} :
    reprice env clock streaks [] = .ok (streaks', ds) ↔ streaks' = streaks ∧ ds = [] := by
  simp only [reprice, Except.ok.injEq, Prod.mk.injEq]
  exact ⟨fun h => ⟨h.1.symm, h.2.symm⟩, fun h => ⟨h.1.symm, h.2.symm⟩⟩

theorem reprice_cons {env : Env} {clock : ℕ} {streaks streaks' : Dict String Date} {job : Job}
    {jobs : List Job} {ds : List PriceDecision} :
    reprice env clock streaks (job :: jobs) = .ok (streaks', ds) ↔
      ∃ d since ds', buildPriceDecision (env.uuid4 clock) (env.now clock) job.cost job.night job.targetDate
          (streaks.get? (floorBreachKey job.apartmentId job.targetDate)) = .ok (d, since) ∧
        reprice env (clock + 1)
          (writeStreak (floorBreachKey job.apartmentId job.targetDate) since streaks) jobs =
            .ok (streaks', ds') ∧
        ds = d :: ds' := by
  simp only [reprice]
  rw [bind_eq_ok]
  refine ⟨?_, ?_⟩
  · intro ⟨⟨d, since⟩, hb, h⟩
    obtain ⟨⟨st, ds'⟩, hr, e⟩ := bind_eq_ok.mp h
    obtain ⟨rfl, rfl⟩ := Prod.mk.inj (Except.ok.inj e)
    exact ⟨d, since, ds', hb, hr, rfl⟩
  · intro hex
    obtain ⟨d, since, ds', hb, hr, rfl⟩ := hex
    exact ⟨(d, since), hb, bind_eq_ok.mpr ⟨(streaks', ds'), hr, rfl⟩⟩

def PriceDecision.pair (d : PriceDecision) : String × Date := (d.apartmentId, d.targetDate)

/-- `d` was computed from the job, at the reading `i`, on a streak with `P` if on any. -/
def Prices (P : Date → Prop) (env : Env) (i : ℕ) (job : Job) (d : PriceDecision) : Prop :=
  ∃ since since', (∀ x ∈ since, P x) ∧
    buildPriceDecision (env.uuid4 i) (env.now i) job.cost job.night job.targetDate since = .ok (d, since')

theorem build_fields {decisionId : String} {decidedAt : Instant} {cost : CostAggregate}
    {night : NightSnapshot} {targetDate : Date} {since since' : Option Date} {d : PriceDecision}
    (h : buildPriceDecision decisionId decidedAt cost night targetDate since = .ok (d, since')) :
    d.apartmentId = cost.apartmentId ∧ d.targetDate = targetDate ∧ d.decidedAt = decidedAt ∧
      ∀ x ∈ since', x ∈ since ∨ x = Instant.date decidedAt := by
  obtain ⟨market, minimumStay, channels, -, -, -, hd, rfl⟩ := buildPriceDecision_eq_ok.mp h
  refine ⟨by rw [hd]; rfl, by rw [hd]; rfl, by rw [hd]; rfl, fun x hx => ?_⟩
  unfold newFloorBreachSince at hx
  split at hx
  · cases since with
    | none => exact Or.inr (Option.some.inj hx).symm
    | some y => exact Or.inl hx
  · cases hx

theorem build_strategy {decisionId : String} {decidedAt : Instant} {cost : CostAggregate}
    {night : NightSnapshot} {targetDate : Date} {since since' : Option Date} {d : PriceDecision}
    (h : buildPriceDecision decisionId decidedAt cost night targetDate since = .ok (d, since')) :
    d.calculation.pricingStrategyVersion = cost.pricingStrategyVersion ∧
      d.calculation.targetMargin = cost.targetMargin ∧
      d.calculation.competitivenessDiscount = cost.competitivenessDiscount := by
  obtain ⟨market, minimumStay, channels, -, -, -, hd, -⟩ := buildPriceDecision_eq_ok.mp h
  rw [hd]
  exact ⟨rfl, rfl, rfl⟩

theorem Prices.fields {P : Date → Prop} {env : Env} {i : ℕ} {job : Job} {d : PriceDecision}
    (h : Prices P env i job d) :
    d.apartmentId = job.cost.apartmentId ∧ d.targetDate = job.targetDate ∧ d.decidedAt = env.now i := by
  obtain ⟨since, since', -, h⟩ := h
  obtain ⟨ha, hd, ht, -⟩ := build_fields h
  exact ⟨ha, hd, ht⟩

theorem get?_writeStreak (streaks : Dict String Date) (key key' : String) (since : Option Date) :
    (writeStreak key since streaks).get? key' = if key' = key then since else streaks.get? key' := by
  cases since with
  | none => exact Dict.get?_remove ..
  | some x => exact Dict.get?_put ..

section
variable {env : Env} {clock : ℕ} {streaks streaks' : Dict String Date} {jobs : List Job}
  {ds : List PriceDecision}

theorem writeStreak_all {P : Date → Prop} (hs : streaks.All fun _ since => P since) {decisionId : String}
    {decidedAt : Instant} {cost : CostAggregate} {night : NightSnapshot} {targetDate : Date} {key : String}
    {d : PriceDecision} {since : Option Date}
    (h : buildPriceDecision decisionId decidedAt cost night targetDate (streaks.get? key) = .ok (d, since))
    (hP : P (Instant.date decidedAt)) : (writeStreak key since streaks).All fun _ since => P since := by
  intro key' x hx
  rw [get?_writeStreak] at hx
  split at hx
  · rcases (build_fields h).2.2.2 x hx with hold | rfl
    · exact hs _ x hold
    · exact hP
  · exact hs key' x hx

/-- One decision for each job, in order; the `i`-th is computed at the reading `clock + i`. A property
of the streaks that the day of every decision has is kept. -/
theorem reprice_prices {P : Date → Prop} (hP : ∀ i, P (Instant.date (env.now i)))
    (hs : streaks.All fun _ since => P since) (h : reprice env clock streaks jobs = .ok (streaks', ds)) :
    List.Forall₂ (fun job d => Prices P env job.2 job.1 d) (jobs.zipIdx clock) ds ∧
      streaks'.All fun _ since => P since := by
  induction jobs generalizing clock streaks ds with
  | nil =>
    obtain ⟨rfl, rfl⟩ := reprice_nil.mp h
    exact ⟨.nil, hs⟩
  | cons job jobs ih =>
    obtain ⟨d, since, ds', hb, hr, rfl⟩ := reprice_cons.mp h
    obtain ⟨hall, hs'⟩ := ih (writeStreak_all hs hb (hP clock)) hr
    exact ⟨.cons ⟨_, _, hs _, hb⟩ hall, hs'⟩

theorem reprice_streak_unchanged (h : reprice env clock streaks jobs = .ok (streaks', ds)) {key : String}
    (hk : ∀ job ∈ jobs, key ≠ floorBreachKey job.apartmentId job.targetDate) :
    streaks'.get? key = streaks.get? key := by
  induction jobs generalizing clock streaks ds with
  | nil => rw [(reprice_nil.mp h).1]
  | cons job jobs ih =>
    obtain ⟨d, since, ds', hb, hr, rfl⟩ := reprice_cons.mp h
    rw [ih hr fun j hj => hk j (List.mem_cons_of_mem _ hj), get?_writeStreak,
      if_neg (hk job (List.mem_cons_self ..))]

theorem reprice_isOk (hmono : ∀ i j, i ≤ j → Instant.date (env.now i) ≤ Instant.date (env.now j))
    (hs : streaks.All fun _ since => since ≤ Instant.date (env.now clock))
    (hjobs : ∀ job ∈ jobs, ∀ i since, (∀ x ∈ since, x ≤ Instant.date (env.now i)) →
      ∃ r, buildPriceDecision (env.uuid4 i) (env.now i) job.cost job.night job.targetDate since = .ok r) :
    ∃ r, reprice env clock streaks jobs = .ok r := by
  induction jobs generalizing clock streaks with
  | nil => exact ⟨_, rfl⟩
  | cons job jobs ih =>
    obtain ⟨⟨d, since⟩, hb⟩ := hjobs job (List.mem_cons_self ..) clock
      (streaks.get? (floorBreachKey job.apartmentId job.targetDate)) (hs _)
    have hnext : (writeStreak (floorBreachKey job.apartmentId job.targetDate) since streaks).All
        fun _ x => x ≤ Instant.date (env.now (clock + 1)) := by
      have hle := hmono clock (clock + 1) (Nat.le_succ _)
      exact writeStreak_all (fun key x hx => (hs key x hx).trans hle) hb hle
    obtain ⟨⟨streaks', ds⟩, hr⟩ := ih hnext fun j hj => hjobs j (List.mem_cons_of_mem _ hj)
    exact ⟨_, reprice_cons.mpr ⟨d, since, ds, hb, hr, rfl⟩⟩

end

/-! ## One step -/

/-- The event passes its guards: it is not stale, and a market event is not for a night of the past. -/
def StageB.accepts (s : StageB) (e : Env × StageBEvent) : Bool :=
  match e.2 with
  | .cost value =>
    isSafeToOverwrite value.updatedAt ((s.apartments.get? value.apartmentId).map (·.updatedAt))
  | .market value =>
    !decide (value.targetDate < Instant.date (e.1.now 0)) &&
      isSafeToOverwrite value.collectedAt
        ((previousSnapshot (s.nights.get? value.targetDate) value.marketContext.platform).map (·.collectedAt))

def StageB.accept (s : StageB) (e : Env × StageBEvent) : StageB :=
  match e.2 with
  | .cost value => acceptCost e.1 s value
  | .market value => acceptMarket e.1 s value

@[simp] theorem StageB.accept_cost (s : StageB) (env : Env) (value : CostAggregate) :
    s.accept (env, .cost value) = acceptCost env s value := rfl

@[simp] theorem StageB.accept_market (s : StageB) (env : Env) (value : MarketPrice) :
    s.accept (env, .market value) = acceptMarket env s value := rfl

def StageB.nightOf (s : StageB) (value : MarketPrice) : NightSnapshot :=
  updateNight (s.nights.get? value.targetDate) value.marketContext.platform (snapshotOf value)

def StageB.jobs (s : StageB) (e : Env × StageBEvent) : List Job :=
  match e.2 with
  | .cost value => costJobs (acceptCost e.1 s value) value
  | .market value =>
    if (s.nightOf value).blended.isNone then []
    else marketJobs (acceptMarket e.1 s value) value.targetDate (s.nightOf value)

def StageBEvent.clock : StageBEvent → ℕ
  | .cost _ => 1
  | .market _ => 3

theorem StageB.step_eq (s : StageB) (e : Env × StageBEvent) :
    s.step e = if s.accepts e then repriceAll e.1 e.2.clock (s.accept e) (s.jobs e) else .ok (s, []) := by
  obtain ⟨env, value | value⟩ := e
  · change processElement1 env s value = _
    unfold processElement1
    cases hfresh : isSafeToOverwrite value.updatedAt
      ((s.apartments.get? value.apartmentId).map (·.updatedAt)) with
    | false =>
      have hacc : s.accepts (env, .cost value) = false := hfresh
      simp [hacc, hfresh]
    | true =>
      have hacc : s.accepts (env, .cost value) = true := hfresh
      simp only [hacc, hfresh]
      rfl
  · change processElement2 env s value = _
    unfold processElement2
    by_cases hpast : value.targetDate < Instant.date (env.now 0)
    · have hacc : s.accepts (env, .market value) = false := by simp [StageB.accepts, hpast]
      rw [if_pos hpast, hacc]
      rfl
    rw [if_neg hpast]
    cases hfresh : isSafeToOverwrite value.collectedAt
      ((previousSnapshot (s.nights.get? value.targetDate) value.marketContext.platform).map (·.collectedAt)) with
    | false =>
      have hacc : s.accepts (env, .market value) = false := by simp [StageB.accepts, hfresh]
      rw [hacc]
      simp [snapshotOf, hfresh]
    | true =>
      have hacc : s.accepts (env, .market value) = true := by simp [StageB.accepts, hpast, hfresh]
      have hfresh' : isSafeToOverwrite (snapshotOf value).collectedAt
          ((previousSnapshot (s.nights.get? value.targetDate) value.marketContext.platform).map
            (·.collectedAt)) = true := hfresh
      have hnight : updateNight (s.nights.get? value.targetDate) value.marketContext.platform
          (snapshotOf value) = s.nightOf value := rfl
      simp only [hfresh', hnight, hacc, StageB.jobs]
      cases hblended : (s.nightOf value).blended <;> simp <;> rfl

def StageB.withStreaks (s : StageB) (streaks : Dict String Date) : StageB :=
  { s with floorBreachSince := streaks }

section
variable (s : StageB) (streaks : Dict String Date)

@[simp] theorem StageB.withStreaks_apartments : (s.withStreaks streaks).apartments = s.apartments := rfl

@[simp] theorem StageB.withStreaks_nights : (s.withStreaks streaks).nights = s.nights := rfl

end

/-- What one step does: nothing, or the writes of an accepted event and its fan-out. -/
theorem StageB.step_cases {s s' : StageB} {e : Env × StageBEvent} {ds : List PriceDecision}
    (h : s.step e = .ok (s', ds)) :
    (s.accepts e = false ∧ s' = s ∧ ds = []) ∨
    (s.accepts e = true ∧ ∃ streaks,
      reprice e.1 e.2.clock (s.accept e).floorBreachSince (s.jobs e) = .ok (streaks, ds) ∧
      s' = (s.accept e).withStreaks streaks) := by
  rw [StageB.step_eq] at h
  cases hacc : s.accepts e with
  | false =>
    rw [hacc] at h
    obtain ⟨rfl, rfl⟩ := Prod.mk.inj (Except.ok.inj h)
    exact Or.inl ⟨rfl, rfl, rfl⟩
  | true =>
    rw [hacc, if_pos rfl] at h
    obtain ⟨⟨streaks, ds'⟩, hr, e'⟩ := bind_eq_ok.mp h
    obtain ⟨rfl, rfl⟩ := Prod.mk.inj (Except.ok.inj e')
    exact Or.inr ⟨rfl, streaks, hr, rfl⟩

section
variable {s s' : StageB} {e : Env × StageBEvent} {ds : List PriceDecision} (h : s.step e = .ok (s', ds))
include h

theorem StageB.step_rejected (hrej : s.accepts e = false) : s' = s ∧ ds = [] := by
  rcases StageB.step_cases h with ⟨-, hs, hds⟩ | ⟨hacc, -⟩
  · exact ⟨hs, hds⟩
  · rw [hrej] at hacc
    cases hacc

theorem StageB.step_accepted (hacc : s.accepts e = true) : ∃ streaks,
    reprice e.1 e.2.clock (s.accept e).floorBreachSince (s.jobs e) = .ok (streaks, ds) ∧
      s' = (s.accept e).withStreaks streaks := by
  rcases StageB.step_cases h with ⟨hrej, -⟩ | ⟨-, hstep⟩
  · rw [hacc] at hrej
    cases hrej
  · exact hstep

end

/-! ## Writes of a cost event -/

def StageB.evicted (s : StageB) (value : CostAggregate) : Option String :=
  if isOverCapacity (s.apartments.put value.apartmentId value).size then
    oldestKeyByUpdatedAt s.apartments
  else none

theorem acceptCost_eq (env : Env) (s : StageB) (value : CostAggregate) :
    acceptCost env s value = putApartment env ((s.evicted value).elim s (evict · s)) value := by
  unfold acceptCost StageB.evicted evictOldest
  dsimp only
  rw [Dict.size_put]
  generalize isOverCapacity (s.apartments.size + _) = full
  cases full with
  | false => rfl
  | true => cases oldestKeyByUpdatedAt s.apartments <;> rfl

section
variable (env : Env) (s : StageB) (value : CostAggregate)

@[simp] theorem acceptCost_nights : (acceptCost env s value).nights = s.nights := by
  rw [acceptCost_eq]
  cases s.evicted value <;> rfl

@[simp] theorem acceptCost_nightDeadlines : (acceptCost env s value).nightDeadlines = s.nightDeadlines := by
  rw [acceptCost_eq]
  cases s.evicted value <;> rfl

theorem acceptCost_apartments (a : String) :
    (acceptCost env s value).apartments.get? a =
      if a = value.apartmentId then some value
      else if s.evicted value = some a then none else s.apartments.get? a := by
  rw [acceptCost_eq]
  cases s.evicted value with
  | none => exact Dict.get?_put ..
  | some oldest =>
    refine (Dict.get?_put ..).trans ?_
    simp only [Option.elim, evict, Dict.get?_remove, Option.some.injEq, eq_comm]

theorem acceptCost_apartmentDeadlines (a : String) :
    (acceptCost env s value).apartmentDeadlines.get? a =
      if a = value.apartmentId then some (nextDeadlineMillis (env.now 0))
      else if s.evicted value = some a then none else s.apartmentDeadlines.get? a := by
  rw [acceptCost_eq]
  cases s.evicted value with
  | none => exact Dict.get?_put ..
  | some oldest =>
    refine (Dict.get?_put ..).trans ?_
    simp only [Option.elim, evict, Dict.get?_remove, Option.some.injEq, eq_comm]

theorem acceptCost_streaks (key : String) :
    (acceptCost env s value).floorBreachSince.get? key =
      if (s.evicted value).any fun oldest => startsWith key (oldest ++ "|") then none
      else s.floorBreachSince.get? key := by
  rw [acceptCost_eq]
  cases s.evicted value with
  | none => rfl
  | some oldest => exact Dict.get?_removeWhere ..

end

/-! ## Writes of a market event -/

theorem mem_expiredNightKeys {nights : Dict Date NightSnapshot} {today d : Date} :
    d ∈ expiredNightKeys nights today ↔ d ∈ nights.keys ∧ d < today := by
  simp [expiredNightKeys, List.mem_filter]

theorem dropNights_eq (dates : List Date) (s : StageB) :
    dates.foldl dropNight s = { s with
      nights := s.nights.removeWhere (· ∈ dates)
      nightDeadlines := s.nightDeadlines.removeWhere (· ∈ dates)
      floorBreachSince := s.floorBreachSince.removeWhere fun key =>
        dates.any fun d => endsWith key ("|" ++ isoformat d) } := by
  induction dates generalizing s with
  | nil => simp [Dict.removeWhere_eq_self]
  | cons d dates ih =>
    rw [List.foldl_cons, ih]
    simp only [dropNight, Dict.remove, Dict.removeWhere_removeWhere, List.any_cons, List.mem_cons,
      Bool.decide_or, beq_eq_decide]

section
variable (env : Env) (s : StageB) (value : MarketPrice)

@[simp] theorem acceptMarket_apartments : (acceptMarket env s value).apartments = s.apartments := by
  simp [acceptMarket, putNight, expireNights, dropNights_eq]

@[simp] theorem acceptMarket_apartmentDeadlines :
    (acceptMarket env s value).apartmentDeadlines = s.apartmentDeadlines := by
  simp [acceptMarket, putNight, expireNights, dropNights_eq]

theorem acceptMarket_nights (d : Date) :
    (acceptMarket env s value).nights.get? d =
      if d = value.targetDate then some (s.nightOf value)
      else if d < Instant.date (env.now 1) then none else s.nights.get? d := by
  refine (Dict.get?_put ..).trans (if_congr Iff.rfl rfl ?_)
  rw [expireNights, dropNights_eq, Dict.get?_removeWhere]
  simp only [decide_eq_true_eq, mem_expiredNightKeys]
  by_cases hk : d ∈ s.nights.keys
  · simp [hk]
  · simp [hk, Dict.get?_eq_none.mpr hk]

theorem acceptMarket_nightDeadlines (d : Date) :
    (acceptMarket env s value).nightDeadlines.get? d =
      if d = value.targetDate then some (nextDeadlineMillis (env.now 2))
      else if d ∈ s.nights.keys ∧ d < Instant.date (env.now 1) then none else s.nightDeadlines.get? d := by
  refine (Dict.get?_put ..).trans (if_congr Iff.rfl rfl ?_)
  rw [expireNights, dropNights_eq, Dict.get?_removeWhere]
  simp only [decide_eq_true_eq, mem_expiredNightKeys]

theorem acceptMarket_streaks (key : String) :
    (acceptMarket env s value).floorBreachSince.get? key =
      if (expiredNightKeys s.nights (Instant.date (env.now 1))).any fun d =>
        endsWith key ("|" ++ isoformat d) then none
      else s.floorBreachSince.get? key := by
  simp only [acceptMarket, putNight, expireNights, dropNights_eq]
  exact Dict.get?_removeWhere ..

end

theorem isSafeToOverwrite_iff {candidate : Instant} {existing : Option Instant} :
    isSafeToOverwrite candidate existing = true ↔ ∀ t ∈ existing, t ≤ candidate := by
  cases existing with
  | none => simp [isSafeToOverwrite]
  | some t => simp [isSafeToOverwrite]

theorem previousSnapshot_nightOf (s : StageB) (value : MarketPrice) (platform : Option Platform) :
    previousSnapshot (some (s.nightOf value)) platform =
      if platform = value.marketContext.platform then some (snapshotOf value)
      else previousSnapshot (s.nights.get? value.targetDate) platform := by
  unfold StageB.nightOf updateNight
  generalize s.nights.get? value.targetDate = existing
  generalize value.marketContext.platform = own
  cases own with
  | none =>
    cases platform with
    | none => rfl
    | some p => cases existing <;> simp [previousSnapshot]
  | some q =>
    cases platform with
    | none => cases existing <;> simp [previousSnapshot]
    | some p => cases existing <;> simp [previousSnapshot, Dict.get?_put]

/-! ## Jobs -/

def StageBEvent.Concerns (e : StageBEvent) (apartmentId : String) (targetDate : Date) : Prop :=
  match e with
  | .cost value => apartmentId = value.apartmentId
  | .market value => targetDate = value.targetDate

/-- The jobs are the stored pairs on the event's side whose night has a blended snapshot. -/
theorem StageB.mem_jobs {s : StageB} {e : Env × StageBEvent} {job : Job} :
    job ∈ s.jobs e ↔
      e.2.Concerns job.apartmentId job.targetDate ∧ (s.accept e).apartments.get? job.apartmentId = some job.cost ∧
        (s.accept e).nights.get? job.targetDate = some job.night ∧ job.night.blended.isSome := by
  obtain ⟨env, value | value⟩ := e
  · simp only [StageB.jobs, costJobs, StageB.accept, StageBEvent.Concerns, List.mem_map, List.mem_filter,
      Prod.exists, Dict.mem_entries]
    refine ⟨?_, ?_⟩
    · intro hex
      obtain ⟨d, night, ⟨hn, hb⟩, rfl⟩ := hex
      exact ⟨rfl, by rw [acceptCost_apartments, if_pos rfl], hn, hb⟩
    · intro hjob
      obtain ⟨ha, hc, hn, hb⟩ := hjob
      rw [acceptCost_apartments, if_pos ha, Option.some.injEq] at hc
      refine ⟨job.targetDate, job.night, ⟨hn, hb⟩, ?_⟩
      rw [← ha, hc]
  · have hnight : (acceptMarket env s value).nights.get? value.targetDate = some (s.nightOf value) := by
      rw [acceptMarket_nights, if_pos rfl]
    simp only [StageB.jobs, StageB.accept, StageBEvent.Concerns]
    refine ⟨?_, ?_⟩
    · intro h
      split at h
      · cases h
      · rename_i hb
        simp only [marketJobs, List.mem_map, Prod.exists, Dict.mem_entries] at h
        obtain ⟨a, c, hc, rfl⟩ := h
        exact ⟨rfl, hc, hnight, by simpa [Option.isSome_iff_ne_none] using hb⟩
    · intro hjob
      obtain ⟨hd, hc, hn, hb⟩ := hjob
      rw [hd, hnight, Option.some.injEq] at hn
      rw [hn, if_neg (by simpa [Option.isSome_iff_ne_none] using hb)]
      simp only [marketJobs, List.mem_map, Prod.exists, Dict.mem_entries]
      refine ⟨job.apartmentId, job.cost, hc, ?_⟩
      rw [← hd]

/-! ## Decisions and stored costs of a step -/

theorem step_decision {s s' : StageB} {e : Env × StageBEvent} {ds : List PriceDecision}
    (h : s.step e = .ok (s', ds)) :
    ∀ d ∈ ds, s.accepts e = true ∧ ∃ job ∈ s.jobs e, ∃ i, Prices (fun _ => True) e.1 i job d := by
  intro d hd
  rcases StageB.step_cases h with ⟨-, -, rfl⟩ | ⟨hacc, streaks, hr, -⟩
  · cases hd
  · have hprices := (reprice_prices (fun _ => trivial) (fun _ _ _ => trivial) hr).1
    obtain ⟨⟨job, i⟩, hj, hp⟩ := exists_of_forall₂ hprices d hd
    exact ⟨hacc, job, List.fst_mem_of_mem_zipIdx hj, i, hp⟩

theorem step_stored {K : String → CostAggregate → Prop} {s s' : StageB} {e : Env × StageBEvent}
    {ds : List PriceDecision} (h : s.step e = .ok (s', ds)) (hs : s.apartments.All K)
    (hv : ∀ value, e.2 = .cost value → K value.apartmentId value) : s'.apartments.All K := by
  rcases StageB.step_cases h with ⟨-, rfl, -⟩ | ⟨-, streaks, -, rfl⟩
  · exact hs
  intro a c hc
  rw [StageB.withStreaks_apartments] at hc
  obtain ⟨env, value | value⟩ := e
  · rw [StageB.accept_cost, acceptCost_apartments] at hc
    split_ifs at hc with ha
    · rw [← Option.some.inj hc, ha]
      exact hv value rfl
    · exact hs a c hc
  · rw [StageB.accept_market, acceptMarket_apartments] at hc
    exact hs a c hc

/-- Each apartment is stored under its own id. -/
def StageB.Own (s : StageB) : Prop := s.apartments.All fun a cost => cost.apartmentId = a

theorem StageB.own_empty : ({} : StageB).Own := Dict.all_empty _

section
variable {s s' : StageB} {e : Env × StageBEvent} {ds : List PriceDecision}

theorem StageB.Own.step (hs : s.Own) (h : s.step e = .ok (s', ds)) : s'.Own := step_stored h hs fun _ _ => rfl

theorem StageB.Own.jobs (hs : s.Own) (h : s.step e = .ok (s', ds)) (hacc : s.accepts e = true) :
    ∀ job ∈ s.jobs e, job.cost.apartmentId = job.apartmentId := by
  intro job hj
  obtain ⟨-, hc, -⟩ := StageB.mem_jobs.mp hj
  have hown := hs.step h
  obtain ⟨streaks, -, rfl⟩ := StageB.step_accepted h hacc
  exact hown _ _ hc

end

/-! ## A flat and its market -/

def flatCost (apartmentId : String) (updatedAt : Instant) : CostAggregate :=
  { apartmentId := apartmentId
    apartmentReference := "A-1"
    city := "Barcelona"
    neighborhood := "Gracia"
    propertyType := .apartment
    bedrooms := 2
    fixedCostEur := 20
    variableCostEur := 10
    perBookingCostEur := 14
    totalMonthlyCostEur := 900
    availableDays := 30
    costLinesCount := 2
    billingPeriodStart := toordinal 2026 9 1
    billingPeriodEnd := toordinal 2026 9 30
    targetMargin := 20 / 100
    competitivenessDiscount := 5 / 100
    updatedAt := updatedAt
    commissionPct := 10 / 100 }

def flatMarket (platform : Option Platform) (targetDate : Date) (collectedAt : Instant) : MarketPrice :=
  { marketArea := { city := "Barcelona", neighborhood := some "Gracia" }
    propertyProfile := { type := .apartment, bedrooms := 2 }
    targetDate := targetDate
    avgNightlyRate := 120
    marketContext :=
      { sampleSize := 12
        platform := platform
        occupancyRate_mem := by intro r h; cases h
        sampleSize_pos := by decide }
    collectedAt := collectedAt
    avgNightlyRate_nonneg := by decide }

def envAt (now : Instant) : Env := { now := fun _ => now, uuid4 := fun _ => "1" }

end PriceEngine
