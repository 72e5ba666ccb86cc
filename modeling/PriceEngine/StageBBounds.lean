import PriceEngine.StageBSound

/-!
# Bounds and alignment of Stage B's state

`Aligned` ties the five maps together: no more apartments than the cap, a
deadline for each entry and for nothing else, and streaks of stored pairs only.
Each write of an accepted event restores it, and the fan-out adds streaks of
stored pairs. `evicted_spec` says which apartment an insertion drops, and
`step_collectedAt` and `step_updatedAt` that timestamps only grow.
-/

namespace PriceEngine

/-! ## The invariant -/

structure StageB.Aligned (s : StageB) : Prop where
  size : s.apartments.size ≤ hoja1MaxEntriesPerSegment
  apartmentDeadlines : ∀ a, a ∈ s.apartmentDeadlines.keys ↔ a ∈ s.apartments.keys
  nightDeadlines : ∀ d, d ∈ s.nightDeadlines.keys ↔ d ∈ s.nights.keys
  streaks : ∀ key ∈ s.floorBreachSince.keys,
    ∃ a ∈ s.apartments.keys, ∃ d ∈ s.nights.keys, key = floorBreachKey a d
  bars : ∀ a ∈ s.apartments.keys, '|' ∉ a.toList

/-- The event's apartment id, if it has one, is free of the separator of the streak keys. -/
def StageBEvent.BarFree : StageBEvent → Prop
  | .cost value => '|' ∉ value.apartmentId.toList
  | .market _ => True

theorem StageB.aligned_empty : ({} : StageB).Aligned where
  size := Nat.zero_le _
  apartmentDeadlines _ := Iff.rfl
  nightDeadlines _ := Iff.rfl
  streaks _ h := nomatch h
  bars _ h := nomatch h

/-! ## Eviction -/

theorem oldestKey_spec {entries : Dict String CostAggregate} {a : String}
    (h : oldestKeyByUpdatedAt entries = some a) :
    ∃ c, entries.get? a = some c ∧ ∀ b c', entries.get? b = some c' → c.updatedAt ≤ c'.updatedAt := by
  obtain ⟨⟨a', c⟩, hmin, rfl⟩ := Option.map_eq_some_iff.mp h
  refine ⟨c, Dict.mem_entries.mp (List.minOn?_mem hmin), fun b c' hb => ?_⟩
  have hle := List.apply_get_minOn?_le_of_mem (f := fun e : String × CostAggregate => e.2.updatedAt)
    (Dict.mem_entries.mpr hb)
  simpa only [hmin, Option.get_some] using hle

theorem oldestKey_isSome {entries : Dict String CostAggregate} (h : 0 < entries.size) :
    ∃ a, oldestKeyByUpdatedAt entries = some a := by
  have hne : entries.entries ≠ [] := List.ne_nil_of_length_pos h
  exact ⟨_, congrArg (Option.map Prod.fst) (List.minOn?_eq_some_minOn hne)⟩

section
variable {s : StageB} {value : CostAggregate} (hs : s.apartments.size ≤ hoja1MaxEntriesPerSegment)
include hs

theorem evicted_spec {a : String} (h : s.evicted value = some a) :
    s.apartments.get? value.apartmentId = none ∧
      ∃ c, s.apartments.get? a = some c ∧
        ∀ b c', s.apartments.get? b = some c' → c.updatedAt ≤ c'.updatedAt := by
  unfold StageB.evicted at h
  split at h
  · rename_i hfull
    refine ⟨Dict.get?_eq_none.mpr fun hk => ?_, oldestKey_spec h⟩
    have hfull' := of_decide_eq_true hfull
    rw [Dict.size_put_of_mem hk] at hfull'
    omega
  · cases h

theorem acceptCost_size (env : Env) :
    (acceptCost env s value).apartments.size ≤ hoja1MaxEntriesPerSegment := by
  rw [acceptCost_eq]
  cases hev : s.evicted value with
  | some a =>
    obtain ⟨-, c, hc, -⟩ := evicted_spec hs hev
    have hsize := Dict.size_remove s.apartments (Dict.mem_keys.mpr ⟨c, hc⟩)
    have hput := Dict.size_put_le (s.apartments.remove a) value.apartmentId value
    exact hput.trans (hsize.trans_le hs)
  | none =>
    unfold StageB.evicted at hev
    split at hev
    · rename_i hfull
      have hfull' := of_decide_eq_true hfull
      have hput := Dict.size_put_le s.apartments value.apartmentId value
      have hpos : 0 < s.apartments.size := by unfold hoja1MaxEntriesPerSegment at hfull'; omega
      obtain ⟨a, ha⟩ := oldestKey_isSome hpos
      rw [ha] at hev
      cases hev
    · rename_i hroom
      exact not_lt.mp fun hlt => hroom (decide_eq_true hlt)

end

/-! ## The writes keep the invariant -/

theorem aligned_acceptCost {s : StageB} (hs : s.Aligned) (env : Env) {value : CostAggregate}
    (hbar : '|' ∉ value.apartmentId.toList) : (acceptCost env s value).Aligned where
  size := acceptCost_size hs.size env
  apartmentDeadlines a := by
    have h := hs.apartmentDeadlines a
    rw [Dict.mem_keys_iff_isSome, Dict.mem_keys_iff_isSome] at h ⊢
    rw [acceptCost_apartments, acceptCost_apartmentDeadlines]
    split_ifs <;> simp [h]
  nightDeadlines d := by
    rw [acceptCost_nights, acceptCost_nightDeadlines]
    exact hs.nightDeadlines d
  streaks key hk := by
    rw [Dict.mem_keys_iff_isSome, acceptCost_streaks] at hk
    split at hk
    · cases hk
    rename_i hkept
    obtain ⟨a, ha, d, hd, rfl⟩ := hs.streaks key (Dict.mem_keys_iff_isSome.mpr hk)
    refine ⟨a, ?_, d, by rwa [acceptCost_nights], rfl⟩
    rw [Dict.mem_keys_iff_isSome, acceptCost_apartments]
    -- a streak of the evicted apartment would have been dropped
    have hne : s.evicted value ≠ some a := fun hev => hkept (by
      rw [hev]
      exact (startsWith_floorBreachKey (hs.bars a ha) (hs.bars a ha)).mpr rfl)
    rw [if_neg hne]
    split
    · rfl
    · exact Dict.mem_keys_iff_isSome.mp ha
  bars a ha := by
    rw [Dict.mem_keys_iff_isSome, acceptCost_apartments] at ha
    split_ifs at ha with h1 h2
    · rwa [h1]
    · cases ha
    · exact hs.bars a (Dict.mem_keys_iff_isSome.mpr ha)

theorem aligned_acceptMarket {s : StageB} (hs : s.Aligned) (env : Env) (value : MarketPrice) :
    (acceptMarket env s value).Aligned where
  size := by
    rw [acceptMarket_apartments]
    exact hs.size
  apartmentDeadlines a := by
    rw [acceptMarket_apartments, acceptMarket_apartmentDeadlines]
    exact hs.apartmentDeadlines a
  nightDeadlines d := by
    have h := hs.nightDeadlines d
    rw [Dict.mem_keys_iff_isSome, Dict.mem_keys_iff_isSome] at h ⊢
    rw [acceptMarket_nights, acceptMarket_nightDeadlines]
    by_cases hn : d ∈ s.nights.keys
    · simp only [hn, true_and]
      split_ifs <;> simp [h]
    · have hnone := Dict.get?_eq_none.mpr hn
      simp only [hnone, Option.isSome_none] at h ⊢
      split_ifs <;> simp_all
  streaks key hk := by
    rw [Dict.mem_keys_iff_isSome, acceptMarket_streaks] at hk
    split at hk
    · cases hk
    rename_i hkept
    obtain ⟨a, ha, d, hd, rfl⟩ := hs.streaks key (Dict.mem_keys_iff_isSome.mpr hk)
    refine ⟨a, by rwa [acceptMarket_apartments], d, ?_, rfl⟩
    rw [Dict.mem_keys_iff_isSome, acceptMarket_nights]
    -- a streak of an expired night would have been dropped
    have hlive : ¬ d < Instant.date (env.now 1) := fun hlt => hkept (List.any_eq_true.mpr
      ⟨d, mem_expiredNightKeys.mpr ⟨hd, hlt⟩, endsWith_floorBreachKey.mpr rfl⟩)
    rw [if_neg hlive]
    split
    · rfl
    · exact Dict.mem_keys_iff_isSome.mp hd
  bars a ha := hs.bars a (by rwa [acceptMarket_apartments] at ha)

theorem step_aligned {s s' : StageB} (hs : s.Aligned) {e : Env × StageBEvent} (hbar : e.2.BarFree)
    {ds : List PriceDecision} (h : s.step e = .ok (s', ds)) : s'.Aligned := by
  rcases StageB.step_cases h with ⟨-, rfl, -⟩ | ⟨-, streaks, hr, rfl⟩
  · exact hs
  have ha : (s.accept e).Aligned := by
    obtain ⟨env, value | value⟩ := e
    · exact aligned_acceptCost hs env hbar
    · exact aligned_acceptMarket hs env value
  refine { ha with streaks := fun key hk => ?_ }
  by_cases hjob : ∃ job ∈ s.jobs e, key = floorBreachKey job.apartmentId job.targetDate
  · obtain ⟨job, hj, rfl⟩ := hjob
    obtain ⟨-, hc, hn, -⟩ := StageB.mem_jobs.mp hj
    exact ⟨_, Dict.mem_keys.mpr ⟨_, hc⟩, _, Dict.mem_keys.mpr ⟨_, hn⟩, rfl⟩
  · have hold := reprice_streak_unchanged hr fun job hj e' => hjob ⟨job, hj, e'⟩
    refine ha.streaks key ?_
    rw [Dict.mem_keys_iff_isSome] at hk ⊢
    exact hold ▸ hk

/-! ## What an eviction takes with it -/

/-- The step dropped apartment `a`, the oldest stored, and nothing of the other apartments. -/
structure EvictsOldest (s s' : StageB) (value : CostAggregate) (a : String) : Prop where
  oldest : ∃ c, s.apartments.get? a = some c ∧
    ∀ b c', s.apartments.get? b = some c' → c.updatedAt ≤ c'.updatedAt
  deadline : a ∉ s'.apartmentDeadlines.keys
  streaks : ∀ d, floorBreachKey a d ∉ s'.floorBreachSince.keys
  others : ∀ b, b ≠ a → b ≠ value.apartmentId →
    s'.apartments.get? b = s.apartments.get? b ∧
    s'.apartmentDeadlines.get? b = s.apartmentDeadlines.get? b ∧
    ∀ d, s'.floorBreachSince.get? (floorBreachKey b d) = s.floorBreachSince.get? (floorBreachKey b d)
  nights : s'.nights = s.nights ∧ s'.nightDeadlines = s.nightDeadlines

theorem step_evicts {s s' : StageB} (hs : s.Aligned) {env : Env} {value : CostAggregate}
    (hbar : '|' ∉ value.apartmentId.toList) {ds : List PriceDecision}
    (h : s.step (env, .cost value) = .ok (s', ds)) {a : String} (ha : a ∈ s.apartments.keys)
    (ha' : a ∉ s'.apartments.keys) : EvictsOldest s s' value a := by
  have hs' := step_aligned hs (e := (env, .cost value)) hbar h
  rcases StageB.step_cases h with ⟨-, rfl, -⟩ | ⟨-, streaks, hr, rfl⟩
  · exact absurd ha ha'
  have hget : ∀ b, ((s.accept (env, .cost value)).withStreaks streaks).apartments.get? b =
      if b = value.apartmentId then some value
      else if s.evicted value = some b then none else s.apartments.get? b :=
    acceptCost_apartments env s value
  have hne : a ≠ value.apartmentId := by
    intro h; subst h
    exact ha' (Dict.mem_keys.mpr ⟨value, by rw [hget, if_pos rfl]⟩)
  have hev : s.evicted value = some a := by
    rw [Dict.mem_keys_iff_isSome] at ha ha'
    by_contra hev
    rw [hget, if_neg hne, if_neg hev] at ha'
    exact ha' ha
  have hkeep : ∀ b, b ≠ a → s.evicted value ≠ some b := fun b hb e =>
    hb (Option.some.inj (e.symm.trans hev))
  refine ⟨(evicted_spec hs.size hev).2, fun hd => ha' ((hs'.apartmentDeadlines a).mp hd), fun d hd => ?_,
    fun b hb hbv => ⟨?_, ?_, fun d => ?_⟩, acceptCost_nights env s value,
    acceptCost_nightDeadlines env s value⟩
  · obtain ⟨a', hmem, d', -, e⟩ := hs'.streaks _ hd
    obtain ⟨rfl, -⟩ := floorBreachKey_inj.mp e
    exact ha' hmem
  · rw [hget, if_neg hbv, if_neg (hkeep b hb)]
  · refine (acceptCost_apartmentDeadlines env s value b).trans ?_
    rw [if_neg hbv, if_neg (hkeep b hb)]
  · -- the fan-out writes the streaks of the event's own apartment only
    have hjobs : ∀ job ∈ s.jobs (env, .cost value),
        floorBreachKey b d ≠ floorBreachKey job.apartmentId job.targetDate := by
      intro job hj e
      obtain ⟨rfl, -⟩ := floorBreachKey_inj.mp e
      exact hbv (StageB.mem_jobs.mp hj).1
    refine (reprice_streak_unchanged hr hjobs).trans ((acceptCost_streaks env s value _).trans ?_)
    rw [hev]
    simp only [Option.any_some]
    split
    · rename_i hstart
      -- a key of `b` that starts with `a|` belongs to no stored apartment
      symm
      refine Dict.get?_eq_none.mpr fun hk => ?_
      obtain ⟨b', hb', d', -, e⟩ := hs.streaks _ hk
      obtain ⟨rfl, -⟩ := floorBreachKey_inj.mp e
      exact hb ((startsWith_floorBreachKey (hs.bars b hb') (hs.bars a ha)).mp hstart)
    · rfl

/-! ## Nights of the past -/

/-- After an accepted market event read at one instant, every stored night is of today or later. -/
theorem step_no_past_night {s s' : StageB} {env : Env} (hone : ∀ i, env.now i = env.now 0)
    {value : MarketPrice} {ds : List PriceDecision} (h : s.step (env, .market value) = .ok (s', ds))
    (hacc : s.accepts (env, .market value) = true) : ∀ d ∈ s'.nights.keys, Instant.date (env.now 0) ≤ d := by
  intro d hd
  obtain ⟨streaks, -, rfl⟩ := StageB.step_accepted h hacc
  have hget := acceptMarket_nights env s value d
  rw [hone 1] at hget
  rw [Dict.mem_keys_iff_isSome] at hd
  change ((acceptMarket env s value).nights.get? d).isSome = true at hd
  rw [hget] at hd
  split_ifs at hd with htarget hpast
  · rw [htarget]
    simp only [StageB.accepts, Bool.and_eq_true, Bool.not_eq_true', decide_eq_false_iff_not] at hacc
    exact not_lt.mp hacc.1
  · cases hd
  · exact not_lt.mp hpast

/-! ## Timestamps -/

def StageB.updatedAt (s : StageB) (a : String) : Option Instant := (s.apartments.get? a).map (·.updatedAt)

def StageB.collectedAt (s : StageB) (d : Date) (platform : Option Platform) : Option Instant :=
  (previousSnapshot (s.nights.get? d) platform).map (·.collectedAt)

section
variable {s s' : StageB} {e : Env × StageBEvent} {ds : List PriceDecision} (h : s.step e = .ok (s', ds))
include h

theorem step_updatedAt {a : String} {t t' : Instant} (ht : s.updatedAt a = some t)
    (ht' : s'.updatedAt a = some t') : t ≤ t' := by
  rcases StageB.step_cases h with ⟨-, rfl, -⟩ | ⟨hacc, streaks, -, rfl⟩
  · rw [ht] at ht'
    exact (Option.some.inj ht').le
  obtain ⟨env, value | value⟩ := e
  · have hget := acceptCost_apartments env s value a
    change ((acceptCost env s value).apartments.get? a).map (·.updatedAt) = some t' at ht'
    rw [hget] at ht'
    split_ifs at ht' with hown hev
    · subst hown
      rw [← Option.some.inj ht']
      exact isSafeToOverwrite_iff.mp hacc t ht
    · cases ht'
    · exact (Option.some.inj (ht.symm.trans ht')).le
  · change ((acceptMarket env s value).apartments.get? a).map (·.updatedAt) = some t' at ht'
    rw [acceptMarket_apartments] at ht'
    exact (Option.some.inj (ht.symm.trans ht')).le

theorem step_collectedAt {d : Date} {platform : Option Platform} {t t' : Instant}
    (ht : s.collectedAt d platform = some t) (ht' : s'.collectedAt d platform = some t') : t ≤ t' := by
  rcases StageB.step_cases h with ⟨-, rfl, -⟩ | ⟨hacc, streaks, -, rfl⟩
  · rw [ht] at ht'
    exact (Option.some.inj ht').le
  obtain ⟨env, value | value⟩ := e
  · change (previousSnapshot ((acceptCost env s value).nights.get? d) platform).map (·.collectedAt) =
      some t' at ht'
    rw [acceptCost_nights] at ht'
    exact (Option.some.inj (ht.symm.trans ht')).le
  · have hget := acceptMarket_nights env s value d
    change (previousSnapshot ((acceptMarket env s value).nights.get? d) platform).map (·.collectedAt) =
      some t' at ht'
    rw [hget] at ht'
    split_ifs at ht' with hown hpast
    · subst hown
      rw [previousSnapshot_nightOf] at ht'
      split_ifs at ht' with hp
      · subst hp
        rw [← Option.some.inj ht']
        simp only [StageB.accepts, Bool.and_eq_true] at hacc
        exact isSafeToOverwrite_iff.mp hacc.2 t ht
      · exact (Option.some.inj (ht.symm.trans ht')).le
    · cases ht'
    · exact (Option.some.inj (ht.symm.trans ht')).le

end

/-! ## Runs -/

theorem run_aligned {es : List (Env × StageBEvent)} (hbar : ∀ e ∈ es, e.2.BarFree) {s : StageB}
    {ds : List PriceDecision} (h : run StageB.step {} es = .ok (s, ds)) : s.Aligned := by
  have hstep : ∀ (s : StageB) (e : Env × StageBEvent) s' o, s.Aligned → e.2.BarFree →
      s.step e = .ok (s', o) → s'.Aligned := fun s e s' o hs he h' => step_aligned hs he h'
  exact run_invariant hstep StageB.aligned_empty (along_of_forall (fun _ e he => hbar e he) _) h

/-- What holds of every reachable state, and of every step and every run from it. -/
theorem stageB_state_bounds {es : List (Env × StageBEvent)} (hbar : ∀ e ∈ es, e.2.BarFree) {s : StageB}
    {ds : List PriceDecision} (h : run StageB.step {} es = .ok (s, ds)) :
    s.Aligned ∧
    (∀ env value s' o, '|' ∉ value.apartmentId.toList → s.step (env, .cost value) = .ok (s', o) →
      ∀ a ∈ s.apartments.keys, a ∉ s'.apartments.keys → EvictsOldest s s' value a) ∧
    (∀ env value s' o, (∀ i, env.now i = env.now 0) → s.step (env, .market value) = .ok (s', o) →
      s.accepts (env, .market value) = true → ∀ d ∈ s'.nights.keys, Instant.date (env.now 0) ≤ d) ∧
    (∀ es' s' o, run StageB.step s es' = .ok (s', o) →
      (∀ a t t', Along StageB.step (fun u _ => (u.updatedAt a).isSome) s es' →
        s.updatedAt a = some t → s'.updatedAt a = some t' → t ≤ t') ∧
      ∀ d platform t t', Along StageB.step (fun u _ => (u.collectedAt d platform).isSome) s es' →
        s.collectedAt d platform = some t → s'.collectedAt d platform = some t' → t ≤ t') := by
  have hs := run_aligned hbar h
  refine ⟨hs, fun env value s' o hv h' a ha ha' => step_evicts hs hv h' ha ha',
    fun env value s' o hone h' hacc => step_no_past_night hone h' hacc, fun es' s' o hr => ⟨?_, ?_⟩⟩
  · intro a t t' hstay ht ht'
    exact run_mono (fun _ _ _ _ _ _ h' => step_updatedAt h') hstay hr ht ht'
  · intro d platform t t' hstay ht ht'
    exact run_mono (fun _ _ _ _ _ _ h' => step_collectedAt h') hstay hr ht ht'

def cheapMarket (targetDate : Date) (collectedAt : Instant) : MarketPrice :=
  { flatMarket none targetDate collectedAt with
    avgNightlyRate := 20
    avgNightlyRate_nonneg := by decide }

/-- Two nights below the floor of the flat; the first of them is over when the market price of a third comes. -/
def expiringFlat : List (Env × StageBEvent) :=
  [(envAt 0, .market (cheapMarket (toordinal 1970 1 2) 0)), (envAt 1, .market (cheapMarket (toordinal 1970 3 1) 1)),
    (envAt 2, .cost (flatCost "a1" 0)), (envAt 259200000000, .market (cheapMarket (toordinal 1970 3 2) 3))]

/-- The first night is gone with its streak, and the state is as it should be. -/
theorem flat_state_bounds : ∃ s ds, run StageB.step {} expiringFlat = .ok (s, ds) ∧ ds.length = 3 ∧
    s.nights.keys = [toordinal 1970 3 1, toordinal 1970 3 2] ∧
    s.floorBreachSince.keys = [floorBreachKey "a1" (toordinal 1970 3 1), floorBreachKey "a1" (toordinal 1970 3 2)] ∧
    s.Aligned := by
  have hbar : ∀ e ∈ expiringFlat, e.2.BarFree := by
    simp [expiringFlat, StageBEvent.BarFree, flatCost]
  have hclosed : (run StageB.step {} expiringFlat).toOption.map
      (fun r => (r.2.length, r.1.nights.keys, r.1.floorBreachSince.keys)) =
      some (3, [toordinal 1970 3 1, toordinal 1970 3 2],
        [floorBreachKey "a1" (toordinal 1970 3 1), floorBreachKey "a1" (toordinal 1970 3 2)]) := by
    decide +kernel
  obtain ⟨⟨s, ds⟩, hrun, hfacts⟩ := ok_of_map hclosed
  obtain ⟨hlength, hfacts⟩ := Prod.mk.inj hfacts
  obtain ⟨hnights, hstreaks⟩ := Prod.mk.inj hfacts
  exact ⟨s, ds, hrun, hlength, hnights, hstreaks, (stageB_state_bounds hbar hrun).1⟩

end PriceEngine
