import Mathlib.Data.List.DropRight
import PriceEngine.StageBBounds

/-!
# Floor-breach streaks

A streak of an (apartment, night) pair starts with the first decision that is
not market-competitive and ends with the next one that is. `sinceDropped` is
the history of a pair: the decisions emitted for it since the eviction of its
apartment or the expiry of its night last dropped its entry. What Stage B has
stored for the pair is the start of the streak that this history ends in, and
every decision reports the days since then.
-/

namespace PriceEngine

/-! ## The history of a pair -/

def Competitive (d : PriceDecision) : Prop := d.calculation.ruleApplied = .marketCompetitive

instance (d : PriceDecision) : Decidable (Competitive d) :=
  inferInstanceAs (Decidable (d.calculation.ruleApplied = .marketCompetitive))

/-- The date of the first decision of the longest ending of `ds` without a competitive one. -/
def breachStart (ds : List PriceDecision) : Option Date :=
  (ds.rtakeWhile fun d => ¬ Competitive d).head?.map fun d => Instant.date d.decidedAt

/-- The event drops the pair's entry: it evicts the apartment or lets the night expire. -/
def StageB.drops (s : StageB) (e : Env × StageBEvent) (pair : String × Date) : Bool :=
  s.accepts e &&
    match e.2 with
    | .cost value => s.evicted value == some pair.1
    | .market _ => (expiredNightKeys s.nights (Instant.date (e.1.now 1))).contains pair.2

def noteDecisions (s : StageB) (e : Env × StageBEvent) (os : List PriceDecision)
    (history : String × Date → List PriceDecision) (pair : String × Date) : List PriceDecision :=
  (if s.drops e pair then [] else history pair) ++ os.filter (·.pair == pair)

/-- The decisions for each pair since its entry was last dropped, in a run from the empty state. -/
def sinceDropped (es : List (Env × StageBEvent)) : String × Date → List PriceDecision :=
  observed StageB.step noteDecisions {} (fun _ => []) es

theorem breachStart_concat (ds : List PriceDecision) (d : PriceDecision) :
    breachStart (ds ++ [d]) =
      newFloorBreachSince d.calculation.ruleApplied (Instant.date d.decidedAt) (breachStart ds) := by
  unfold breachStart newFloorBreachSince
  by_cases hd : d.calculation.ruleApplied = .marketCompetitive
  · rw [List.rtakeWhile_concat_neg _ _ _ (by simp [Competitive, hd]), if_neg (not_not.mpr hd)]
    rfl
  · rw [List.rtakeWhile_concat_pos _ _ _ (by simp [Competitive, hd]), if_pos hd, List.head?_append]
    cases (ds.rtakeWhile fun d => ¬ Competitive d).head? <;> rfl

/-! ## What a decision reports -/

/-- How the status reads the streak, the rule, the minimum stay and the channels. -/
structure ViabilityFits (d : PriceDecision) : Prop where
  persistent : d.calculation.viabilityStatus = .persistentFloorBreach ↔ 30 ≤ d.calculation.floorBreachDays
  competitive : d.calculation.viabilityStatus = .ok ∨ d.calculation.viabilityStatus = .demandUpside ↔
    Competitive d
  minStay : d.calculation.viabilityStatus = .minStayLeverAvailable →
    d.calculation.ruleApplied = .minimumProfitablePrice ∧
      ∃ n ∈ d.calculation.minimumStayRecommendation.recommendedMinStay, 1 < n
  binding : d.calculation.viabilityStatus = .floorBinding →
    ∀ row ∈ d.calculation.channelPriceMatrix, row.ruleApplied ≠ .marketCompetitive

/-- A longer stay is recommended only where one night is priced above the property reference. -/
theorem recommendFor_longer {a : PriceArgs} (hone : a.stayLength = 1) {m : MinimumStayRecommendation}
    (h : recommendFor a = .ok m) {n : ℕ+} (hn : n ∈ m.recommendedMinStay) (hlong : 1 < n) :
    (decidePrice a).ruleApplied = .minimumProfitablePrice := by
  unfold recommendFor recommendMinimumStay at h
  rw [losMatrix_sorted] at h
  dsimp only at h
  by_contra hrule
  rw [if_pos (by rwa [losRow_one hone])] at h
  rw [← Except.ok.inj h] at hn
  exact absurd hlong (by rw [← Option.some.inj hn]; exact lt_irrefl 1)

section
variable {rule : RuleApplied} {below : ℚ} {minStay : Option ℕ+} {channel : Bool} {days : ℤ}

theorem classifyViability_engine : classifyViability rule below minStay channel false days =
    if 30 ≤ days then .persistentFloorBreach
    else if rule = .marketCompetitive then if below ≤ 0 then .demandUpside else .ok
    else if minStay.any (1 < ·) then .minStayLeverAvailable
    else if channel then .channelLeverAvailable else .floorBinding := rfl

theorem classifyViability_persistent :
    classifyViability rule below minStay channel false days = .persistentFloorBreach ↔ 30 ≤ days := by
  rw [classifyViability_engine]
  split_ifs <;> simp_all

theorem classifyViability_competitive (hdays : rule = .marketCompetitive → days = 0) :
    classifyViability rule below minStay channel false days = .ok ∨
        classifyViability rule below minStay channel false days = .demandUpside ↔
      rule = .marketCompetitive := by
  rw [classifyViability_engine]
  split_ifs with hlong <;> simp_all
  intro hrule
  rw [hdays hrule] at hlong
  omega

theorem classifyViability_minStay
    (h : classifyViability rule below minStay channel false days = .minStayLeverAvailable) :
    ∃ n ∈ minStay, 1 < n := by
  rw [classifyViability_engine] at h
  split_ifs at h with _ _ _ hlong
  cases minStay with
  | none => cases hlong
  | some n => exact ⟨n, rfl, of_decide_eq_true hlong⟩

theorem classifyViability_binding
    (h : classifyViability rule below minStay channel false days = .floorBinding) : channel = false := by
  rw [classifyViability_engine] at h
  split_ifs at h with _ _ _ _ hchannel
  simpa using hchannel

end

section
variable {decisionId : String} {decidedAt : Instant} {cost : CostAggregate} {night : NightSnapshot}
  {targetDate : Date} {since since' : Option Date} {d : PriceDecision}
  (h : buildPriceDecision decisionId decidedAt cost night targetDate since = .ok (d, since'))
include h

/-- The streak is updated with the decision's own rule before its days are counted. -/
theorem build_streak :
    since' = newFloorBreachSince d.calculation.ruleApplied (Instant.date d.decidedAt) since ∧
      d.calculation.floorBreachDays = floorBreachDays (Instant.date d.decidedAt) since' := by
  obtain ⟨market, minimumStay, channels, -, -, -, hd, rfl⟩ := buildPriceDecision_eq_ok.mp h
  rw [hd]
  exact ⟨rfl, rfl⟩

theorem build_viability : ViabilityFits d := by
  obtain ⟨market, minimumStay, channels, -, hstay, -, hd, -⟩ := buildPriceDecision_eq_ok.mp h
  have hdays : (decidePrice (nightArgs cost market (targetDate - Instant.date decidedAt))).ruleApplied =
      .marketCompetitive → floorBreachDays (Instant.date decidedAt) (newFloorBreachSince
        (decidePrice (nightArgs cost market (targetDate - Instant.date decidedAt))).ruleApplied
        (Instant.date decidedAt) since) = 0 := by
    intro hrule
    rw [hrule]
    rfl
  constructor
  · rw [hd]
    exact classifyViability_persistent
  · rw [Competitive, hd]
    exact classifyViability_competitive hdays
  · intro hstatus
    rw [hd] at hstatus ⊢
    obtain ⟨n, hn, hlong⟩ := classifyViability_minStay hstatus
    exact ⟨recommendFor_longer rfl hstay hn hlong, n, hn, hlong⟩
  · intro hstatus row hrow hrule
    rw [hd] at hstatus hrow
    refine absurd (classifyViability_binding hstatus) (Bool.not_eq_false _ ▸ ?_)
    exact List.any_eq_true.mpr ⟨row, hrow, by simp [hrule]⟩

end

/-! ## The fan-out -/

/-- The decision reports the days since its streak began, where `before` is the history of its pair. -/
structure Reports (before : List PriceDecision) (d : PriceDecision) : Prop extends ViabilityFits d where
  days : d.calculation.floorBreachDays =
    floorBreachDays (Instant.date d.decidedAt) (breachStart (before ++ [d]))
  reset : Competitive d → d.calculation.floorBreachDays = 0

/-- The first decision joins the history of its own pair and of no other. -/
theorem writeStreak_history {streaks : Dict String Date} {history : String × Date → List PriceDecision}
    (hstreaks : ∀ pair, streaks.get? (floorBreachKey pair.1 pair.2) = breachStart (history pair))
    {d : PriceDecision} {since : Option Date} (hstart : since = breachStart (history d.pair ++ [d]))
    (q : String × Date) :
    (writeStreak (floorBreachKey d.pair.1 d.pair.2) since streaks).get? (floorBreachKey q.1 q.2) =
      breachStart (history q ++ [d].filter (·.pair == q)) := by
  rw [get?_writeStreak]
  by_cases hq : d.pair = q
  · subst hq
    rw [if_pos rfl, hstart]
    simp
  · rw [if_neg fun hk => hq (Prod.ext_iff.mpr (floorBreachKey_inj.mp hk)).symm, hstreaks q]
    simp [hq]

section
variable {env : Env} {clock : ℕ} {streaks streaks' : Dict String Date} {jobs : List Job}
  {ds : List PriceDecision} {history : String × Date → List PriceDecision}
  (hown : ∀ job ∈ jobs, job.cost.apartmentId = job.apartmentId)
  (hstreaks : ∀ pair, streaks.get? (floorBreachKey pair.1 pair.2) = breachStart (history pair))
  (h : reprice env clock streaks jobs = .ok (streaks', ds))
include hown hstreaks h

theorem reprice_history (pair : String × Date) :
    streaks'.get? (floorBreachKey pair.1 pair.2) = breachStart (history pair ++ ds.filter (·.pair == pair)) ∧
    ∀ ds₁ d ds₂, ds = ds₁ ++ d :: ds₂ → Reports (history d.pair ++ ds₁.filter (·.pair == d.pair)) d := by
  induction jobs generalizing clock streaks ds history with
  | nil =>
    obtain ⟨rfl, rfl⟩ := reprice_nil.mp h
    refine ⟨by simpa using hstreaks pair, fun ds₁ d ds₂ he => ?_⟩
    exact absurd he (by simp)
  | cons job jobs ih =>
    obtain ⟨d, since, ds', hb, hr, rfl⟩ := reprice_cons.mp h
    obtain ⟨ha, hd, -, -⟩ := build_fields hb
    obtain ⟨hsince, hdays⟩ := build_streak hb
    have hpair : d.pair = (job.apartmentId, job.targetDate) := by
      rw [PriceDecision.pair, ha, hd, hown job (List.mem_cons_self ..)]
    have hstart : since = breachStart (history d.pair ++ [d]) := by
      rw [hsince, breachStart_concat, hpair, ← hstreaks (job.apartmentId, job.targetDate)]
    have hnext := writeStreak_history hstreaks hstart
    rw [hpair] at hnext
    obtain ⟨hstored, hreports⟩ := ih (fun j hj => hown j (List.mem_cons_of_mem _ hj)) hnext hr
    refine ⟨?_, fun ds₁ x ds₂ he => ?_⟩
    · rw [hstored, List.append_assoc, ← List.filter_append, List.singleton_append]
    · cases ds₁ with
      | nil =>
        obtain ⟨rfl, rfl⟩ := List.cons.inj he
        refine { build_viability hb with days := ?_, reset := fun hcomp => ?_ }
        · rw [hdays, hstart, List.filter_nil, List.append_nil]
        · rw [hdays, hsince, newFloorBreachSince, if_neg]
          · rfl
          · exact not_not.mpr hcomp
      | cons d₀ ds₁ =>
        obtain ⟨rfl, rfl⟩ := List.cons.inj he
        have := hreports ds₁ x ds₂ rfl
        rwa [List.append_assoc, ← List.filter_append, List.singleton_append] at this

end

/-! ## One step -/

/-- What Stage B has stored for every pair is the start of the streak its history ends in. -/
structure StageB.Follows (s : StageB) (history : String × Date → List PriceDecision) : Prop where
  aligned : s.Aligned
  own : s.apartments.All fun a cost => cost.apartmentId = a
  streaks : ∀ pair, s.floorBreachSince.get? (floorBreachKey pair.1 pair.2) = breachStart (history pair)


theorem follows_empty : ({} : StageB).Follows fun _ => [] where
  aligned := StageB.aligned_empty
  own := Dict.all_empty _
  streaks _ := rfl

section
variable {s : StageB} {e : Env × StageBEvent} (hs : s.Aligned) (hacc : s.accepts e = true)
include hs hacc

theorem accept_streak (pair : String × Date) :
    (s.accept e).floorBreachSince.get? (floorBreachKey pair.1 pair.2) =
      if s.drops e pair then none else s.floorBreachSince.get? (floorBreachKey pair.1 pair.2) := by
  by_cases hk : floorBreachKey pair.1 pair.2 ∈ s.floorBreachSince.keys
  · -- a stored entry is of a stored apartment, whose id has no bar
    obtain ⟨a, ha, d, hd, hkey⟩ := hs.streaks _ hk
    obtain ⟨hpa, hpd⟩ := floorBreachKey_inj.mp hkey
    obtain ⟨env, value | value⟩ := e
    · rw [StageB.accept_cost, acceptCost_streaks]
      refine if_congr ?_ rfl rfl
      simp only [StageB.drops, hacc, Bool.true_and, beq_iff_eq]
      cases hev : s.evicted value with
      | none => simp
      | some oldest =>
        obtain ⟨-, c, hc, -⟩ := evicted_spec hs.size hev
        have hbar := hs.bars oldest (Dict.mem_keys.mpr ⟨c, hc⟩)
        rw [Option.any_some, startsWith_floorBreachKey (hpa ▸ hs.bars a ha) hbar, Option.some.injEq, eq_comm]
    · rw [StageB.accept_market, acceptMarket_streaks]
      refine if_congr ?_ rfl rfl
      simp only [StageB.drops, hacc, Bool.true_and, List.contains_iff_mem, List.any_eq_true,
        endsWith_floorBreachKey]
      exact ⟨fun ⟨x, hx, he⟩ => he ▸ hx, fun hx => ⟨_, hx, rfl⟩⟩
  · rw [Dict.get?_eq_none.mpr hk, ite_self]
    obtain ⟨env, value | value⟩ := e
    · rw [StageB.accept_cost, acceptCost_streaks, Dict.get?_eq_none.mpr hk, ite_self]
    · rw [StageB.accept_market, acceptMarket_streaks, Dict.get?_eq_none.mpr hk, ite_self]

end

section
variable {s s' : StageB} {history : String × Date → List PriceDecision} (hs : s.Follows history)
  {e : Env × StageBEvent} {os : List PriceDecision} (h : s.step e = .ok (s', os))
include hs h

theorem step_history (pair : String × Date) :
    s'.floorBreachSince.get? (floorBreachKey pair.1 pair.2) = breachStart (noteDecisions s e os history pair) ∧
    ∀ os₁ d os₂, os = os₁ ++ d :: os₂ → Reports (noteDecisions s e os₁ history d.pair) d := by
  have hown := StageB.Own.step hs.own h
  rcases StageB.step_cases h with ⟨hacc, rfl, rfl⟩ | ⟨hacc, streaks, hr, rfl⟩
  · refine ⟨?_, fun os₁ d os₂ he => absurd he (by simp)⟩
    simp only [noteDecisions, StageB.drops, hacc, Bool.false_and, List.filter_nil, List.append_nil]
    exact hs.streaks pair
  · have hkept : ∀ q, (s.accept e).floorBreachSince.get? (floorBreachKey q.1 q.2) =
        breachStart (if s.drops e q then [] else history q) := by
      intro q
      rw [accept_streak hs.aligned hacc, hs.streaks q]
      split <;> rfl
    exact reprice_history (fun job hj => hown _ _ (StageB.mem_jobs.mp hj).2.1) hkept hr pair

theorem step_follows (hbar : e.2.BarFree) : s'.Follows (noteDecisions s e os history) where
  aligned := step_aligned hs.aligned hbar h
  own := StageB.Own.step hs.own h
  streaks pair := (step_history hs h pair).1

theorem step_streak_frame {pair : String × Date} (hdrop : s.drops e pair = false)
    (hnone : ∀ d ∈ os, d.pair ≠ pair) :
    s'.floorBreachSince.get? (floorBreachKey pair.1 pair.2) =
      s.floorBreachSince.get? (floorBreachKey pair.1 pair.2) := by
  have hfilter : os.filter (·.pair == pair) = [] :=
    List.filter_eq_nil_iff.mpr fun d hd => by simpa using hnone d hd
  rw [(step_history hs h pair).1, noteDecisions, hdrop, hfilter, List.append_nil, hs.streaks pair]
  rfl

end

/-! ## Runs -/

theorem run_follows {es : List (Env × StageBEvent)} (hbar : ∀ e ∈ es, e.2.BarFree) {s : StageB}
    {ds : List PriceDecision} (h : run StageB.step {} es = .ok (s, ds)) : s.Follows (sinceDropped es) := by
  refine run_prefix (I := fun p t _ => t.Follows (sinceDropped p)) follows_empty ?_ h
  intro p e q t os t' o hes hr ht hstep
  rw [sinceDropped, observed_concat hr hstep]
  exact step_follows ht hstep (hbar e (hes ▸ by simp))

/-- In every reachable state the stored streaks are those of the histories, and every decision of the next
step reports the streak that it belongs to. -/
theorem streaks_exact {es : List (Env × StageBEvent)} (hbar : ∀ e ∈ es, e.2.BarFree) {s : StageB}
    {ds : List PriceDecision} (h : run StageB.step {} es = .ok (s, ds)) :
    (∀ pair, s.floorBreachSince.get? (floorBreachKey pair.1 pair.2) = breachStart (sinceDropped es pair)) ∧
    ∀ e s' os, s.step e = .ok (s', os) →
      (∀ os₁ d os₂, os = os₁ ++ d :: os₂ → Reports (noteDecisions s e os₁ (sinceDropped es) d.pair) d) ∧
      ∀ pair, s.drops e pair = false → (∀ d ∈ os, d.pair ≠ pair) →
        s'.floorBreachSince.get? (floorBreachKey pair.1 pair.2) =
          s.floorBreachSince.get? (floorBreachKey pair.1 pair.2) := by
  have hs := run_follows hbar h
  refine ⟨hs.streaks, fun e s' os hstep => ⟨?_, fun pair hdrop hnone => ?_⟩⟩
  · exact (step_history hs hstep ("", 0)).2
  · exact step_streak_frame hs hstep hdrop hnone

def dearFlat : List (Env × StageBEvent) :=
  [(envAt 0, .market (cheapMarket (toordinal 1970 3 1) 0)), (envAt 1, .cost (flatCost "a1" 0))]

theorem dearFlat_breach : ∃ s ds, run StageB.step {} dearFlat = .ok (s, ds) ∧
    s.floorBreachSince.get? (floorBreachKey "a1" (toordinal 1970 3 1)) = some (toordinal 1970 1 1) := by
  have hbar : ∀ e ∈ dearFlat, e.2.BarFree := by
    simp [dearFlat, StageBEvent.BarFree, flatCost]
  have hrun : (run StageB.step {} dearFlat).toOption.isSome := by decide +kernel
  obtain ⟨⟨s, ds⟩, h⟩ := Option.isSome_iff_exists.mp hrun
  refine ⟨s, ds, toOption_eq_some.mp h, ?_⟩
  have hstart := (streaks_exact hbar (toOption_eq_some.mp h)).1 ("a1", toordinal 1970 3 1)
  refine hstart.trans ?_
  decide +kernel

end PriceEngine
