import Mathlib.Tactic.IntervalCases
import PriceEngine.SegmentSwitch

/-!
# The strategy version of a decision

Every decision reports the terms of a strategy row that reached Stage A for its
apartment (`Traced`). Which row depends on the input: a payment line is built
with the strategy of the moment, but a booking sends the aggregate held by the
bookings operator again, and a market price reads the one stored in Stage B.
What Stage A builds from step `k` on has the version that has arrived by then
(`BuiltSince`). The two caches have it once such an aggregate has come to them, for
Stage B once it has accepted one in the segment (`Renewed`); then every later input is
priced with it (`Governed`).
-/

namespace PriceEngine

/-! ## Rows that reached Stage A -/

def strategyRows (a : String) (es : List (Env × PipelineEvent)) : List PricingStrategyRow :=
  es.filterMap fun e =>
    match e.2 with
    | .configure b (.apartmentConfig (.strategy row)) => if b = a ∧ row.apartmentId = a then some row else none
    | _ => none

/-- Every aggregate of an apartment carries its id and the terms of one of its rows. -/
def Termed (rows : String → List PricingStrategyRow) (a : String) (o : Origin) : Prop :=
  o.apartmentId = a ∧ ∃ row ∈ rows a, row.terms = o.terms

structure Pipeline.Traced (rows : String → List PricingStrategyRow) (s : Pipeline) : Prop
    extends s.Entered, s.Carries (Termed rows) where
  strategies : ∀ a, ∀ strategy ∈ (s.chains a).costEnrichment.strategies.get? a,
    ∃ row ∈ rows a, row.terms = strategy.terms

theorem Pipeline.Traced.owned {rows : String → List PricingStrategyRow} {s : Pipeline} (hs : s.Traced rows) :
    s.Owned where
  toEntered := hs.toEntered
  messages a m hm := (hs.messages a m hm).1
  latest a latest hl := (hs.latest a latest hl).1
  stored segment a cost hc := (hs.stored segment a cost hc).1

theorem traced_empty (rows : String → List PricingStrategyRow) : ({} : Pipeline).Traced rows where
  toEntered := entered_empty
  toCarries := carries_empty _
  strategies _ _ h := nomatch h

/-- A strategy row is stored under its apartment if its version is new; nothing else changes a strategy. -/
theorem strategies_broadcast (s : CostEnrichment) (row : ApartmentConfigRow) (a : String) :
    (s.processBroadcastElement row).strategies.get? a = s.strategies.get? a ∨
      ∃ r, row = .strategy r ∧ r.apartmentId = a ∧
        (s.processBroadcastElement row).strategies.get? a = some r.toPricingStrategy ∧
        ∀ current ∈ s.strategies.get? a, current.version < r.version := by
  cases row with
  | segment row => exact Or.inl rfl
  | strategy r =>
    by_cases ha : a = r.apartmentId
    · subst ha
      simp only [CostEnrichment.processBroadcastElement]
      cases hg : s.strategies.get? r.apartmentId with
      | none => exact Or.inr ⟨r, rfl, rfl, Dict.get?_put_self .., by intro _ h; cases h⟩
      | some current =>
        by_cases hv : current.version < r.version
        · refine Or.inr ⟨r, rfl, rfl, ?_, ?_⟩
          · simp only [gt_iff_lt, hv, if_true, Dict.get?_put_self]
          · intro _ h; cases h
            exact hv
        · left
          simp only [gt_iff_lt, hv, if_false, hg]
    · left
      simp only [CostEnrichment.processBroadcastElement]
      split
      · split
        · exact Dict.get?_put_ne _ ha _
        · rfl
      · exact Dict.get?_put_ne _ ha _

theorem strategies_mono (s : CostEnrichment) (row : ApartmentConfigRow) {a : String} {v : ℤ}
    (h : ∃ strategy, s.strategies.get? a = some strategy ∧ v ≤ strategy.version) :
    ∃ strategy, (s.processBroadcastElement row).strategies.get? a = some strategy ∧ v ≤ strategy.version := by
  obtain ⟨strategy, hg, hv⟩ := h
  rcases strategies_broadcast s row a with hsame | ⟨r, -, -, hnew, hlt⟩
  · exact ⟨strategy, hsame.trans hg, hv⟩
  · exact ⟨_, hnew, hv.trans (hlt strategy hg).le⟩

section
variable {s s' : Pipeline} {e : Env × PipelineEvent} {os : List Emitted} (h : s.step e = .ok (s', os))
include h

theorem step_traced {rows : String → List PricingStrategyRow} (hs : s.Traced rows)
    (hrows : ∀ a, ∀ row ∈ strategyRows a [e], row ∈ rows a) : s'.Traced rows := by
  obtain ⟨-, hchains, -⟩ := Pipeline.step_cases h
  refine { step_entered h hs.toEntered, step_carries h (fun _ _ hk => hk.1) hs.toCarries ?_ with
    strategies := fun a strategy hg => ?_ }
  · intro a cause line rest he hq cost hc
    obtain ⟨profile, strategy, -, hstr, ho⟩ := costEnrichment_origin cost hc
    have hline : line.apartmentId = a := (hs.lines a (cause, line) (hq ▸ List.mem_cons_self ..)).2
    rw [hline] at ho hstr
    rw [ho]
    exact ⟨rfl, hs.strategies a strategy hstr⟩
  · rw [hchains] at hg
    split at hg
    · rename_i ha
      rcases Chain.react_config with ⟨-, hsame⟩ | ⟨b, row, he, hbroadcast⟩
      · rw [hsame] at hg
        exact hs.strategies a strategy hg
      · rw [hbroadcast] at hg
        rcases strategies_broadcast (s.chains a).costEnrichment row a with hsame | ⟨r, rfl, hr, hnew, -⟩
        · rw [hsame] at hg
          exact hs.strategies a strategy hg
        · rw [hnew] at hg
          rw [← Option.some.inj hg]
          refine ⟨r, hrows a r ?_, rfl⟩
          rw [he] at ha
          have hb : b = a := Option.some.inj ha
          simp [strategyRows, he, hb, hr]
    · exact hs.strategies a strategy hg

end

/-! ## A version that has arrived -/

/-- Version `v` has reached Stage A for apartment `a`, and what entered from step `k` on carries it. -/
structure Governed (a : String) (k : ℕ) (v : ℤ) (s : Pipeline) : Prop where
  strategy : ∃ strategy, (s.chains a).costEnrichment.strategies.get? a = some strategy ∧ v ≤ strategy.version
  messages : ∀ m ∈ (s.chains a).messages, k ≤ m.cause.step → v ≤ m.cost.pricingStrategyVersion

/-- The aggregate that a booking or a market price makes the job price again is of version `v` or later:
the one the bookings operator holds, or the one Stage B has stored for a night it knows. -/
def FindsVersion (a : String) (v : ℤ) (s : Pipeline) (e : Env × PipelineEvent) : Prop :=
  match e.2 with
  | .booking value => value.apartmentId = a →
    ∀ latest ∈ (s.chains a).bookingEnrichment.latestCostAggregate, v ≤ latest.pricingStrategyVersion
  | .market value =>
    (s.segments value.segmentKey).accepts (e.1, .market value) = true →
    ((s.segments value.segmentKey).nightOf value).blended.isSome →
    ∀ cost ∈ (s.segments value.segmentKey).apartments.get? a, v ≤ cost.pricingStrategyVersion
  | _ => True

section
variable {s s' : Pipeline} {e : Env × PipelineEvent} {os : List Emitted} (h : s.step e = .ok (s', os))
  {rows : String → List PricingStrategyRow} (hs : s.Traced rows) {a : String} {k : ℕ} {v : ℤ}
  (hgov : Governed a k v s) (hfinds : FindsVersion a v s e)
include h hs hgov hfinds

theorem step_governed : Governed a k v s' := by
  obtain ⟨-, hchains, -⟩ := Pipeline.step_cases h
  refine ⟨?_, ?_⟩
  · rw [hchains]
    split
    · rcases Chain.react_config with ⟨-, hsame⟩ | ⟨b, row, he, hbroadcast⟩
      · rw [hsame]
        exact hgov.strategy
      · rw [hbroadcast]
        exact strategies_mono _ row hgov.strategy
    · exact hgov.strategy
  · rw [hchains]
    split
    · rename_i ha
      refine Chain.react_messages (P := fun cause _ o => k ≤ cause.step → v ≤ o.terms.version)
        hgov.messages ?_ ?_
      · intro b cause line rest _ hq cost hc _
        obtain ⟨_, strategy, -, hstr, ho⟩ := costEnrichment_origin cost hc
        obtain ⟨known, hknown, hv⟩ := hgov.strategy
        rw [(hs.lines a (cause, line) (hq ▸ List.mem_cons_self ..)).2, hknown] at hstr
        rw [ho, ← Option.some.inj hstr]
        exact hv
      · intro value cost he hl _
        rw [he] at ha
        unfold FindsVersion at hfinds
        rw [he] at hfinds
        exact hfinds (Option.some.inj ha) cost hl
    · exact hgov.messages

theorem step_version : ∀ o ∈ os, k ≤ o.cause.step → o.decision.apartmentId = a →
    v ≤ o.decision.terms.version := by
  intro o ho hk ha
  rcases step_emitted h hs.owned o ho with ⟨m, hm, -, -, hcause, hterms⟩ |
    ⟨value, cost, he, hseg, -, hacc, hb, hc, hterms⟩
  · rw [hterms]
    exact hgov.messages m (ha ▸ hm) (hcause ▸ hk)
  · unfold FindsVersion at hfinds
    rw [he] at hfinds
    rw [hseg] at hacc hb hc
    rw [hterms]
    exact hfinds hacc hb cost (ha ▸ hc)

omit hgov hfinds

theorem step_terms : ∀ o ∈ os, ∃ row ∈ rows o.decision.apartmentId, row.terms = o.decision.terms := by
  intro o ho
  rcases step_emitted h hs.owned o ho with ⟨m, hm, -, -, -, hterms⟩ | ⟨value, cost, -, -, -, -, -, hc, hterms⟩
  · rw [hterms]
    exact (hs.messages _ m hm).2
  · rw [hterms]
    exact (hs.stored _ _ cost hc).2

end

theorem strategy_arrives (s : CostEnrichment) (row : PricingStrategyRow) :
    ∃ strategy, (s.processBroadcastElement (.strategy row)).strategies.get? row.apartmentId = some strategy ∧
      row.version ≤ strategy.version := by
  simp only [CostEnrichment.processBroadcastElement]
  split
  · rename_i current hg
    split
    · exact ⟨_, Dict.get?_put_self .., le_rfl⟩
    · rename_i hle
      exact ⟨current, hg, not_lt.mp hle⟩
  · exact ⟨_, Dict.get?_put_self .., le_rfl⟩

/-! ## Runs -/

theorem strategyRows_subset {a : String} {es es' : List (Env × PipelineEvent)} (h : es ⊆ es') :
    ∀ row ∈ strategyRows a es, row ∈ strategyRows a es' := by
  intro row hrow
  obtain ⟨e, he, hr⟩ := List.mem_filterMap.mp hrow
  exact List.mem_filterMap.mpr ⟨e, h he, hr⟩

theorem run_traced {rows : String → List PricingStrategyRow} {es : List (Env × PipelineEvent)}
    (hrows : ∀ a, ∀ row ∈ strategyRows a es, row ∈ rows a) {s s' : Pipeline} (hs : s.Traced rows)
    {os : List Emitted} (h : run Pipeline.step s es = .ok (s', os)) : s'.Traced rows := by
  refine run_invariant (C := fun _ e => e ∈ es) ?_ hs (along_of_forall (fun _ _ he => he) s) h
  intro t e t' o ht he hstep
  refine step_traced hstep ht fun a row hm => hrows a row (strategyRows_subset ?_ row hm)
  exact List.cons_subset.mpr ⟨he, List.nil_subset _⟩

def strategyDelivery (env : Env) (row : PricingStrategyRow) : Env × PipelineEvent :=
  (env, .configure row.apartmentId (.apartmentConfig (.strategy row)))

theorem delivery_governed {env : Env} {row : PricingStrategyRow} {s s' : Pipeline} {os : List Emitted}
    (h : s.step (strategyDelivery env row) = .ok (s', os)) (hs : s'.Entered) :
    Governed row.apartmentId s'.steps row.version s' := by
  refine ⟨?_, fun m hm hk => absurd (hs.causes _ m hm) (not_lt.mpr hk)⟩
  have hchain : s'.chains row.apartmentId =
      (s.chains row.apartmentId).configure (.apartmentConfig (.strategy row)) := by
    rw [(Pipeline.step_cases h).2.1]
    exact if_pos rfl
  rw [hchain]
  exact strategy_arrives _ row

/-- Where no cached aggregate of an older version is priced, every later input is priced with the version that has
arrived or a later one, and with its terms. -/
theorem governs_of_finds {es₁ es₂ : List (Env × PipelineEvent)} {env : Env}
    {row : PricingStrategyRow} {s s' : Pipeline} {os os' : List Emitted}
    (h₁ : run Pipeline.step {} (es₁ ++ [strategyDelivery env row]) = .ok (s, os))
    (hfinds : Along Pipeline.step (FindsVersion row.apartmentId row.version) s es₂)
    (h₂ : run Pipeline.step s es₂ = .ok (s', os')) :
    ∀ o ∈ os', s.steps ≤ o.cause.step → o.decision.apartmentId = row.apartmentId →
      row.version ≤ o.decision.terms.version ∧
      ∃ r ∈ strategyRows row.apartmentId (es₁ ++ strategyDelivery env row :: es₂),
        r.terms = o.decision.terms := by
  have hbefore : es₁ ++ [strategyDelivery env row] ⊆ es₁ ++ strategyDelivery env row :: es₂ := by simp
  have hafter : ∀ e ∈ es₂, [e] ⊆ es₁ ++ strategyDelivery env row :: es₂ := fun e he => by simp [he]
  generalize hwhole : es₁ ++ strategyDelivery env row :: es₂ = es at hbefore hafter ⊢
  have ht : s.Traced fun a => strategyRows a es :=
    run_traced (fun a => strategyRows_subset hbefore) (traced_empty _) h₁
  have hgov : Governed row.apartmentId s.steps row.version s := by
    obtain ⟨s₀, _, _, -, hdelivery, -⟩ := run_append.mp h₁
    exact delivery_governed (run_singleton.mp hdelivery) ht.toEntered
  refine run_outputs (I := fun t => t.Traced (fun a => strategyRows a es) ∧
      Governed row.apartmentId s.steps row.version t)
    (C := fun t e => FindsVersion row.apartmentId row.version t e ∧ [e] ⊆ es) ?_ ?_ ⟨ht, hgov⟩
    (along_imp (fun t e he hf => ⟨hf, hafter e he⟩) hfinds) h₂
  · intro t e t' o ⟨htr, hg⟩ ⟨hf, he⟩ hstep
    exact ⟨step_traced hstep htr fun a => strategyRows_subset he, step_governed hstep htr hg hf⟩
  · intro t e t' o ⟨htr, hg⟩ ⟨hf, he⟩ hstep d hd hk ha
    exact ⟨step_version hstep htr hg hf d hd hk ha, ha ▸ step_terms hstep htr d hd⟩

/-! ## Aggregates that Stage A has built since -/

/-- Stage A has known version `v` of apartment `a` since step `k`, and what it has built from then on carries it. -/
structure BuiltSince (a : String) (k : ℕ) (v : ℤ) (s : Pipeline) : Prop where
  steps : k ≤ s.steps
  strategy : ∃ strategy, (s.chains a).costEnrichment.strategies.get? a = some strategy ∧ v ≤ strategy.version
  messages : ∀ m ∈ (s.chains a).messages, k ≤ m.born → v ≤ m.cost.pricingStrategyVersion
  latest : ∀ latest ∈ (s.chains a).bookingEnrichment.latestCostAggregate,
    k ≤ (s.chains a).latestBorn → v ≤ latest.pricingStrategyVersion

/-- The aggregates of apartment `a` for the segment, those on their way and the one that the bookings operator holds,
were built from step `k` on, and the one that Stage B has stored carries version `v`. -/
structure Renewed (a : String) (segment : SegmentKey) (k : ℕ) (v : ℤ) (s : Pipeline) : Prop where
  messages : ∀ m ∈ (s.chains a).messages, m.cost.segmentKey = segment → k ≤ m.born
  latest : ∀ latest ∈ (s.chains a).bookingEnrichment.latestCostAggregate,
    latest.segmentKey = segment → k ≤ (s.chains a).latestBorn
  stored : ∀ cost ∈ (s.segments segment).apartments.get? a, v ≤ cost.pricingStrategyVersion

section
variable {s s' : Pipeline} {e : Env × PipelineEvent} {os : List Emitted} (h : s.step e = .ok (s', os))
  {a : String} {segment : SegmentKey} {k : ℕ} {v : ℤ}
include h

theorem step_builtSince (hown : s.Owned) (hs : BuiltSince a k v s) : BuiltSince a k v s' := by
  obtain ⟨hsteps, hchains, -⟩ := Pipeline.step_cases h
  have hknown : ∃ strategy, (s'.chains a).costEnrichment.strategies.get? a = some strategy ∧ v ≤ strategy.version := by
    rw [hchains]
    split
    · rcases Chain.react_config with ⟨-, hsame⟩ | ⟨b, row, -, hbroadcast⟩
      · rw [hsame]
        exact hs.strategy
      · rw [hbroadcast]
        exact strategies_mono _ row hs.strategy
    · exact hs.strategy
  refine ⟨hsteps ▸ hs.steps.trans (Nat.le_succ _), hknown, ?_, ?_⟩
  · rw [hchains]
    split
    · refine Chain.react_messages (P := fun _ born o => k ≤ born → v ≤ o.terms.version) hs.messages ?_ ?_
      · intro b cause line rest _ hq cost hc _
        obtain ⟨_, strategy, -, hstr, ho⟩ := costEnrichment_origin cost hc
        obtain ⟨known, hget, hv⟩ := hs.strategy
        rw [(hown.lines a (cause, line) (hq ▸ List.mem_cons_self ..)).2, hget] at hstr
        rw [ho, ← Option.some.inj hstr]
        exact hv
      · exact fun value cost _ hl => hs.latest cost hl
    · exact hs.messages
  · rw [hchains]
    split
    · exact Chain.react_latest (R := fun born cost => k ≤ born → v ≤ cost.origin.terms.version) hs.latest
        fun m hm => hs.messages m (Chain.mem_toBookingEnrichment hm)
    · exact hs.latest

theorem step_renewed (hown : s.Owned) (hbuilt : BuiltSince a k v s) (hs : Renewed a segment k v s) :
    Renewed a segment k v s' := by
  obtain ⟨-, hchains, hsegments⟩ := Pipeline.step_cases h
  refine ⟨?_, ?_, ?_⟩
  · rw [hchains]
    split
    · refine Chain.react_messages (P := fun _ born o => o.segment = segment → k ≤ born) hs.messages ?_ ?_
      · exact fun _ _ _ _ _ _ _ _ _ => hbuilt.steps
      · exact fun _ cost _ hl => hs.latest cost hl
    · exact hs.messages
  · rw [hchains]
    split
    · exact Chain.react_latest (R := fun born cost => cost.origin.segment = segment → k ≤ born) hs.latest
        fun m hm => hs.messages m (Chain.mem_toBookingEnrichment hm)
    · exact hs.latest
  · rcases hsegments with ⟨-, hsame, -⟩ | ⟨cause, seg, event, b, ds, hin, hstep, hseg, -⟩
    · rw [hsame]
      exact hs.stored
    rw [hseg]
    by_cases hne : segment = seg
    · subst hne
      rw [Function.update_self]
      refine fun cost hget => step_stored (K := fun b cost => b = a → v ≤ cost.pricingStrategyVersion) hstep
        (fun b cost hb hba => hs.stored cost (hba ▸ hb)) (fun value hv hid => ?_) a cost hget rfl
      rcases Pipeline.input_cases hin with ⟨_, -, -, -, rfl⟩ | ⟨c, m, -, hm, hfor, -, rfl⟩
      · cases hv
      · obtain rfl : m.cost = value := StageBEvent.cost.inj hv
        have hc : m.cost.apartmentId = c := hown.messages c m hm
        obtain rfl : c = a := hc.symm.trans hid
        exact hbuilt.messages m hm (hs.messages m hm hfor)
    · rw [Function.update_of_ne hne]
      exact hs.stored

end

theorem Chain.born_mem_borns {c : Chain} {m : Message} (hm : m ∈ c.messages) : m.born ∈ c.borns := by
  simp only [Chain.mem_messages] at hm
  simp only [Chain.borns, List.mem_append, List.mem_map, List.mem_cons]
  rcases hm with hm | hm | hm | hm
  · exact Or.inr (Or.inr ⟨m, hm, rfl⟩)
  · exact Or.inl ⟨m, Or.inr hm, rfl⟩
  · exact Or.inl ⟨m, Or.inl (Or.inr hm), rfl⟩
  · exact Or.inl ⟨m, Or.inl (Or.inl hm), rfl⟩

theorem delivery_builtSince {env : Env} {row : PricingStrategyRow} {s s' : Pipeline} {os : List Emitted}
    (h : s.step (strategyDelivery env row) = .ok (s', os)) (hord : s'.InOrder) :
    BuiltSince row.apartmentId s'.steps row.version s' := by
  have hsteps := (Pipeline.step_cases h).1
  have hpast : ∀ n ∈ (s'.chains row.apartmentId).borns, ¬ s'.steps ≤ n := by
    intro n hn
    have hle := hord.past row.apartmentId n hn
    omega
  refine ⟨le_rfl, ?_, fun m hm hk => absurd hk (hpast _ (Chain.born_mem_borns hm)), fun latest _ hk =>
    absurd hk (hpast _ (List.mem_append_right _ (List.mem_cons_self ..)))⟩
  have hchain : s'.chains row.apartmentId =
      (s.chains row.apartmentId).configure (.apartmentConfig (.strategy row)) := by
    rw [(Pipeline.step_cases h).2.1]
    exact if_pos rfl
  rw [hchain]
  exact strategy_arrives _ row

/-- What is left of a segment's aggregates was built with the one taken or after it. -/
theorem Chain.born_le_of_dropPriced {c : Chain} (h : c.borns.Pairwise (· ≤ ·)) {segment : SegmentKey} {m : Message}
    (hfind : c.toPriceDecision.find? (·.isFor segment) = some m) :
    ∀ m' ∈ (c.dropPriced segment).messages, m'.cost.segmentKey = segment → m.born ≤ m'.born := by
  intro m' hm' hfor
  obtain ⟨hm, before, after, hsplit, hbefore⟩ := List.find?_eq_some_iff_append.mp hfind
  have hbehind := (Chain.behind h (List.mem_of_find?_eq_some hfind)).2
  simp only [List.mem_append] at hbehind
  have hsorted : (c.toPriceDecision.map (·.born)).Pairwise (· ≤ ·) := by
    refine List.Pairwise.sublist ?_ h
    simp only [Chain.borns, List.map_append, List.append_assoc]
    exact List.sublist_append_left _ _
  rcases Chain.mem_messages.mp hm' with hm' | hm' | hm' | hm'
  · exact hbehind m' (.inl (.inl hm'))
  · exact hbehind m' (.inl (.inr hm'))
  · exact hbehind m' (.inr hm')
  · have hdropped : (c.dropPriced segment).toPriceDecision = before ++ after := by
      rw [Chain.dropPriced, hsplit, List.eraseP_append_right _ fun x hx => by simpa using hbefore x hx,
        List.eraseP_cons_of_pos hm]
    rw [hdropped] at hm'
    rcases List.mem_append.mp hm' with hm' | hm'
    · have hnot : m'.isFor segment = false := by simpa using hbefore m' hm'
      rw [Message.isFor, hfor, BEq.rfl] at hnot
      cases hnot
    · rw [hsplit, List.map_append, List.map_cons, List.pairwise_append, List.pairwise_cons] at hsorted
      exact hsorted.2.1.1 m'.born (List.mem_map_of_mem hm')

/-- When Stage B accepts an aggregate that was built since, its cache is renewed. -/
theorem priced_renewed {env : Env} {a : String} {segment : SegmentKey} {k : ℕ} {v : ℤ} {s s' : Pipeline}
    {os : List Emitted} (hown : s.Owned) (hord : s.InOrder) (hbuilt : BuiltSince a k v s) {m : Message}
    (hfind : (s.chains a).toPriceDecision.find? (·.isFor segment) = some m) (hborn : k ≤ m.born)
    (haccepts : (s.segments segment).accepts (env, .cost m.cost) = true)
    (h : s.step (env, .price a segment) = .ok (s', os)) : Renewed a segment k v s' := by
  obtain ⟨-, hchains, hsegments⟩ := Pipeline.step_cases h
  have hmem := Chain.mem_toPriceDecision (List.mem_of_find?_eq_some hfind)
  have hchain : s'.chains a = (s.chains a).dropPriced segment := by
    rw [hchains]
    exact if_pos rfl
  refine ⟨?_, ?_, ?_⟩
  · rw [hchain]
    exact fun m' hm' hfor => hborn.trans (Chain.born_le_of_dropPriced (hord.sorted a) hfind m' hm' hfor)
  · rw [hchain]
    exact fun latest _ _ => hborn.trans (Chain.behind (hord.sorted a) (List.mem_of_find?_eq_some hfind)).1
  · have hinput : s.input (.price a segment) = some (m.cause, segment, .cost m.cost) := by
      simp only [Pipeline.input, hfind, Option.map_some]
    rcases hsegments with ⟨hnone, -⟩ | ⟨cause, seg, event, b, ds, hin, hstep, hseg, -⟩
    · rw [hinput] at hnone
      cases hnone
    rw [hinput, Option.some.injEq, Prod.mk.injEq, Prod.mk.injEq] at hin
    obtain ⟨rfl, rfl, rfl⟩ := hin
    obtain ⟨streaks, -, rfl⟩ := StageB.step_accepted hstep haccepts
    intro cost hget
    have hid : m.cost.apartmentId = a := hown.messages a m hmem
    rw [hseg, Function.update_self, StageB.withStreaks_apartments, StageB.accept_cost, acceptCost_apartments,
      if_pos hid.symm] at hget
    rw [← Option.some.inj hget]
    exact hbuilt.messages m hmem hborn

/-! ## When the caches have caught up -/

/-- Since state `s` Stage B has accepted in the segment an aggregate of the apartment that Stage A built since `s`. -/
def Repriced (a : String) (segment : SegmentKey) (s : Pipeline) (es : List (Env × PipelineEvent)) : Prop :=
  ∃ before env after t os m, es = before ++ (env, .price a segment) :: after ∧
    run Pipeline.step s before = .ok (t, os) ∧
    (t.chains a).toPriceDecision.find? (·.isFor segment) = some m ∧ s.steps ≤ m.born ∧
    (t.segments segment).accepts (env, .cost m.cost) = true

/-- What the input makes the job price again, if anything, was built since state `s`: after the events `es` the
bookings operator holds an aggregate that Stage A built since, or Stage B has accepted one in the market price's
segment. -/
def Refreshed (a : String) (s : Pipeline) (es : List (Env × PipelineEvent)) (t : Pipeline)
    (e : Env × PipelineEvent) : Prop :=
  match e.2 with
  | .booking value => value.apartmentId = a →
    (t.chains a).bookingEnrichment.latestCostAggregate = none ∨ s.steps ≤ (t.chains a).latestBorn
  | .market value =>
    (t.segments value.segmentKey).accepts (e.1, .market value) = true →
    ((t.segments value.segmentKey).nightOf value).blended.isSome →
    (t.segments value.segmentKey).apartments.get? a = none ∨ Repriced a value.segmentKey s es
  | _ => True

section
variable {es : List (Env × PipelineEvent)} {s t : Pipeline} {os : List Emitted} {a : String} {v : ℤ}
  (h : run Pipeline.step s es = .ok (t, os)) (hown : s.Owned) (hord : s.InOrder) (hbuilt : BuiltSince a s.steps v s)
include h hown hord hbuilt

theorem run_builtSince : t.Owned ∧ t.InOrder ∧ BuiltSince a s.steps v t :=
  run_preserves (I := fun t => t.Owned ∧ t.InOrder ∧ BuiltSince a s.steps v t)
    (fun _ _ _ _ hi hstep => ⟨step_owned hstep hi.1, step_inOrder hstep hi.2.1, step_builtSince hstep hi.1 hi.2.2⟩)
    ⟨hown, hord, hbuilt⟩ h

theorem run_renewed {segment : SegmentKey} (hpriced : Repriced a segment s es) : Renewed a segment s.steps v t := by
  obtain ⟨before, env, after, u, ou, m, rfl, hbefore, hfind, hborn, haccepts⟩ := hpriced
  obtain ⟨u', _, _, hbefore', hafter, -⟩ := run_append.mp h
  obtain ⟨rfl, -⟩ := Prod.mk.inj (Except.ok.inj (hbefore.symm.trans hbefore'))
  obtain ⟨w, _, _, hprice, hrest, -⟩ := run_cons.mp hafter
  obtain ⟨hown, hord, hbuilt⟩ := run_builtSince hbefore hown hord hbuilt
  have hrenewed := priced_renewed hown hord hbuilt hfind hborn haccepts hprice
  exact (run_preserves (I := fun t => (t.Owned ∧ BuiltSince a s.steps v t) ∧ Renewed a segment s.steps v t)
    (fun _ _ _ _ hi hstep => ⟨⟨step_owned hstep hi.1.1, step_builtSince hstep hi.1.1 hi.1.2⟩,
      step_renewed hstep hi.1.1 hi.1.2 hi.2⟩)
    ⟨⟨step_owned hprice hown, step_builtSince hprice hown hbuilt⟩, hrenewed⟩ hrest).2

theorem finds_of_refreshed {e : Env × PipelineEvent} (hfresh : Refreshed a s es t e) : FindsVersion a v t e := by
  obtain ⟨-, -, hlatest⟩ := run_builtSince h hown hord hbuilt
  unfold Refreshed at hfresh
  unfold FindsVersion
  split
  · intro ha latest hget
    rename_i value he
    rw [he] at hfresh
    rcases hfresh ha with hnone | hborn
    · rw [hnone] at hget
      cases hget
    · exact hlatest.latest latest hget hborn
  · intro hacc hblended cost hget
    rename_i value he
    rw [he] at hfresh
    rcases hfresh hacc hblended with hnone | hpriced
    · rw [hnone] at hget
      cases hget
    · exact (run_renewed h hown hord hbuilt hpriced).stored cost hget
  · trivial

end

/-- From the moment a strategy version reaches Stage A, every later input that does not make the job price an
aggregate from before that moment is priced with that version or a later one, and with its terms. -/
theorem strategy_governs_fresh_inputs {es₁ es₂ : List (Env × PipelineEvent)} {env : Env}
    {row : PricingStrategyRow} {s s' : Pipeline} {os os' : List Emitted}
    (h₁ : run Pipeline.step {} (es₁ ++ [strategyDelivery env row]) = .ok (s, os))
    (hfresh : ∀ p e q t ot, es₂ = p ++ e :: q → run Pipeline.step s p = .ok (t, ot) →
      Refreshed row.apartmentId s p t e)
    (h₂ : run Pipeline.step s es₂ = .ok (s', os')) :
    ∀ o ∈ os', s.steps ≤ o.cause.step → o.decision.apartmentId = row.apartmentId →
      row.version ≤ o.decision.terms.version ∧
      ∃ r ∈ strategyRows row.apartmentId (es₁ ++ strategyDelivery env row :: es₂),
        r.terms = o.decision.terms := by
  have hown := run_owned owned_empty h₁
  have hord := run_inOrder inOrder_empty h₁
  have hbuilt : BuiltSince row.apartmentId s.steps row.version s := by
    obtain ⟨s₀, _, _, -, hdelivery, -⟩ := run_append.mp h₁
    exact delivery_builtSince (run_singleton.mp hdelivery) hord
  refine governs_of_finds h₁ (along_of_splits fun p e q t ot hsplit hp => ?_) h₂
  exact finds_of_refreshed hp hown hord hbuilt (hfresh p e q t ot hsplit hp)

/-! ## A second version -/

def pricedFlat : List (Env × PipelineEvent) :=
  jobFrom 0 (flatRows ++ [.payment (flatLine "e1" 900 0)] ++ flatFlow gracia)

def secondStrategy : Env × PipelineEvent := strategyDelivery (envAt 20) (flatStrategy 2 (30 / 100))

def strategyNight (collectedAt : Instant) : PipelineEvent :=
  .market (flatMarket none (toordinal 1970 1 21) collectedAt)

/-- A flat with a night that has a price, and then its second strategy version. -/
def revisedFlat : List (Env × PipelineEvent) :=
  jobFrom 0 (flatRows ++ [strategyNight 0, .payment (flatLine "e1" 900 0)] ++ flatFlow gracia) ++ [secondStrategy]

def strategyStay : BookingRow :=
  { bookingId := "b1"
    apartmentId := "a1"
    checkIn := toordinal 2026 9 3
    checkOut := toordinal 2026 9 6
    guests := 2
    status := .confirmed }

/-- The line is priced, then a booking and then a market price enter. -/
def inputsAfterRevision : List (Env × PipelineEvent) :=
  jobFrom 30 (.payment (flatLine "e1" 600 30) :: flatFlow gracia ++
    [.booking strategyStay, .operate "a1" .companyCostEnrichment, .operate "a1" .ownerContractEnrichment,
      .price "a1" gracia, strategyNight 40])

theorem inputsAfterRevision_refreshed {s : Pipeline} {os : List Emitted}
    (h : run Pipeline.step {} revisedFlat = .ok (s, os)) {p q : List (Env × PipelineEvent)}
    {e : Env × PipelineEvent} {t : Pipeline} {ot : List Emitted} (hsplit : inputsAfterRevision = p ++ e :: q)
    (hp : run Pipeline.step s p = .ok (t, ot)) : Refreshed "a1" s p t e := by
  have htake : p = inputsAfterRevision.take p.length := by rw [hsplit, List.take_left]
  have hget : inputsAfterRevision[p.length]? = some e := by simp [hsplit]
  generalize p.length = n at htake hget
  subst htake
  have hn : n < 11 := (List.getElem?_eq_some_iff.mp hget).1
  have hbooking : ((run Pipeline.step {} revisedFlat).toOption.bind fun r =>
      (run Pipeline.step r.1 (inputsAfterRevision.take 6)).toOption.map fun r' =>
        decide (r.1.steps ≤ (r'.1.chains "a1").latestBorn)) = some true := by
    decide +kernel
  have hmarket : ((run Pipeline.step {} revisedFlat).toOption.bind fun r =>
      (run Pipeline.step r.1 (inputsAfterRevision.take 5)).toOption.bind fun r' =>
        ((r'.1.chains "a1").toPriceDecision.find? (·.isFor gracia)).map fun m =>
          decide (r.1.steps ≤ m.born) && (r'.1.segments gracia).accepts (envAt 35, .cost m.cost)) = some true := by
    decide +kernel
  rw [toOption_eq_some.mpr h, Option.bind_some] at hbooking hmarket
  interval_cases n
  case «6» =>
    rw [toOption_eq_some.mpr hp, Option.map_some] at hbooking
    cases hget
    exact fun _ => .inr (of_decide_eq_true (Option.some.inj hbooking))
  case «10» =>
    obtain ⟨⟨u, ou⟩, hu, hm⟩ := ok_of_bind hmarket
    obtain ⟨m, hfind, hm⟩ := Option.map_eq_some_iff.mp hm
    obtain ⟨hborn, haccepts⟩ := Bool.and_eq_true_iff.mp hm
    cases hget
    exact fun _ _ => .inr ⟨inputsAfterRevision.take 5, envAt 35, _, u, ou, m, rfl, hu, hfind,
      of_decide_eq_true hborn, haccepts⟩
  all_goals
    cases hget
    trivial

theorem line_after_strategy :
    ∃ s os s' os', run Pipeline.step {} revisedFlat = .ok (s, os) ∧
      run Pipeline.step s inputsAfterRevision = .ok (s', os') ∧
      os'.map (·.cause.kind) = [.payment, .booking, .market] ∧
      ∀ o ∈ os', s.steps ≤ o.cause.step → o.decision.apartmentId = "a1" → 2 ≤ o.decision.terms.version := by
  have hrun : ((run Pipeline.step {} revisedFlat).toOption.bind fun r =>
      (run Pipeline.step r.1 inputsAfterRevision).toOption.map fun r' => r'.2.map (·.cause.kind)) =
      some [.payment, .booking, .market] := by
    decide +kernel
  obtain ⟨⟨s, os⟩, h₁, h⟩ := ok_of_bind hrun
  obtain ⟨⟨s', os'⟩, h₂, hkinds⟩ := ok_of_map h
  refine ⟨s, os, s', os', h₁, h₂, hkinds, fun o ho hk ha => ?_⟩
  exact (strategy_governs_fresh_inputs h₁
    (fun p e q t ot hsplit hp => inputsAfterRevision_refreshed h₁ hsplit hp) h₂ o ho hk ha).1

/-- A market price that enters after the second version makes Stage B price the aggregate it has stored. -/
theorem market_price_keeps_old_strategy :
    ¬ ∀ es₁ env row es₂ s os s' os',
      run Pipeline.step {} (es₁ ++ [strategyDelivery env row]) = .ok (s, os) →
      run Pipeline.step s es₂ = .ok (s', os') →
      ∀ o ∈ os', s.steps ≤ o.cause.step → o.decision.apartmentId = row.apartmentId →
        row.version ≤ o.decision.terms.version ∧
        ∃ r ∈ strategyRows row.apartmentId (es₁ ++ strategyDelivery env row :: es₂),
          r.terms = o.decision.terms := by
  intro h
  have hrun : ((run Pipeline.step {} (pricedFlat ++ [secondStrategy])).toOption.bind fun r =>
      (run Pipeline.step r.1 (jobFrom 30 [.market (flatMarket none (toordinal 1970 1 21) 30)])).toOption.map
        fun r' => (r.1.steps, r'.2.map fun o => (o.cause.step, o.decision.apartmentId, o.decision.terms.version))) =
      some (13, [(13, "a1", 1)]) := by
    decide +kernel
  obtain ⟨⟨s, os⟩, h₁, h₂⟩ := ok_of_bind hrun
  obtain ⟨⟨s', os'⟩, h₂, hout⟩ := ok_of_map h₂
  obtain ⟨hsteps, hos⟩ := Prod.mk.inj hout
  obtain ⟨o, rfl, ho⟩ := List.map_eq_singleton_iff.mp hos
  simp only [Prod.mk.injEq] at ho
  obtain ⟨hk, ha, hv⟩ := ho
  have hge := (h _ _ _ _ s os s' _ h₁ h₂ o (List.mem_singleton_self o) (hk ▸ hsteps.le) ha).1
  rw [hv] at hge
  exact absurd hge (by decide)

end PriceEngine
