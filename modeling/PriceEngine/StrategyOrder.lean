import Mathlib.Data.Int.ConditionallyCompleteOrder
import Mathlib.Data.List.MinMax
import PriceEngine.Recomputation
import PriceEngine.SegmentSwitch
import PriceEngine.StrategyVersions

/-!
# The order in which strategy versions arrive

Stage A resolves the row of the highest version it has received, whatever the
order and however often a row comes (`Resolves`). So the version at step `n` is
a function of the events before it that never falls (`versionAt`), and an
aggregate carries the version of the step it was built at. Channels keep the
order of those steps, hence `NoOlder`: once an aggregate is stored in a
partition of Stage B, nothing of a lower version is on the way to it.
-/

namespace PriceEngine

/-! ## The resolved strategy -/

/-- Rows of one version are one row, as in a table that is only inserted into. -/
def OneRowPerVersion (rows : List PricingStrategyRow) : Prop :=
  ∀ r ∈ rows, ∀ r' ∈ rows, r.version = r'.version → r = r'

/-- The strategy is that of a row of the highest version, and absent where there is no row. -/
def Resolves (rows : List PricingStrategyRow) : Option PricingStrategy → Prop
  | none => rows = []
  | some strategy => ∃ row ∈ rows, row.toPricingStrategy = strategy ∧ ∀ r ∈ rows, r.version ≤ row.version

theorem Resolves.concat {rows : List PricingStrategyRow} {s : CostEnrichment} {row : PricingStrategyRow}
    (h : Resolves rows (s.strategies.get? row.apartmentId)) :
    Resolves (rows ++ [row])
      ((s.processBroadcastElement (.strategy row)).strategies.get? row.apartmentId) := by
  simp only [CostEnrichment.processBroadcastElement]
  cases hg : s.strategies.get? row.apartmentId with
  | none =>
    rw [hg] at h
    obtain rfl : rows = [] := h
    rw [Dict.get?_put_self]
    exact ⟨row, List.mem_singleton_self row, rfl, fun r hr => (List.mem_singleton.mp hr) ▸ le_rfl⟩
  | some current =>
    rw [hg] at h
    obtain ⟨r₀, hr₀, rfl, hmax⟩ := h
    by_cases hv : r₀.version < row.version
    · simp only [gt_iff_lt, hv, if_true, Dict.get?_put_self]
      refine ⟨row, by simp, rfl, fun r hr => ?_⟩
      rcases List.mem_append.mp hr with hr | hr
      · exact (hmax r hr).trans hv.le
      · exact (List.mem_singleton.mp hr) ▸ le_rfl
    · simp only [gt_iff_lt, hv, if_false, hg]
      refine ⟨r₀, List.mem_append_left _ hr₀, rfl, fun r hr => ?_⟩
      rcases List.mem_append.mp hr with hr | hr
      · exact hmax r hr
      · exact (List.mem_singleton.mp hr) ▸ not_lt.mp hv

theorem resolves_unique {rows rows' : List PricingStrategyRow} (hone : OneRowPerVersion rows)
    (hsame : ∀ row, row ∈ rows' ↔ row ∈ rows) {o o' : Option PricingStrategy} (h : Resolves rows o)
    (h' : Resolves rows' o') : o' = o := by
  cases o with
  | none =>
    obtain rfl : rows = [] := h
    cases o' with
    | none => rfl
    | some _ =>
      obtain ⟨row, hrow, -⟩ := h'
      exact absurd ((hsame row).mp hrow) List.not_mem_nil
  | some strategy =>
    obtain ⟨row, hrow, rfl, hmax⟩ := h
    cases o' with
    | none =>
      obtain rfl : rows' = [] := h'
      exact absurd ((hsame row).mpr hrow) List.not_mem_nil
    | some _ =>
      obtain ⟨row', hrow', rfl, hmax'⟩ := h'
      have hin := (hsame row').mp hrow'
      rw [hone row' hin row hrow (le_antisymm (hmax row' hin) (hmax' row ((hsame row).mpr hrow)))]

theorem strategyRows_append (a : String) (es fs : List (Env × PipelineEvent)) :
    strategyRows a (es ++ fs) = strategyRows a es ++ strategyRows a fs :=
  List.filterMap_append ..

theorem strategies_other {s : CostEnrichment} {row : ApartmentConfigRow} {a : String}
    (h : ∀ r, row = .strategy r → r.apartmentId ≠ a) :
    (s.processBroadcastElement row).strategies.get? a = s.strategies.get? a := by
  rcases strategies_broadcast s row a with hsame | ⟨r, hr, ha, -⟩
  · exact hsame
  · exact absurd ha (h r hr)

theorem step_resolves {s s' : Pipeline} {e : Env × PipelineEvent} {os : List Emitted}
    (h : s.step e = .ok (s', os)) {a : String} {es : List (Env × PipelineEvent)}
    (hs : Resolves (strategyRows a es) ((s.chains a).costEnrichment.strategies.get? a)) :
    Resolves (strategyRows a (es ++ [e])) ((s'.chains a).costEnrichment.strategies.get? a) := by
  obtain ⟨-, hchains, -⟩ := Pipeline.step_cases h
  rw [hchains, strategyRows_append]
  by_cases hrow : ∃ row, e.2 = .configure a (.apartmentConfig (.strategy row)) ∧ row.apartmentId = a
  · obtain ⟨row, he, rfl⟩ := hrow
    have hone : strategyRows row.apartmentId [e] = [row] := by simp [strategyRows, he]
    rw [hone, if_pos (by rw [he]; rfl), he]
    exact hs.concat
  · have hnone : strategyRows a [e] = [] := by
      refine List.filterMap_eq_nil_iff.mpr fun e' he' => ?_
      rw [List.mem_singleton.mp he']
      split
      · rename_i b row hb
        exact if_neg fun hba => hrow ⟨row, by rw [hb, hba.1], hba.2⟩
      · rfl
    rw [hnone, List.append_nil]
    split
    · rename_i ha
      rcases Chain.react_config with ⟨-, hsame⟩ | ⟨b, row, he, hbroadcast⟩
      · rwa [hsame]
      · rw [he] at ha
        obtain rfl : b = a := Option.some.inj ha
        rwa [hbroadcast, strategies_other fun r hr hra => hrow ⟨r, by rw [he, hr], hra⟩]
    · exact hs

theorem run_resolves {es : List (Env × PipelineEvent)} {s : Pipeline} {os : List Emitted}
    (h : run Pipeline.step {} es = .ok (s, os)) (a : String) :
    Resolves (strategyRows a es) ((s.chains a).costEnrichment.strategies.get? a) := by
  refine run_prefix
    (I := fun p t _ => Resolves (strategyRows a p) ((t.chains a).costEnrichment.strategies.get? a)) ?_ ?_ h
  · exact rfl
  · exact fun _ _ _ _ _ _ _ _ _ ht hstep => step_resolves hstep ht

/-! ## Versions and steps -/

/-- The version that Stage A has resolved after `n` events. -/
noncomputable def versionAt (a : String) (es : List (Env × PipelineEvent)) (n : ℕ) : WithBot ℤ :=
  ((strategyRows a (es.take n)).map (·.version)).maximum

theorem versionAt_mono (a : String) (es : List (Env × PipelineEvent)) : Monotone (versionAt a es) := by
  intro n m hnm
  refine List.maximum_mono (List.Sublist.subset ?_)
  exact (((List.take_prefix_take_left hnm).sublist).filterMap _).map _

theorem resolves_version {rows : List PricingStrategyRow} {o : Option PricingStrategy} (h : Resolves rows o) :
    (rows.map (·.version)).maximum = o.map (·.version) := by
  cases o with
  | none =>
    obtain rfl : rows = [] := h
    rfl
  | some strategy =>
    obtain ⟨row, hrow, rfl, hmax⟩ := h
    refine List.maximum_eq_coe_iff.mpr ⟨List.mem_map_of_mem hrow, fun v hv => ?_⟩
    obtain ⟨r, hr, rfl⟩ := List.mem_map.mp hv
    exact hmax r hr

/-- Every aggregate of a chain carries the version of the step it was built at. -/
structure Pipeline.Versioned (V : String → ℕ → WithBot ℤ) (s : Pipeline) : Prop extends s.Owned, s.InOrder where
  built : ∀ a, ∀ m ∈ (s.chains a).messages, (m.cost.pricingStrategyVersion : WithBot ℤ) = V a m.born
  held : ∀ a, ∀ latest ∈ (s.chains a).bookingEnrichment.latestCostAggregate,
    (latest.pricingStrategyVersion : WithBot ℤ) = V a (s.chains a).latestBorn
  now : ∀ a, V a s.steps = ((s.chains a).costEnrichment.strategies.get? a).map (·.version)

theorem versioned_empty (es : List (Env × PipelineEvent)) : ({} : Pipeline).Versioned (versionAt · es) where
  toOwned := owned_empty
  toInOrder := inOrder_empty
  built _ _ h := nomatch h
  held _ _ h := nomatch h
  now _ := rfl

theorem step_versioned {V : String → ℕ → WithBot ℤ} {s s' : Pipeline} {e : Env × PipelineEvent}
    {os : List Emitted} (h : s.step e = .ok (s', os)) (hs : s.Versioned V)
    (hnow : ∀ a, V a s'.steps = ((s'.chains a).costEnrichment.strategies.get? a).map (·.version)) :
    s'.Versioned V := by
  obtain ⟨-, hchains, -⟩ := Pipeline.step_cases h
  refine ⟨step_owned h hs.toOwned, step_inOrder h hs.toInOrder, fun a => ?_, fun a => ?_, hnow⟩
  · rw [hchains]
    split
    · refine Chain.react_messages (P := fun _ born o => (o.terms.version : WithBot ℤ) = V a born)
        (hs.built a) ?_ ?_
      · intro b cause line rest _ hq cost hc
        obtain ⟨_, strategy, -, hstr, ho⟩ := costEnrichment_origin cost hc
        have hline : line.apartmentId = a := (hs.lines a (cause, line) (hq ▸ List.mem_cons_self ..)).2
        rw [hline] at hstr
        rw [hs.now a, hstr, ho]
        rfl
      · exact fun _ latest _ hl => hs.held a latest hl
    · exact hs.built a
  · rw [hchains]
    split
    · exact Chain.react_latest (R := fun born cost => (cost.origin.terms.version : WithBot ℤ) = V a born) (hs.held a)
        fun m hm => hs.built a m (Chain.mem_toBookingEnrichment hm)
    · exact hs.held a

/-! ## What is on the way to a partition -/

/-- What apartment `a` has stored in the partition or on the way to it is of version `w` or later. -/
structure NoOlder (a : String) (segment : SegmentKey) (w : ℤ) (s : Pipeline) : Prop where
  messages : ∀ m ∈ (s.chains a).messages, m.cost.segmentKey = segment → w ≤ m.cost.pricingStrategyVersion
  latest : ∀ latest ∈ (s.chains a).bookingEnrichment.latestCostAggregate,
    latest.segmentKey = segment → w ≤ latest.pricingStrategyVersion
  strategy : ∃ strategy, (s.chains a).costEnrichment.strategies.get? a = some strategy ∧ w ≤ strategy.version

/-- Nothing of a lower version is on the way to a stored aggregate. -/
def Pipeline.Settled (s : Pipeline) : Prop :=
  ∀ segment, (s.segments segment).apartments.All fun a cost => NoOlder a segment cost.pricingStrategyVersion s

section
variable {s s' : Pipeline} {e : Env × PipelineEvent} {os : List Emitted} (h : s.step e = .ok (s', os))
include h

theorem step_noOlder {a : String} {segment : SegmentKey} {w : ℤ} (hown : s.Owned)
    (hs : NoOlder a segment w s) : NoOlder a segment w s' := by
  obtain ⟨-, hchains, -⟩ := Pipeline.step_cases h
  refine ⟨?_, ?_, ?_⟩
  · rw [hchains]
    split
    · refine Chain.react_messages (P := fun _ _ o => o.segment = segment → w ≤ o.terms.version)
        hs.messages ?_ ?_
      · intro b cause line rest _ hq cost hc _
        obtain ⟨_, strategy, -, hstr, ho⟩ := costEnrichment_origin cost hc
        obtain ⟨known, hknown, hv⟩ := hs.strategy
        rw [(hown.lines a (cause, line) (hq ▸ List.mem_cons_self ..)).2, hknown] at hstr
        rw [ho, ← Option.some.inj hstr]
        exact hv
      · exact fun _ latest _ hl => hs.latest latest hl
    · exact hs.messages
  · rw [hchains]
    split
    · exact Chain.react_latest (R := fun _ cost => cost.origin.segment = segment → w ≤ cost.origin.terms.version) hs.latest
        fun m hm => hs.messages m (Chain.mem_toBookingEnrichment hm)
    · exact hs.latest
  · rw [hchains]
    split
    · rcases Chain.react_config with ⟨-, hsame⟩ | ⟨b, row, he, hbroadcast⟩
      · rw [hsame]
        exact hs.strategy
      · rw [hbroadcast]
        exact strategies_mono _ row hs.strategy
    · exact hs.strategy

end

/-- What is left for a partition after its first aggregate was built with that one or after it. -/
theorem Chain.dropPriced_behind {c : Chain} (hsorted : c.borns.Pairwise (· ≤ ·)) {segment : SegmentKey}
    {m : Message} (hm : c.toPriceDecision.find? (·.isFor segment) = some m) :
    ∀ m' ∈ (c.dropPriced segment).messages, m'.cost.segmentKey = segment →
      m' ∈ c.messages ∧ m.born ≤ m'.born := by
  intro m' hm' hseg
  obtain ⟨-, l, r, hq, hl⟩ := List.find?_eq_some_iff_append.mp hm
  have hl : ∀ m' ∈ l, ¬ m'.isFor segment = true := fun m' hm' => by simpa using hl m' hm'
  obtain ⟨-, hbehind⟩ := Chain.behind hsorted (List.mem_of_find?_eq_some hm)
  simp only [Chain.mem_messages, Chain.dropPriced, hq, List.eraseP_append_right _ hl,
    List.eraseP_cons_of_pos (List.find?_some hm), List.mem_append] at hm'
  rcases hm' with hm' | hm' | hm' | hm' | hm'
  · exact ⟨Chain.mem_toBookingEnrichment hm', hbehind m' (by simp [hm'])⟩
  · exact ⟨Chain.mem_toCompanyCostEnrichment hm', hbehind m' (by simp [hm'])⟩
  · exact ⟨Chain.mem_toOwnerContractEnrichment hm', hbehind m' (by simp [hm'])⟩
  · -- what is ahead of the first aggregate for the partition is for other partitions
    exact absurd (beq_iff_eq.mpr hseg) (hl m' hm')
  · refine ⟨Chain.mem_toPriceDecision (by rw [hq]; simp [hm']), ?_⟩
    rw [Chain.borns, hq] at hsorted
    simp only [List.map_append, List.map_cons, List.append_assoc, List.cons_append] at hsorted
    have hrest := (List.pairwise_cons.mp (List.pairwise_append.mp hsorted).2.1).1
    exact hrest _ (List.mem_append_left _ (List.mem_map_of_mem hm'))

/-- The aggregate a partition takes from its channel has nothing of a lower version behind it. -/
theorem price_noOlder {V : String → ℕ → WithBot ℤ} (hV : ∀ a, Monotone (V a)) {s : Pipeline}
    (hs : s.Versioned V) {a : String} {segment : SegmentKey} {m : Message}
    (hm : (s.chains a).toPriceDecision.find? (·.isFor segment) = some m) :
    NoOlder a segment m.cost.pricingStrategyVersion (s.updateChain a (·.dropPriced segment)) := by
  have hmem : m ∈ (s.chains a).toPriceDecision := List.mem_of_find?_eq_some hm
  have hbuilt := hs.built a m (Chain.mem_toPriceDecision hmem)
  have hchain : (s.updateChain a (·.dropPriced segment)).chains a = (s.chains a).dropPriced segment := by
    rw [Pipeline.updateChain_chains, if_pos rfl]
  refine ⟨fun m' hm' hseg => ?_, fun latest hlatest _ => ?_, ?_⟩
  · rw [hchain] at hm'
    obtain ⟨hmessage, hborn⟩ := Chain.dropPriced_behind (hs.sorted a) hm m' hm' hseg
    rw [← WithBot.coe_le_coe, hbuilt, hs.built a m' hmessage]
    exact hV a hborn
  · rw [hchain] at hlatest
    rw [← WithBot.coe_le_coe, hbuilt, hs.held a latest hlatest]
    exact hV a (Chain.behind (hs.sorted a) hmem).1
  · have hborn : m.born ≤ s.steps := (hs.past a m.born (List.mem_append_left _ (List.mem_map_of_mem
      (List.mem_append_left _ (List.mem_append_left _ hmem))))).trans (Nat.sub_le _ _)
    have hle := hV a hborn
    rw [← hbuilt, hs.now a] at hle
    rw [hchain]
    cases hstr : (s.chains a).costEnrichment.strategies.get? a with
    | none =>
      rw [hstr] at hle
      exact absurd hle (WithBot.not_coe_le_bot _)
    | some strategy =>
      rw [hstr] at hle
      exact ⟨strategy, hstr, WithBot.coe_le_coe.mp hle⟩

theorem NoOlder.congr {a : String} {segment : SegmentKey} {w : ℤ} {s t : Pipeline}
    (hchain : t.chains a = s.chains a) (hs : NoOlder a segment w s) : NoOlder a segment w t :=
  ⟨hchain ▸ hs.messages, hchain ▸ hs.latest, hchain ▸ hs.strategy⟩

theorem Pipeline.input_cost {s : Pipeline} {e : PipelineEvent} {cause : Cause} {segment : SegmentKey}
    {value : CostAggregate} (h : s.input e = some (cause, segment, .cost value)) :
    ∃ a m, e = .price a segment ∧ (s.chains a).toPriceDecision.find? (·.isFor segment) = some m ∧
      value = m.cost := by
  cases e with
  | price a segment' =>
    obtain ⟨m, hm, h⟩ := Option.map_eq_some_iff.mp h
    simp only [Prod.mk.injEq, StageBEvent.cost.injEq] at h
    obtain ⟨-, rfl, rfl⟩ := h
    exact ⟨a, m, rfl, hm, rfl⟩
  | market value => cases h
  | _ => cases h

section
variable {V : String → ℕ → WithBot ℤ} {s s' : Pipeline} {e : Env × PipelineEvent} {os : List Emitted}
  (h : s.step e = .ok (s', os)) (hs : s.Versioned V)
include h hs

theorem step_settled (hV : ∀ a, Monotone (V a)) (hset : s.Settled) : s'.Settled := by
  obtain ⟨-, hchains, hsegments⟩ := Pipeline.step_cases h
  have hold : ∀ segment, (s.segments segment).apartments.All fun a cost =>
      NoOlder a segment cost.pricingStrategyVersion s' := fun segment a cost hc =>
    step_noOlder h hs.toOwned (hset segment a cost hc)
  intro segment
  rcases hsegments with ⟨-, hseg, -⟩ | ⟨cause, seg, event, b, ds, hin, hstep, hseg, -⟩
  · rw [hseg]
    exact hold segment
  · rw [hseg]
    by_cases hne : segment = seg
    · subst hne
      rw [Function.update_self]
      refine step_stored hstep (hold segment) fun value hv => ?_
      obtain rfl : event = .cost value := hv
      obtain ⟨a, m, he, hm, rfl⟩ := Pipeline.input_cost hin
      have ha : m.cost.apartmentId = a :=
        hs.messages a m (Chain.mem_toPriceDecision (List.mem_of_find?_eq_some hm))
      rw [ha]
      refine (price_noOlder hV hs hm).congr ?_
      rw [hchains, he, Pipeline.updateChain_chains]
      rfl
    · rw [Function.update_of_ne hne]
      exact hold segment

/-- A decision is of the version that its partition has stored for the apartment after the step. -/
theorem step_stored_version : ∀ o ∈ os, ∃ cost,
    (s'.segments o.segment).apartments.get? o.decision.apartmentId = some cost ∧
      o.decision.terms.version = cost.pricingStrategyVersion := by
  intro o ho
  have howned := (step_owned h hs.toOwned).stored
  obtain ⟨-, -, ⟨-, -, rfl⟩ | ⟨cause, segment, event, b, ds, hin, hstep, hseg, rfl⟩⟩ := Pipeline.step_cases h
  · cases ho
  obtain ⟨d, hd, rfl⟩ := List.mem_map.mp ho
  obtain ⟨hacc, job, hj, i, hp⟩ := step_decision hstep d hd
  obtain ⟨-, hc, -, -⟩ := StageB.mem_jobs.mp hj
  have hb : b.apartments = ((s.segments segment).accept (e.1, event)).apartments := by
    obtain ⟨streaks, -, rfl⟩ := StageB.step_accepted hstep hacc
    rfl
  have hstored : (s'.segments segment).apartments.get? job.apartmentId = some job.cost := by
    rw [hseg, Function.update_self, hb]
    exact hc
  have hown : job.cost.apartmentId = job.apartmentId := howned segment _ _ hstored
  obtain ⟨ha, -, -⟩ := hp.fields
  obtain ⟨_, _, -, hbuild⟩ := hp
  refine ⟨job.cost, ?_, (build_strategy hbuild).1⟩
  change (s'.segments segment).apartments.get? d.apartmentId = some job.cost
  rw [ha, hown]
  exact hstored

theorem step_floor {a : String} {segment : SegmentKey} {w : ℤ} (hno : NoOlder a segment w s)
    (hstored : ∀ cost ∈ (s.segments segment).apartments.get? a, w ≤ cost.pricingStrategyVersion) :
    ∀ cost ∈ (s'.segments segment).apartments.get? a, w ≤ cost.pricingStrategyVersion := by
  obtain ⟨-, -, ⟨-, hseg, -⟩ | ⟨cause, seg, event, b, ds, hin, hstep, hseg, -⟩⟩ := Pipeline.step_cases h
  · rwa [hseg]
  · rw [hseg]
    by_cases hne : segment = seg
    · subst hne
      rw [Function.update_self]
      have hall : b.apartments.All fun a' cost => a' = a → w ≤ cost.pricingStrategyVersion := by
        refine step_stored hstep (fun a' cost hc ha => hstored cost (ha ▸ hc)) fun value hv ha => ?_
        obtain rfl : event = .cost value := hv
        obtain ⟨a', m, -, hm, rfl⟩ := Pipeline.input_cost hin
        have hmem := Chain.mem_toPriceDecision (List.mem_of_find?_eq_some hm)
        have hown : m.cost.apartmentId = a' := hs.messages a' m hmem
        have hfor : m.isFor segment = true := by simpa using List.find?_some hm
        exact hno.messages m (hown.symm.trans ha ▸ hmem) (eq_of_beq hfor)
      exact fun cost hc => hall a cost hc rfl
    · rwa [Function.update_of_ne hne]

end

/-! ## Runs -/

theorem run_versioned {es : List (Env × PipelineEvent)} {s : Pipeline} {os : List Emitted}
    (h : run Pipeline.step {} es = .ok (s, os)) : s.Versioned (versionAt · es) := by
  refine run_prefix (I := fun _ t _ => t.Versioned (versionAt · es)) (versioned_empty es) ?_ h
  intro p e q t os t' o hes hr ht hstep
  refine step_versioned hstep ht fun a => ?_
  have hr' : run Pipeline.step {} (p ++ [e]) = .ok (t', os ++ o) :=
    run_append.mpr ⟨t, os, o, hr, run_singleton.mpr hstep, rfl⟩
  have hsteps : t'.steps = (p ++ [e]).length := (run_steps hr').trans (Nat.zero_add _)
  have htake : es.take t'.steps = p ++ [e] := by
    rw [hsteps, hes, List.append_cons p e q, List.take_left]
  rw [versionAt, htake]
  exact resolves_version (run_resolves hr' a)

def Emitted.isOf (a : String) (segment : SegmentKey) (o : Emitted) : Bool :=
  o.segment == segment && o.decision.apartmentId == a

theorem run_decisions {es : List (Env × PipelineEvent)} {s : Pipeline} {os : List Emitted}
    (h : run Pipeline.step {} es = .ok (s, os)) (a : String) (segment : SegmentKey) :
    (os.filter (·.isOf a segment)).Pairwise fun o o' =>
      o.decision.terms.version ≤ o'.decision.terms.version := by
  let Floor (t : Pipeline) (w : ℤ) : Prop := NoOlder a segment w t ∧
    ∀ cost ∈ (t.segments segment).apartments.get? a, w ≤ cost.pricingStrategyVersion
  suffices hwhole : s.Settled ∧ (∀ o ∈ os.filter (·.isOf a segment), Floor s o.decision.terms.version) ∧
      (os.filter (·.isOf a segment)).Pairwise fun o o' =>
        o.decision.terms.version ≤ o'.decision.terms.version from hwhole.2.2
  refine run_prefix (I := fun _ t out => t.Settled ∧
    (∀ o ∈ out.filter (·.isOf a segment), Floor t o.decision.terms.version) ∧
    (out.filter (·.isOf a segment)).Pairwise fun o o' =>
      o.decision.terms.version ≤ o'.decision.terms.version) ?_ ?_ h
  · exact ⟨fun _ => Dict.all_empty _, fun _ ho => (nomatch ho), List.Pairwise.nil⟩
  intro p e q t out t' o hes hr ⟨hset, hfloor, hsorted⟩ hstep
  have hver : t.Versioned (versionAt · p) := run_versioned hr
  have hset' : t'.Settled := step_settled hstep hver (versionAt_mono · p) hset
  have hold : ∀ d ∈ out.filter (·.isOf a segment), Floor t' d.decision.terms.version := fun d hd =>
    ⟨step_noOlder hstep hver.toOwned (hfloor d hd).1, step_floor hstep hver (hfloor d hd).1 (hfloor d hd).2⟩
  -- all decisions of one step for the apartment are of the version stored after it
  have hnew : ∀ d ∈ o.filter (·.isOf a segment), ∃ cost,
      (t'.segments segment).apartments.get? a = some cost ∧
        d.decision.terms.version = cost.pricingStrategyVersion := by
    intro d hd
    obtain ⟨hmem, hof⟩ := List.mem_filter.mp hd
    simp only [Emitted.isOf, Bool.and_eq_true, beq_iff_eq] at hof
    obtain ⟨rfl, rfl⟩ := hof
    exact step_stored_version hstep hver d hmem
  rw [List.filter_append]
  refine ⟨hset', List.forall_mem_append.mpr ⟨hold, fun d hd => ?_⟩,
    List.pairwise_append.mpr ⟨hsorted, ?_, fun d hd d' hd' => ?_⟩⟩
  · obtain ⟨cost, hcost, hv⟩ := hnew d hd
    rw [hv]
    refine ⟨hset' segment a cost hcost, fun cost' hcost' => ?_⟩
    rw [Option.some.inj (hcost.symm.trans hcost')]
  · refine List.pairwise_of_forall_mem_list fun d hd d' hd' => ?_
    obtain ⟨cost, hcost, hv⟩ := hnew d hd
    obtain ⟨cost', hcost', hv'⟩ := hnew d' hd'
    rw [hv, hv', Option.some.inj (hcost.symm.trans hcost')]
  · obtain ⟨cost, hcost, hv⟩ := hnew d' hd'
    rw [hv]
    exact (hold d hd).2 cost hcost

theorem built_version {V : String → ℕ → WithBot ℤ} {s : Pipeline} (hs : s.Versioned V) (a : String)
    (now : Instant) (e : PipelineEvent) :
    ∀ cost ∈ (s.chains a).built now e, (cost.pricingStrategyVersion : WithBot ℤ) = V a s.steps := by
  intro cost hc
  unfold Chain.built at hc
  split at hc
  · split at hc
    · cases hc
    · rename_i cause line rest hq
      obtain ⟨_, strategy, -, hstr, ho⟩ := costEnrichment_origin cost hc
      have hline : line.apartmentId = a := (hs.lines a (cause, line) (hq ▸ List.mem_cons_self ..)).2
      have hversion : cost.pricingStrategyVersion = strategy.version := congrArg (·.terms.version) ho
      rw [hline] at hstr
      rw [hs.now a, hstr, hversion]
      rfl
  · cases hc

theorem run_built {es : List (Env × PipelineEvent)} {s : Pipeline} {os : List Emitted}
    (h : run Pipeline.step {} es = .ok (s, os)) (a : String) :
    (builtCosts a es).Pairwise fun c c' => c.pricingStrategyVersion ≤ c'.pricingStrategyVersion := by
  let newest (p : List (Env × PipelineEvent)) : WithBot ℤ := ((strategyRows a p).map (·.version)).maximum
  suffices hwhole : (∀ c ∈ builtCosts a es, (c.pricingStrategyVersion : WithBot ℤ) ≤ newest es) ∧
      (builtCosts a es).Pairwise fun c c' => c.pricingStrategyVersion ≤ c'.pricingStrategyVersion from hwhole.2
  refine run_prefix (I := fun p t _ =>
    (∀ c ∈ builtCosts a p, (c.pricingStrategyVersion : WithBot ℤ) ≤ newest p) ∧
    (builtCosts a p).Pairwise fun c c' => c.pricingStrategyVersion ≤ c'.pricingStrategyVersion) ?_ ?_ h
  · exact ⟨fun _ hc => absurd hc List.not_mem_nil, List.Pairwise.nil⟩
  intro p e q t os t' o hes hr ⟨hle, hsorted⟩ hstep
  have hgrow : newest p ≤ newest (p ++ [e]) := by
    refine List.maximum_mono (List.map_subset _ ?_)
    rw [strategyRows_append]
    exact List.subset_append_left _ _
  have hnow : ∀ c ∈ (t.chains a).built (e.1.now 0) e.2, (c.pricingStrategyVersion : WithBot ℤ) = newest p := by
    intro c hc
    have hsteps : t.steps = p.length := (run_steps hr).trans (Nat.zero_add _)
    rw [built_version (run_versioned hr) a _ _ c hc, versionAt, hsteps, List.take_length]
  rw [builtCosts, observed_concat hr hstep]
  unfold noteBuilt
  split
  · refine ⟨List.forall_mem_append.mpr ⟨fun c hc => (hle c hc).trans hgrow, fun c hc => (hnow c hc).le.trans hgrow⟩,
      List.pairwise_append.mpr ⟨hsorted, ?_, fun c hc c' hc' => ?_⟩⟩
    · refine List.pairwise_of_forall_mem_list fun c hc c' hc' => ?_
      exact WithBot.coe_le_coe.mp ((hnow c hc).trans (hnow c' hc').symm).le
    · exact WithBot.coe_le_coe.mp ((hle c hc).trans (hnow c' hc').ge)
  · exact ⟨fun c hc => (hle c hc).trans hgrow, hsorted⟩

/-- The order and the repetition of deliveries leave no trace in the resolved strategy, and no version is
followed by a lower one, at Stage A or in a partition of Stage B. -/
theorem strategy_order_free {es : List (Env × PipelineEvent)}
    (hone : ∀ a, OneRowPerVersion (strategyRows a es)) {s : Pipeline} {os : List Emitted}
    (h : run Pipeline.step {} es = .ok (s, os)) :
    (∀ p q, es = p ++ q → ∀ t ot, run Pipeline.step {} p = .ok (t, ot) → ∀ a,
      Resolves (strategyRows a p) ((t.chains a).costEnrichment.strategies.get? a)) ∧
    (∀ es' s' os', run Pipeline.step {} es' = .ok (s', os') → ∀ a,
      (∀ row, row ∈ strategyRows a es' ↔ row ∈ strategyRows a es) →
      (s'.chains a).costEnrichment.strategies.get? a = (s.chains a).costEnrichment.strategies.get? a) ∧
    ∀ a, ((builtCosts a es).Pairwise fun c c' => c.pricingStrategyVersion ≤ c'.pricingStrategyVersion) ∧
      ∀ segment, (os.filter (·.isOf a segment)).Pairwise fun o o' =>
        o.decision.terms.version ≤ o'.decision.terms.version := by
  refine ⟨fun p _ _ t _ hp a => run_resolves hp a, fun es' s' os' h' a hsame => ?_, fun a => ?_⟩
  · exact resolves_unique (hone a) hsame (run_resolves h a) (run_resolves h' a)
  · exact ⟨run_built h a, run_decisions h a⟩

def shuffledFlat : List (Env × PipelineEvent) :=
  jobFrom 0 (.configure "a1" (.apartmentConfig (.strategy (flatStrategy 2 (30 / 100)))) :: flatRows ++
    [.configure "a1" (.apartmentConfig (.strategy (flatStrategy 2 (30 / 100))))])

theorem shuffledFlat_resolves : ∃ s os, run Pipeline.step {} shuffledFlat = .ok (s, os) ∧
    Resolves (strategyRows "a1" shuffledFlat) ((s.chains "a1").costEnrichment.strategies.get? "a1") := by
  have hrows : ∀ a, OneRowPerVersion (strategyRows a shuffledFlat) := by
    intro a r hr r' hr' hv
    have hmem : ∀ r ∈ strategyRows a shuffledFlat, r = flatStrategy 1 (20 / 100) ∨ r = flatStrategy 2 (30 / 100) := by
      intro r hr
      obtain ⟨e, he, hrow⟩ := List.mem_filterMap.mp hr
      have hin := mem_of_mem_jobFrom he
      split at hrow
      · rename_i b row hb
        rw [hb] at hin
        split at hrow
        · rw [← Option.some.inj hrow]
          have hcases : b = "a1" ∧ row = flatStrategy 2 (30 / 100) ∨ b = "a1" ∧ row = flatStrategy 1 (20 / 100) ∨
              b = "a1" ∧ row = flatStrategy 2 (30 / 100) := by simpa [flatRows] using hin
          tauto
        · cases hrow
      · cases hrow
    rcases hmem r hr with rfl | rfl <;> rcases hmem r' hr' with rfl | rfl
    · rfl
    · exact absurd hv (by decide)
    · exact absurd hv (by decide)
    · rfl
  refine ⟨_, _, rfl, ?_⟩
  exact (strategy_order_free hrows rfl).1 _ [] (List.append_nil _).symm _ _ rfl "a1"

end PriceEngine
