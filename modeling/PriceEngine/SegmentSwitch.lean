import PriceEngine.PipelineSound

/-!
# An apartment that changes segment

Channels keep their order, so between Stage A and Stage B older aggregates are
ahead of newer ones (`Chain.borns`). Once Stage B has priced one that was built
with the apartment's new segment, everything behind it carries that segment
(`Switched`); but the partition of the old segment keeps its own entry of the
apartment and prices it again on every market price it receives.
-/

namespace PriceEngine

/-! ## The order of a chain -/

/-- The steps at which the aggregates of a chain were built, from Stage B back to Stage A. -/
def Chain.borns (c : Chain) : List ℕ :=
  (c.toPriceDecision ++ c.toOwnerContractEnrichment ++ c.toCompanyCostEnrichment).map (·.born) ++
    c.latestBorn :: c.toBookingEnrichment.map (·.born)

section
variable {c : Chain} {step : ℕ} {now : Instant} {e : PipelineEvent}

theorem Chain.react_borns : ∃ l x r, c.borns = l ++ x :: r ∧
    (c.react step now e).borns.Sublist (l ++ x :: x :: r ++ [step]) := by
  have hkeep : ∀ {ns : List ℕ} (l : List ℕ) (x : ℕ) (r : List ℕ), ns.Sublist (l ++ x :: r) →
      ns.Sublist (l ++ x :: x :: r ++ [step]) := fun l x r h =>
    h.trans (((List.sublist_cons_self x (x :: r)).append_left l).trans (List.sublist_append_left _ _))
  have hsame : ∀ ns : List ℕ, ns.Sublist c.borns →
      ∃ l x r, c.borns = l ++ x :: r ∧ ns.Sublist (l ++ x :: x :: r ++ [step]) := fun ns h =>
    ⟨_, _, _, rfl, hkeep _ _ _ h⟩
  have hreacts := c.reacts step now e
  generalize c.react step now e = c' at hreacts
  cases hreacts with
  | configure a row => cases row <;> exact hsame _ (List.Sublist.refl _)
  | booking value bookings =>
    refine ⟨_, c.latestBorn, _, rfl, ?_⟩
    cases c.bookingEnrichment.latestCostAggregate with
    | none => exact hkeep _ _ _ (by simp [Chain.borns])
    | some latest => simp [Chain.borns]
  | costEnrichment a hq =>
    -- Stage A builds one aggregate, or none
    refine ⟨_, c.latestBorn, _, rfl, ?_⟩
    simp only [Chain.borns, CostEnrichment.processElement]
    split
    · exact hkeep _ _ _ (by simp)
    · split
      · simp
      · exact hkeep _ _ _ (by simp)
  | @bookingEnrichment a m rest hq =>
    refine ⟨(c.toPriceDecision ++ c.toOwnerContractEnrichment ++ c.toCompanyCostEnrichment).map (·.born) ++
      [c.latestBorn], m.born, rest.map (·.born), by simp [Chain.borns, hq], ?_⟩
    simp [Chain.borns]
  | companyCostEnrichment a hq => exact hsame _ (by simp [Chain.borns, hq])
  | ownerContractEnrichment a hq =>
    refine hsame _ ?_
    simp only [Chain.borns, hq, OwnerContractEnrichment.processElement]
    split <;> simp
  | price a segment =>
    refine hsame _ ?_
    simp only [Chain.dropPriced, Chain.borns, List.map_append, List.append_assoc]
    exact List.Sublist.append_right (List.eraseP_sublist.map _) _
  | _ => exact hsame _ (List.Sublist.refl _)

theorem pairwise_of_sublist_stutter {ns l r : List ℕ} {x step : ℕ} (h : (l ++ x :: r).Pairwise (· ≤ ·))
    (hp : ∀ n ∈ l ++ x :: r, n ≤ step) (hns : ns.Sublist (l ++ x :: x :: r ++ [step])) :
    ns.Pairwise (· ≤ ·) ∧ ∀ n ∈ ns, n ≤ step := by
  have hstep : ∀ n ∈ l ++ x :: x :: r, n ≤ step := fun n hn => hp n (by simpa using hn)
  have htwice : (l ++ x :: x :: r).Pairwise (· ≤ ·) := by
    simp only [List.pairwise_append, List.pairwise_cons, List.forall_mem_cons] at h ⊢
    exact ⟨h.1, ⟨⟨le_rfl, h.2.1.1⟩, h.2.1⟩, fun n hn => ⟨(h.2.2 n hn).1, h.2.2 n hn⟩⟩
  refine ⟨?_, ?_⟩
  · refine List.Pairwise.sublist hns (List.pairwise_append.mpr ⟨htwice, List.pairwise_singleton _ _, ?_⟩)
    intro n hn n' hn'
    rw [List.mem_singleton.mp hn']
    exact hstep n hn
  · intro n hn
    rcases List.mem_append.mp (hns.subset hn) with hn | hn
    · exact hstep n hn
    · exact (List.mem_singleton.mp hn).le

end

/-- Aggregates are ahead of those built after them; all were built before. -/
structure Pipeline.InOrder (s : Pipeline) : Prop where
  sorted : ∀ a, (s.chains a).borns.Pairwise (· ≤ ·)
  past : ∀ a, ∀ n ∈ (s.chains a).borns, n ≤ s.steps - 1

theorem inOrder_empty : ({} : Pipeline).InOrder where
  sorted _ := List.pairwise_singleton _ _
  past _ _ h := (List.mem_singleton.mp h).le

theorem step_inOrder {s s' : Pipeline} {e : Env × PipelineEvent} {os : List Emitted}
    (h : s.step e = .ok (s', os)) (hs : s.InOrder) : s'.InOrder := by
  obtain ⟨hsteps, hchains, -⟩ := Pipeline.step_cases h
  have hpast : ∀ a, ∀ n ∈ (s.chains a).borns, n ≤ s.steps := fun a n hn =>
    (hs.past a n hn).trans (Nat.sub_le _ _)
  have hboth : ∀ a, (s'.chains a).borns.Pairwise (· ≤ ·) ∧ ∀ n ∈ (s'.chains a).borns, n ≤ s.steps := by
    intro a
    rw [hchains]
    split
    · obtain ⟨l, x, r, hc, hsub⟩ : ∃ l x r, (s.chains a).borns = l ++ x :: r ∧
          ((s.chains a).react s.steps (e.1.now 0) e.2).borns.Sublist (l ++ x :: x :: r ++ [s.steps]) :=
        Chain.react_borns
      exact pairwise_of_sublist_stutter (hc ▸ hs.sorted a) (hc ▸ hpast a) hsub
    · exact ⟨hs.sorted a, hpast a⟩
  refine ⟨fun a => (hboth a).1, fun a n hn => ?_⟩
  rw [hsteps]
  exact (hboth a).2 n hn

/-- Everything behind an aggregate that waits for Stage B was built with it or after it. -/
theorem Chain.behind {c : Chain} (h : c.borns.Pairwise (· ≤ ·)) {m : Message} (hm : m ∈ c.toPriceDecision) :
    m.born ≤ c.latestBorn ∧
      ∀ m' ∈ c.toBookingEnrichment ++ c.toCompanyCostEnrichment ++ c.toOwnerContractEnrichment,
        m.born ≤ m'.born := by
  have hle : ∀ n ∈ (c.toOwnerContractEnrichment ++ c.toCompanyCostEnrichment).map (·.born) ++
      c.latestBorn :: c.toBookingEnrichment.map (·.born), m.born ≤ n := by
    rw [Chain.borns, List.append_assoc, List.map_append, List.append_assoc] at h
    exact fun n hn => (List.pairwise_append.mp h).2.2 m.born (List.mem_map_of_mem hm) n hn
  refine ⟨hle _ (by simp), fun m' hm' => ?_⟩
  simp only [List.mem_append] at hm'
  rcases hm' with (hm' | hm') | hm'
  · exact hle _ (List.mem_append_right _ (List.mem_cons_of_mem _ (List.mem_map_of_mem hm')))
  · exact hle _ (List.mem_append_left _ (List.mem_map_of_mem (List.mem_append_right _ hm')))
  · exact hle _ (List.mem_append_left _ (List.mem_map_of_mem (List.mem_append_left _ hm')))

/-! ## A new segment -/

/-- The step brings Stage A no other segment of the apartment. -/
def KeepsSegment (a : String) (segment : SegmentKey) (e : Env × PipelineEvent) : Prop :=
  ∀ row, e.2 = .configure a (.apartmentConfig (.segment row)) → row.apartmentId = a → row.segmentKey = segment

/-- Stage A knows the segment of apartment `a`, and what it has built from step `k` on carries it. -/
structure Resegmented (a : String) (k : ℕ) (segment : SegmentKey) (s : Pipeline) : Prop where
  profile : ∃ profile, (s.chains a).costEnrichment.segments.get? a = some profile ∧ profile.segmentKey = segment
  messages : ∀ m ∈ (s.chains a).messages, k ≤ m.born → m.cost.segmentKey = segment
  latest : ∀ latest ∈ (s.chains a).bookingEnrichment.latestCostAggregate,
    k ≤ (s.chains a).latestBorn → latest.segmentKey = segment

theorem segments_broadcast (s : CostEnrichment) (row : ApartmentConfigRow) (a : String) :
    (s.processBroadcastElement row).segments.get? a = s.segments.get? a ∨
      ∃ r, row = .segment r ∧ r.apartmentId = a ∧
        (s.processBroadcastElement row).segments.get? a = some r.toPropertyPricingProfile := by
  cases row with
  | segment r =>
    by_cases ha : r.apartmentId = a
    · subst ha
      exact Or.inr ⟨r, rfl, rfl, Dict.get?_put_self ..⟩
    · exact Or.inl (Dict.get?_put_ne _ (Ne.symm ha) _)
  | strategy r =>
    left
    simp only [CostEnrichment.processBroadcastElement]
    split
    · split <;> rfl
    · rfl

section
variable {s s' : Pipeline} {e : Env × PipelineEvent} {os : List Emitted} (h : s.step e = .ok (s', os))
  {a : String} {k : ℕ} {segment : SegmentKey}
include h

theorem step_profile (hkeep : KeepsSegment a segment e)
    (hs : ∃ profile, (s.chains a).costEnrichment.segments.get? a = some profile ∧ profile.segmentKey = segment) :
    ∃ profile, (s'.chains a).costEnrichment.segments.get? a = some profile ∧ profile.segmentKey = segment := by
  obtain ⟨-, hchains, -⟩ := Pipeline.step_cases h
  rw [hchains]
  split
  · rename_i ha
    rcases Chain.react_config with ⟨hsame, -⟩ | ⟨b, row, he, hbroadcast⟩
    · rw [hsame]
      exact hs
    · rw [hbroadcast]
      rw [he] at ha
      obtain rfl : b = a := Option.some.inj ha
      rcases segments_broadcast (s.chains b).costEnrichment row b with hsame | ⟨r, rfl, hr, hnew⟩
      · rw [hsame]
        exact hs
      · exact ⟨_, hnew, hkeep r he hr⟩
  · exact hs

theorem step_resegmented (hown : s.Owned) (hkeep : KeepsSegment a segment e)
    (hs : Resegmented a k segment s) : Resegmented a k segment s' := by
  obtain ⟨-, hchains, -⟩ := Pipeline.step_cases h
  refine ⟨step_profile h hkeep hs.profile, ?_, ?_⟩
  · rw [hchains]
    split
    · refine Chain.react_messages (P := fun _ born o => k ≤ born → o.segment = segment) hs.messages ?_ ?_
      · intro b cause line rest _ hq cost hc _
        obtain ⟨profile, _, hp, -, ho⟩ := costEnrichment_origin cost hc
        obtain ⟨known, hknown, hseg⟩ := hs.profile
        rw [(hown.lines a (cause, line) (hq ▸ List.mem_cons_self ..)).2, hknown] at hp
        rw [ho, ← Option.some.inj hp]
        exact hseg
      · exact fun value cost _ hl hk => hs.latest cost hl hk
    · exact hs.messages
  · rw [hchains]
    split
    · intro latest hl hk
      refine Chain.react_latest (R := fun born cost => k ≤ born → cost.origin.segment = segment) hs.latest ?_ latest hl hk
      exact fun m hm => hs.messages m (Chain.mem_toBookingEnrichment hm)
    · exact hs.latest

end

/-! ## The way to Stage B once the old aggregates have left it -/

/-- Behind the aggregates in `waiting`, the chain of `a` holds what Stage A has built from step `k` on. -/
structure Advanced (a : String) (k : ℕ) (waiting : List Message) (s : Pipeline) : Prop where
  steps : k ≤ s.steps
  latestBorn : k ≤ (s.chains a).latestBorn
  toBookingEnrichment : ∀ m ∈ (s.chains a).toBookingEnrichment, k ≤ m.born
  messages : ∀ m ∈ (s.chains a).messages,
    k ≤ m.born ∨ ∃ w ∈ waiting, w.cause = m.cause ∧ w.cost.origin = m.cost.origin

section
variable {c : Chain} {step : ℕ} {now : Instant} {e : PipelineEvent}

theorem Chain.react_toBookingEnrichment : ∀ m ∈ (c.react step now e).toBookingEnrichment,
    m ∈ c.toBookingEnrichment ∨ m.born = step := by
  intro m hm
  have hreacts := c.reacts step now e
  generalize c.react step now e = c' at hm hreacts
  cases hreacts with
  | configure a row => cases row <;> exact Or.inl hm
  | costEnrichment a hq =>
    rcases List.mem_append.mp hm with hm | hm
    · exact Or.inl hm
    · obtain ⟨cost, -, rfl⟩ := List.mem_map.mp hm
      exact Or.inr rfl
  | bookingEnrichment a hq => exact Or.inl (hq ▸ List.mem_cons_of_mem _ hm)
  | _ => exact Or.inl hm

theorem Chain.react_latestBorn {k : ℕ} (h : k ≤ c.latestBorn)
    (hm : ∀ m ∈ c.toBookingEnrichment, k ≤ m.born) :
    k ≤ (c.react step now e).latestBorn := by
  have hreacts := c.reacts step now e
  generalize c.react step now e = c' at hreacts
  cases hreacts with
  | configure a row => cases row <;> exact h
  | @bookingEnrichment a m rest hq => exact hm m (hq ▸ List.mem_cons_self ..)
  | _ => exact h

end

section
variable {s s' : Pipeline} {e : Env × PipelineEvent} {os : List Emitted} (h : s.step e = .ok (s', os))
  {a : String} {k : ℕ} {segment : SegmentKey} {waiting : List Message}
include h

theorem step_advanced (hs : Advanced a k waiting s) : Advanced a k waiting s' := by
  obtain ⟨hsteps, hchains, -⟩ := Pipeline.step_cases h
  refine ⟨hsteps ▸ hs.steps.trans (Nat.le_succ _), ?_, ?_, ?_⟩
  · rw [hchains]
    split
    · exact Chain.react_latestBorn hs.latestBorn hs.toBookingEnrichment
    · exact hs.latestBorn
  · rw [hchains]
    split
    · intro m hm
      rcases Chain.react_toBookingEnrichment m hm with hm | hb
      · exact hs.toBookingEnrichment m hm
      · exact hb ▸ hs.steps
    · exact hs.toBookingEnrichment
  · rw [hchains]
    split
    · refine Chain.react_messages
        (P := fun cause born o => k ≤ born ∨ ∃ w ∈ waiting, w.cause = cause ∧ w.cost.origin = o)
        hs.messages ?_ ?_
      · exact fun _ _ _ _ _ _ _ _ => Or.inl hs.steps
      · exact fun _ _ _ _ => Or.inl hs.latestBorn
    · exact hs.messages

/-- A decision for the apartment is computed in its segment, or for a market price of the partition, or
from an aggregate in `waiting`. -/
theorem step_routes (hown : s.Owned) (hseg : Resegmented a k segment s)
    (hs : Advanced a k waiting s) : ∀ o ∈ os, o.decision.apartmentId = a →
      o.segment = segment ∨
        (o.cause.kind = .market ∧ ∃ value, e.2 = .market value ∧ value.segmentKey = o.segment) ∨
        ∃ w ∈ waiting, w.cause = o.cause ∧ w.cost.segmentKey = o.segment := by
  intro o ho ha
  rcases step_emitted h hown o ho with ⟨m, hm, -, hfor, hcause, -⟩ | ⟨value, cost, he, hsegment, hcause, -⟩
  · rw [ha] at hm
    rcases hs.messages m hm with hk | ⟨w, hw, hwc, hwo⟩
    · exact Or.inl (hfor.symm.trans (hseg.messages m hm hk))
    · refine Or.inr (Or.inr ⟨w, hw, hwc.trans hcause.symm, ?_⟩)
      rw [← hfor]
      exact congrArg Origin.segment hwo
  · exact Or.inr (Or.inl ⟨by rw [hcause], value, he, hsegment.symm⟩)

end

/-! ## Runs -/

theorem run_inOrder {es : List (Env × PipelineEvent)} {s s' : Pipeline} {os : List Emitted} (hs : s.InOrder)
    (h : run Pipeline.step s es = .ok (s', os)) : s'.InOrder :=
  run_preserves (fun _ _ _ _ hi hstep => step_inOrder hstep hi) hs h

def segmentDelivery (env : Env) (row : ApartmentSegmentRow) : Env × PipelineEvent :=
  (env, .configure row.apartmentId (.apartmentConfig (.segment row)))

/-- After `es₁` the row moves its apartment to another segment (state `s₁`); after `es₂` (state `s₂`)
Stage B prices an aggregate that Stage A has built since. -/
structure Switched (row : ApartmentSegmentRow) (es₁ es₂ : List (Env × PipelineEvent))
    (s₁ s₂ s₃ : Pipeline) : Prop where
  changed : ∃ s₀ os profile, run Pipeline.step {} es₁ = .ok (s₀, os) ∧
    (s₀.chains row.apartmentId).costEnrichment.segments.get? row.apartmentId = some profile ∧
    profile.segmentKey ≠ row.segmentKey
  delivered : ∃ env os, run Pipeline.step {} (es₁ ++ [segmentDelivery env row]) = .ok (s₁, os)
  continued : ∃ os, run Pipeline.step s₁ es₂ = .ok (s₂, os)
  kept : ∀ e ∈ es₂, KeepsSegment row.apartmentId row.segmentKey e
  priced : ∃ env m os, (s₂.chains row.apartmentId).toPriceDecision.find? (·.isFor row.segmentKey) = some m ∧
    s₁.steps ≤ m.born ∧ s₂.step (env, .price row.apartmentId row.segmentKey) = .ok (s₃, os)

section
variable {row : ApartmentSegmentRow} {es₁ es₂ : List (Env × PipelineEvent)} {s₁ s₂ s₃ : Pipeline}
  (h : Switched row es₁ es₂ s₁ s₂ s₃)
include h

theorem Switched.resegmented : Resegmented row.apartmentId s₁.steps row.segmentKey s₁ := by
  obtain ⟨env, os, hdel⟩ := h.delivered
  obtain ⟨s₀, _, _, h₀, hconf, -⟩ := run_append.mp hdel
  rw [run_singleton] at hconf
  have hord := run_inOrder inOrder_empty hdel
  obtain ⟨hsteps, hchains, -⟩ := Pipeline.step_cases hconf
  have hpast : ∀ n ∈ (s₁.chains row.apartmentId).borns, ¬ s₁.steps ≤ n := by
    intro n hn
    have hle := hord.past row.apartmentId n hn
    omega
  refine ⟨?_, fun m hm hk => absurd hk (hpast _ ?_), fun latest _ hk => absurd hk (hpast _ ?_)⟩
  · rw [hchains, if_pos (by rfl)]
    exact ⟨_, Dict.get?_put_self .., rfl⟩
  · simp only [Chain.mem_messages] at hm
    simp only [Chain.borns, List.mem_append, List.mem_map, List.mem_cons]
    rcases hm with hm | hm | hm | hm
    · exact Or.inr (Or.inr ⟨m, hm, rfl⟩)
    · exact Or.inl ⟨m, Or.inr hm, rfl⟩
    · exact Or.inl ⟨m, Or.inl (Or.inr hm), rfl⟩
    · exact Or.inl ⟨m, Or.inl (Or.inl hm), rfl⟩
  · exact List.mem_append_right _ (List.mem_cons_self ..)

/-- When Stage B has priced the new aggregate, all that waits in front of it is older than the row. -/
theorem Switched.settled : s₃.Owned ∧ Resegmented row.apartmentId s₁.steps row.segmentKey s₃ ∧
    Advanced row.apartmentId s₁.steps (s₃.chains row.apartmentId).toPriceDecision s₃ := by
  obtain ⟨_, _, hdel⟩ := h.delivered
  obtain ⟨_, hcont⟩ := h.continued
  obtain ⟨env, m, os, hfind, hborn, hprice⟩ := h.priced
  have hown₁ := run_owned owned_empty hdel
  have hown₂ := run_owned hown₁ hcont
  have hord₂ := run_inOrder (run_inOrder inOrder_empty hdel) hcont
  have hseg₂ : s₂.Owned ∧ Resegmented row.apartmentId s₁.steps row.segmentKey s₂ := by
    refine run_invariant (I := fun t => t.Owned ∧ Resegmented row.apartmentId s₁.steps row.segmentKey t)
      (C := fun _ e => KeepsSegment row.apartmentId row.segmentKey e) ?_
      ⟨hown₁, h.resegmented⟩ (along_of_forall (fun _ => h.kept) s₁) hcont
    exact fun s e s' o hs hkeep hstep =>
      ⟨step_owned hstep hs.1, step_resegmented hstep hs.1 hkeep hs.2⟩
  have hkeep : KeepsSegment row.apartmentId row.segmentKey
      (env, .price row.apartmentId row.segmentKey) := fun _ he => nomatch he
  refine ⟨step_owned hprice hown₂, step_resegmented hprice hown₂ hkeep hseg₂.2, ?_⟩
  obtain ⟨hsteps, hchains, -⟩ := Pipeline.step_cases hprice
  have hchain : s₃.chains row.apartmentId = (s₂.chains row.apartmentId).dropPriced row.segmentKey := by
    rw [hchains]
    exact if_pos rfl
  obtain ⟨hlatest, hbehind⟩ := Chain.behind (hord₂.sorted row.apartmentId) (List.mem_of_find?_eq_some hfind)
  have hle : s₁.steps ≤ s₃.steps := by
    rw [hsteps, run_steps hcont]
    omega
  rw [hchain]
  refine ⟨hle, ?_, ?_, ?_⟩ <;> rw [hchain]
  · exact hborn.trans hlatest
  · exact fun m' hm' => hborn.trans (hbehind m' (List.mem_append_left _ (List.mem_append_left _ hm')))
  · intro m' hm'
    rcases List.mem_append.mp hm' with hm' | hm'
    · exact Or.inl (hborn.trans (hbehind m' hm'))
    · exact Or.inr ⟨m', hm', rfl, rfl⟩

/-- From then on a decision for the apartment is computed in its new segment, or for a market price of
the partition that computes it, or from an aggregate that already waited in front of that partition. -/
theorem costs_follow_segment {es : List (Env × PipelineEvent)} {s : Pipeline} {os : List Emitted}
    (hkeep : ∀ e ∈ es, KeepsSegment row.apartmentId row.segmentKey e)
    (hrun : run Pipeline.step s₃ es = .ok (s, os)) :
    ∀ o ∈ os, o.decision.apartmentId = row.apartmentId →
      o.segment = row.segmentKey ∨
      (o.cause.kind = .market ∧ ∃ e ∈ es, ∃ value, e.2 = .market value ∧ value.segmentKey = o.segment) ∨
      ∃ w ∈ (s₃.chains row.apartmentId).toPriceDecision, w.cause = o.cause ∧ w.cost.segmentKey = o.segment := by
  refine run_outputs (I := fun t => t.Owned ∧ Resegmented row.apartmentId s₁.steps row.segmentKey t ∧
      Advanced row.apartmentId s₁.steps (s₃.chains row.apartmentId).toPriceDecision t)
    (C := fun _ e => e ∈ es ∧ KeepsSegment row.apartmentId row.segmentKey e) ?_ ?_ h.settled
    (along_of_forall (fun _ e he => ⟨he, hkeep e he⟩) s₃) hrun
  · exact fun t e t' o ⟨hown, hseg, hadv⟩ ⟨_, hk⟩ hstep =>
      ⟨step_owned hstep hown, step_resegmented hstep hown hk hseg, step_advanced hstep hadv⟩
  · intro t e t' o ⟨hown, hseg, hadv⟩ ⟨he, _⟩ hstep d hd ha
    rcases step_routes hstep hown hseg hadv d hd ha with hnew | ⟨hkind, value, hv, hfor⟩ | hwait
    · exact Or.inl hnew
    · exact Or.inr (Or.inl ⟨hkind, e, he, value, hv, hfor⟩)
    · exact Or.inr (Or.inr hwait)

end

/-! ## From Gracia to Eixample -/

def inGracia : List (Env × PipelineEvent) :=
  jobFrom 0 (flatRows ++ [.market (flatMarket none (toordinal 1970 1 21) 0), .payment (flatLine "e1" 900 0)] ++
    flatOperators)

def toEixample : Env × PipelineEvent := segmentDelivery (envAt 20) (flatSegment "Eixample")

def nextLine : List (Env × PipelineEvent) := jobFrom 30 (.payment (flatLine "e2" 300 30) :: flatOperators)

def priceEixample : Env × PipelineEvent := (envAt 40, .price "a1" (flatSegment "Eixample").segmentKey)

def graciaAgain : List (Env × PipelineEvent) :=
  jobFrom 50 [.price "a1" gracia, .market (flatMarket none (toordinal 1970 1 21) 50)]

/-- The run goes through: the flat is moved, Stage B prices it in Eixample, and Gracia emits two more
decisions for it, one for the costs that waited there and one for the market price. -/
theorem flat_switch_run : ∃ s₁ s₂ s₃ s₄ os₄,
    Switched (flatSegment "Eixample") inGracia nextLine s₁ s₂ s₃ ∧
    (∀ e ∈ graciaAgain, KeepsSegment "a1" (flatSegment "Eixample").segmentKey e) ∧
    run Pipeline.step s₃ graciaAgain = .ok (s₄, os₄) ∧
    os₄.map (fun o => (o.decision.apartmentId, o.cause.kind)) = [("a1", .payment), ("a1", .market)] ∧
    ∀ o ∈ os₄, o.segment = gracia := by
  have hrun : ((run Pipeline.step {} inGracia).toOption.bind fun r₀ =>
      (run Pipeline.step {} (inGracia ++ [toEixample])).toOption.bind fun r₁ =>
      (run Pipeline.step r₁.1 nextLine).toOption.bind fun r₂ =>
      (r₂.1.step priceEixample).toOption.bind fun r₃ =>
      (run Pipeline.step r₃.1 graciaAgain).toOption.map fun r₄ => decide (
        ((r₀.1.chains "a1").costEnrichment.segments.get? "a1").map (·.segmentKey) = some gracia ∧
        ((r₂.1.chains "a1").toPriceDecision.find? (·.isFor (flatSegment "Eixample").segmentKey)).map (·.born) =
          some (r₁.1.steps + 1) ∧
        r₄.2.map (fun o => (o.decision.apartmentId, o.cause.kind)) = [("a1", .payment), ("a1", .market)] ∧
        ∀ o ∈ r₄.2, o.segment = gracia)) = some true := by
    decide +kernel
  obtain ⟨⟨s₀, os₀⟩, h₀, hrun⟩ := ok_of_bind hrun
  obtain ⟨⟨s₁, os₁⟩, h₁, hrun⟩ := ok_of_bind hrun
  obtain ⟨⟨s₂, os₂⟩, h₂, hrun⟩ := ok_of_bind hrun
  obtain ⟨⟨s₃, os₃⟩, h₃, hrun⟩ := ok_of_bind hrun
  obtain ⟨⟨s₄, os₄⟩, h₄, hrun⟩ := ok_of_map hrun
  obtain ⟨hprofile, hfind, hout, hgracia⟩ := of_decide_eq_true hrun
  obtain ⟨profile, hp, hseg⟩ := Option.map_eq_some_iff.mp hprofile
  obtain ⟨m, hm, hborn⟩ := Option.map_eq_some_iff.mp hfind
  have hkeep : ∀ events : List PipelineEvent, (∀ event ∈ events, ∀ a row, event ≠ .configure a row) →
      ∀ start, ∀ e ∈ jobFrom start events, KeepsSegment "a1" (flatSegment "Eixample").segmentKey e := by
    intro events hevents start e he row hrow
    exact absurd hrow (hevents _ (mem_of_mem_jobFrom he) _ _)
  refine ⟨s₁, s₂, s₃, s₄, os₄, ?_, hkeep _ (by simp) _, h₄, hout, hgracia⟩
  exact
    { changed := ⟨s₀, os₀, profile, h₀, hp, hseg ▸ by decide⟩
      delivered := ⟨envAt 20, os₁, h₁⟩
      continued := ⟨os₂, h₂⟩
      kept := hkeep _ (by simp [flatOperators]) _
      priced := ⟨envAt 40, m, os₃, hm, hborn ▸ Nat.le_succ _, h₃⟩ }

theorem flat_costs_follow_segment : ∃ s₃ s₄ os, run Pipeline.step s₃ graciaAgain = .ok (s₄, os) ∧
    ∀ o ∈ os, o.decision.apartmentId = "a1" →
      o.segment = (flatSegment "Eixample").segmentKey ∨
      (o.cause.kind = .market ∧ ∃ e ∈ graciaAgain, ∃ value, e.2 = .market value ∧ value.segmentKey = o.segment) ∨
      ∃ w ∈ (s₃.chains "a1").toPriceDecision, w.cause = o.cause ∧ w.cost.segmentKey = o.segment := by
  obtain ⟨s₁, s₂, s₃, s₄, os, hswitch, hkeep, hrun, -⟩ := flat_switch_run
  exact ⟨s₃, s₄, os, hrun, costs_follow_segment hswitch hkeep hrun⟩

/-- After the switch, no input of this kind has the apartment priced outside its new segment. -/
def PricesNewSegmentOnly (kind : InputKind) : Prop :=
  ∀ row es₁ es₂ s₁ s₂ s₃, Switched row es₁ es₂ s₁ s₂ s₃ →
    ∀ es s os, (∀ e ∈ es, KeepsSegment row.apartmentId row.segmentKey e) →
      run Pipeline.step s₃ es = .ok (s, os) →
      ∀ o ∈ os, o.decision.apartmentId = row.apartmentId → o.cause.kind = kind → o.segment = row.segmentKey

/-- Neither a market price of the old segment nor costs that waited in front of it are held back. -/
theorem old_segment_prices_again : ¬ PricesNewSegmentOnly .market ∧ ¬ PricesNewSegmentOnly .payment := by
  obtain ⟨s₁, s₂, s₃, s₄, os, hswitch, hkeep, hrun, hout, hgracia⟩ := flat_switch_run
  have hnot : ∀ kind, ("a1", kind) ∈ os.map (fun o => (o.decision.apartmentId, o.cause.kind)) →
      ¬ PricesNewSegmentOnly kind := by
    intro kind hk h
    obtain ⟨o, ho, heq⟩ := List.mem_map.mp hk
    obtain ⟨ha, rfl⟩ := Prod.mk.inj heq
    have hnew := h _ _ _ _ _ _ hswitch _ _ _ hkeep hrun o ho ha rfl
    rw [hgracia o ho] at hnew
    exact absurd hnew (by decide)
  exact ⟨hnot _ (by rw [hout]; simp), hnot _ (by rw [hout]; simp)⟩

end PriceEngine
