import PriceEngine.PipelineSound

/-!
# What the operators of a chain keep

A property of an apartment's aggregates that the operators behind Stage A keep
holds of all of them, wherever they are, and every decision was built from one
that has it (`step_carried`), if Stage A sends no other.
-/

namespace PriceEngine

/-! ## Properties that the operators keep -/

structure KeptByOperators (P : CostAggregate → Prop) : Prop where
  recompute : ∀ bookings {cost}, P cost → P (recompute bookings cost)
  applyCorrections : ∀ {cost}, P cost → P (applyCorrections cost)
  companyCosts : ∀ (s : CompanyCostEnrichment) {cost}, P cost → P (s.processElement cost)
  ownerContract : ∀ (s : OwnerContractEnrichment) {cost}, P cost → ∀ c ∈ s.processElement cost, P c

theorem Chain.Sends.holds {P : CostAggregate → Prop} (hP : KeptByOperators P) {c : Chain} {step : ℕ} {now : Instant}
    {e : PipelineEvent} {m : Message} (h : c.Sends step now e m) (hmessages : ∀ m ∈ c.messages, P m.cost)
    (hlatest : ∀ latest ∈ c.bookingEnrichment.latestCostAggregate, P latest)
    (hbuilt : ∀ cause line rest, c.toCostEnrichment = (cause, line) :: rest →
      ∀ cost ∈ (c.costEnrichment.processElement now line).2, P cost) : P m.cost := by
  cases h with
  | built a hq hcost => exact hbuilt _ _ _ hq _ hcost
  | recomputed a bookings hm => exact hP.recompute bookings (hmessages _ hm)
  | again value bookings hheld => exact hP.recompute bookings (hlatest _ hheld)
  | allocated a hm => exact hP.companyCosts _ (hP.applyCorrections (hmessages _ hm))
  | charged a hm hcost => exact hP.ownerContract _ (hmessages _ hm) _ hcost

/-- `P a` holds of the aggregates of apartment `a` on their way, held by the bookings operator and stored. -/
structure Pipeline.Carried (P : String → CostAggregate → Prop) (s : Pipeline) : Prop where
  messages : ∀ a, ∀ m ∈ (s.chains a).messages, P a m.cost
  latest : ∀ a, ∀ latest ∈ (s.chains a).bookingEnrichment.latestCostAggregate, P a latest
  stored : ∀ segment, (s.segments segment).apartments.All P

theorem carried_empty (P : String → CostAggregate → Prop) : ({} : Pipeline).Carried P where
  messages _ _ h := nomatch h
  latest _ _ h := nomatch h
  stored _ := Dict.all_empty _

/-- The decision was built from the aggregate. -/
def BuiltFrom (cost : CostAggregate) (d : PriceDecision) : Prop :=
  ∃ decisionId decidedAt night targetDate since since',
    buildPriceDecision decisionId decidedAt cost night targetDate since = .ok (d, since')

section

variable {P : String → CostAggregate → Prop} (hP : ∀ a, KeptByOperators (P a))
  (hown : ∀ a cost, P a cost → cost.apartmentId = a) {s s' : Pipeline} {e : Env × PipelineEvent} {os : List Emitted}
include hown

theorem step_builtFrom {b b' : StageB} {e : Env × StageBEvent} {ds : List PriceDecision} (h : b.step e = .ok (b', ds))
    (hstored : b'.apartments.All P) : ∀ d ∈ ds, ∃ cost, P d.apartmentId cost ∧ BuiltFrom cost d := by
  intro d hd
  obtain ⟨hacc, job, hjob, i, hprices⟩ := step_decision h d hd
  obtain ⟨-, hcost, -, -⟩ := StageB.mem_jobs.mp hjob
  obtain ⟨streaks, -, rfl⟩ := StageB.step_accepted h hacc
  have hholds : P job.apartmentId job.cost := hstored _ _ hcost
  obtain ⟨ha, -, -⟩ := hprices.fields
  obtain ⟨since, since', -, hbuild⟩ := hprices
  rw [ha, hown _ _ hholds]
  exact ⟨job.cost, hholds, _, _, _, _, since, since', hbuild⟩

include hP

/-- A step breaks the property nowhere, and it decides nothing from an aggregate without it. -/
theorem step_carried (h : s.step e = .ok (s', os)) (hs : s.Carried P)
    (hbuilt : ∀ a cause line rest, (s.chains a).toCostEnrichment = (cause, line) :: rest →
      ∀ cost ∈ ((s.chains a).costEnrichment.processElement (e.1.now 0) line).2, P a cost) :
    s'.Carried P ∧ ∀ o ∈ os, ∃ cost, P o.decision.apartmentId cost ∧ BuiltFrom cost o.decision := by
  obtain ⟨-, hchains, hsegments⟩ := Pipeline.step_cases h
  have hmessages : ∀ a, ∀ m ∈ (s'.chains a).messages, P a m.cost := by
    intro a m hm
    rw [hchains] at hm
    split at hm
    · rcases Chain.react_sends m hm with hold | hsent
      · exact hs.messages a m hold
      · exact hsent.holds (hP a) (hs.messages a) (hs.latest a) (hbuilt a)
    · exact hs.messages a m hm
  have hlatest : ∀ a, ∀ latest ∈ (s'.chains a).bookingEnrichment.latestCostAggregate, P a latest := by
    intro a latest hl
    rw [hchains] at hl
    split at hl
    · exact Chain.react_latest (R := fun _ cost => P a cost) (hs.latest a)
        (fun m hm => hs.messages a m (Chain.mem_toBookingEnrichment hm)) latest hl
    · exact hs.latest a latest hl
  rcases hsegments with ⟨-, hseg, rfl⟩ | ⟨cause, seg, event, b, ds, hin, hstep, hseg, rfl⟩
  · exact ⟨⟨hmessages, hlatest, fun segment => hseg ▸ hs.stored segment⟩, fun _ ho => nomatch ho⟩
  · have hb : b.apartments.All P := by
      refine step_stored hstep (hs.stored seg) fun value hv => ?_
      rcases Pipeline.input_cases hin with ⟨_, -, -, -, rfl⟩ | ⟨a, m, -, hm, -, -, rfl⟩
      · cases hv
      · obtain rfl : m.cost = value := StageBEvent.cost.inj hv
        have hholds := hs.messages a m hm
        rw [hown a _ hholds]
        exact hholds
    refine ⟨⟨hmessages, hlatest, fun segment => ?_⟩, fun o ho => ?_⟩
    · rw [hseg]
      by_cases hne : segment = seg
      · rw [hne, Function.update_self]
        exact hb
      · rw [Function.update_of_ne hne]
        exact hs.stored segment
    · obtain ⟨d, hd, rfl⟩ := List.mem_map.mp ho
      exact step_builtFrom hown hstep hb d hd

end

end PriceEngine
