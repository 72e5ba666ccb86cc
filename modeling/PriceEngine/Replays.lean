import PriceEngine.PipelineSound
import PriceEngine.Retention

/-!
# Lines delivered again

Stage A stamps every aggregate with its own clock, so the staleness guard of
Stage B cannot tell an aggregate built from an old version of a line. A line
delivered again leaves no trace only where the apartment's aggregates get
nowhere (`Chain.Mute`) and the retained lines stay as they are (`Redundant`).
On runs that deliver no other lines again, two runs agree: the one with the
lines and the one without them (`Pipeline.Agrees`).
-/

namespace PriceEngine

/-! ## Versions of a line -/

def paymentsOf (es : List (Env × PipelineEvent)) : List PaymentLine :=
  es.filterMap fun e =>
    match e.2 with
    | .payment value => some value
    | _ => none

def PaymentLine.versionAt (value : PaymentLine) : Instant := value.updatedAt.getD value.createdAt

/-- `es₁` delivers the versions of every line in order; `es₂` delivers superseded ones again, under the
same configuration. -/
structure Replays (es₁ es₂ : List (Env × PipelineEvent)) : Prop where
  inOrder : (paymentsOf es₁).Pairwise fun v w => v.eventId = w.eventId → v.versionAt < w.versionAt
  superseded : ∀ v ∈ paymentsOf es₂, v ∈ paymentsOf es₁ ∧
    ∃ w ∈ paymentsOf es₁, w.eventId = v.eventId ∧ v.versionAt < w.versionAt
  fixed : ∀ e ∈ es₂, ∀ a row, e.2 ≠ .configure a row

def PipelineEvent.isPayment : PipelineEvent → Bool
  | .payment _ => true
  | _ => false

def withoutPayments (es : List (Env × PipelineEvent)) : List (Env × PipelineEvent) :=
  es.filter fun e => !e.2.isPayment

def SameDecisions (os ps : List Emitted) : Prop :=
  ps.map (fun o => (o.segment, o.decision)) = os.map fun o => (o.segment, o.decision)

/-- The payment lines of `es` change nothing: the retained lines, Stage B and the decisions are those of
the run without them. -/
def PaymentsChangeNothing (s : Pipeline) (es : List (Env × PipelineEvent)) : Prop :=
  ∀ s' os, run Pipeline.step s es = .ok (s', os) →
    ∃ t ot, run Pipeline.step s (withoutPayments es) = .ok (t, ot) ∧
      (∀ a, (t.chains a).costEnrichment.costLines = (s'.chains a).costEnrichment.costLines) ∧
      t.segments = s'.segments ∧ SameDecisions os ot

/-! ## Lines that leave no trace -/

/-- Stage A0 drops the line: it lacks the cost definition or its allocation rule. -/
def CostDefinitionResolution.Unresolved (s : CostDefinitionResolution) (value : PaymentLine) : Prop :=
  s.definitions.get? value.costDefinitionId = none ∨ s.allocations.get? value.costDefinitionId = none

def Chain.Closed (a : String) (c : Chain) : Prop :=
  (c.ownerContractEnrichment.ownerContracts.get? a).bind
    (fun assignment => c.ownerContractEnrichment.costDefinitions.get? assignment.costDefinitionId) = none

/-- No aggregate that Stage A builds now for the apartment gets through to Stage B. -/
def Chain.Mute (a : String) (c : Chain) : Prop :=
  c.costEnrichment.segments.get? a = none ∨ c.costEnrichment.strategies.get? a = none ∨ c.Closed a

/-- A line that enters is not resolved or its chain is mute; a line that entered from step `k` on and now
reaches Stage A is redundant there. -/
def LeavesNoTrace (k : ℕ) (s : Pipeline) (e : Env × PipelineEvent) : Prop :=
  match e.2 with
  | .payment value =>
    (s.chains value.apartmentId).resolution.Unresolved value ∨
      (s.chains value.apartmentId).Mute value.apartmentId
  | .operate a .costEnrichment => ∀ cause line rest, (s.chains a).toCostEnrichment = (cause, line) :: rest →
    k ≤ cause.step → Redundant (s.chains a).costEnrichment.costLines line
  | _ => True

theorem resolution_unresolved {s : CostDefinitionResolution} {value : PaymentLine} (h : s.Unresolved value) :
    s.processElement value = [] := by
  unfold CostDefinitionResolution.processElement
  split
  · rename_i hd ha
    rcases h with h | h
    · rw [h] at hd
      cases hd
    · rw [h] at ha
      cases ha
  · rfl

theorem costEnrichment_mute {s : CostEnrichment} {now : Instant} {line : EnrichedPaymentLine}
    (h : s.segments.get? line.apartmentId = none ∨ s.strategies.get? line.apartmentId = none) :
    (s.processElement now line).2 = [] := by
  simp only [CostEnrichment.processElement]
  split
  · rfl
  · split
    · rename_i hp hs
      rcases h with h | h
      · rw [h] at hp
        cases hp
      · rw [h] at hs
        cases hs
    · rfl

theorem ownerContract_closed {c : Chain} {cost : CostAggregate} (h : c.Closed cost.apartmentId) :
    c.ownerContractEnrichment.processElement cost = [] := by
  unfold OwnerContractEnrichment.processElement
  rw [show (c.ownerContractEnrichment.ownerContracts.get? cost.apartmentId).bind _ = none from h]

theorem costEnrichment_redundant {s : CostEnrichment} {now : Instant} {line : EnrichedPaymentLine}
    (hs : Retained s.costLines) (h : Redundant s.costLines line) : (s.processElement now line).1 = s := by
  change { s with costLines := retainLine s.costLines line } = s
  rw [retainLine_eq_self hs h]

/-! ## Two chains that agree -/

structure Chain.AgreesWithin (c c' : Chain) : Prop where
  bookingEnrichment : c.bookingEnrichment = c'.bookingEnrichment
  toBookingEnrichment : c.toBookingEnrichment.map (·.cost) = c'.toBookingEnrichment.map (·.cost)
  toCompanyCostEnrichment : c.toCompanyCostEnrichment.map (·.cost) = c'.toCompanyCostEnrichment.map (·.cost)
  toOwnerContractEnrichment :
    c.toOwnerContractEnrichment.map (·.cost) = c'.toOwnerContractEnrichment.map (·.cost)

/-- `c` is the chain of apartment `a` with lines from step `k` on, `c'` the one without them. -/
structure Chain.Agrees (a : String) (k : ℕ) (c c' : Chain) : Prop where
  resolution : c.resolution = c'.resolution
  costEnrichment : c.costEnrichment = c'.costEnrichment
  companyCostEnrichment : c.companyCostEnrichment = c'.companyCostEnrichment
  ownerContractEnrichment : c.ownerContractEnrichment = c'.ownerContractEnrichment
  lines : ∃ again, c.toCostEnrichment = c'.toCostEnrichment ++ again ∧
    ∀ m ∈ again, k ≤ m.1.step ∧ c.Mute a
  toPriceDecision : c.toPriceDecision.map (·.cost) = c'.toPriceDecision.map (·.cost)
  within : c.Closed a ∨ c.AgreesWithin c'

theorem Chain.agrees_refl (a : String) (k : ℕ) (c : Chain) : c.Agrees a k c where
  resolution := rfl
  costEnrichment := rfl
  companyCostEnrichment := rfl
  ownerContractEnrichment := rfl
  lines := ⟨[], (List.append_nil _).symm, fun _ h => nomatch h⟩
  toPriceDecision := rfl
  within := Or.inr ⟨rfl, rfl, rfl, rfl⟩

section
variable {a : String} {k : ℕ} {c c' : Chain} (h : c.Agrees a k c') {step step' : ℕ} {now : Instant}
include h

theorem agrees_payment {cause : Cause} {value : PaymentLine} (hk : k ≤ cause.step)
    (hline : c.resolution.Unresolved value ∨ c.Mute a) : (c.payment cause value).Agrees a k c' := by
  obtain ⟨again, hq, hagain⟩ := h.lines
  refine { h with
    lines := ⟨again ++ (c.resolution.processElement value).map fun line => (cause, line), ?_, ?_⟩
    within := h.within.imp id fun hb => { hb with } }
  · simp only [Chain.payment, hq, List.append_assoc]
  · intro m hm
    rcases List.mem_append.mp hm with hm | hm
    · exact hagain m hm
    · obtain ⟨line, hl, rfl⟩ := List.mem_map.mp hm
      refine ⟨hk, hline.resolve_left fun hnone => ?_⟩
      rw [resolution_unresolved hnone] at hl
      cases hl

theorem agrees_booking {cause cause' : Cause} {value : BookingRow} :
    (c.booking cause value).Agrees a k (c'.booking cause' value) where
  resolution := h.resolution
  costEnrichment := h.costEnrichment
  companyCostEnrichment := h.companyCostEnrichment
  ownerContractEnrichment := h.ownerContractEnrichment
  lines := h.lines
  toPriceDecision := h.toPriceDecision
  within := by
    refine h.within.imp id fun hb => ⟨?_, hb.toBookingEnrichment, ?_, hb.toOwnerContractEnrichment⟩
    · simp only [Chain.booking, hb.bookingEnrichment]
    · simp [Chain.booking, hb.bookingEnrichment, hb.toCompanyCostEnrichment, Function.comp_def]

theorem agrees_dropPriced {segment : SegmentKey} :
    (c.dropPriced segment).Agrees a k (c'.dropPriced segment) := by
  refine { h with toPriceDecision := ?_, lines := h.lines, within := h.within.imp id fun hb => { hb with } }
  have hdrop : ∀ q : List Message, (q.eraseP (·.isFor segment)).map (·.cost) =
      (q.map (·.cost)).eraseP (·.segmentKey == segment) := fun q => by
    rw [List.eraseP_map]
    rfl
  simp only [Chain.dropPriced, hdrop, h.toPriceDecision]

/-- The line of the first chain is one of both, or one that leaves no trace. -/
theorem agrees_operateCosts (hs : Retained c.costEnrichment.costLines)
    (hown : ∀ m ∈ c.toCostEnrichment, m.2.apartmentId = a)
    (htrace : ∀ cause line rest, c.toCostEnrichment = (cause, line) :: rest → k ≤ cause.step →
      Redundant c.costEnrichment.costLines line) :
    (c.operate step now .costEnrichment).Agrees a k (c'.operate step' now .costEnrichment) := by
  obtain ⟨again, hq, hagain⟩ := h.lines
  cases hq' : c'.toCostEnrichment with
  | cons m rest =>
    obtain ⟨cause, line⟩ := m
    rw [hq', List.cons_append] at hq
    simp only [Chain.operate, hq, hq']
    refine { h with
      costEnrichment := by rw [h.costEnrichment]
      lines := ⟨again, rfl, hagain⟩
      within := h.within.imp id fun hb => { hb with toBookingEnrichment := ?_ } }
    simp [hb.toBookingEnrichment, h.costEnrichment, Function.comp_def]
  | nil =>
    rw [hq', List.nil_append] at hq
    cases hagain' : again with
    | nil =>
      rw [hagain'] at hq
      simp only [Chain.operate, hq, hq']
      exact h
    | cons m rest =>
      obtain ⟨cause, line⟩ := m
      rw [hagain'] at hq hagain
      obtain ⟨hk, hmute⟩ := hagain _ (List.mem_cons_self ..)
      have hline : line.apartmentId = a := hown (cause, line) (hq ▸ List.mem_cons_self ..)
      have hsame : (c.costEnrichment.processElement now line).1 = c.costEnrichment :=
        costEnrichment_redundant hs (htrace cause line rest hq hk)
      simp only [Chain.operate, hq, hq', hsame]
      refine { h with
        lines := ⟨rest, ?_, fun m hm => hagain m (List.mem_cons_of_mem _ hm)⟩
        within := ?_ }
      · rw [hq', List.nil_append]
      · subst hline
        rcases hmute with hp | hst | hclosed
        · rw [costEnrichment_mute (Or.inl hp)]
          exact h.within.imp id fun hb => { hb with toBookingEnrichment := by simp [hb.toBookingEnrichment] }
        · rw [costEnrichment_mute (Or.inr hst)]
          exact h.within.imp id fun hb => { hb with toBookingEnrichment := by simp [hb.toBookingEnrichment] }
        · exact Or.inl hclosed

theorem agrees_operateBookings :
    (c.operate step now .bookingEnrichment).Agrees a k (c'.operate step' now .bookingEnrichment) := by
  rcases h.within with hclosed | hb
  · simp only [Chain.operate]
    split <;> split <;> exact { h with within := Or.inl hclosed }
  · have hq := hb.toBookingEnrichment
    cases hc : c.toBookingEnrichment with
    | nil =>
      rw [hc, List.map_nil, eq_comm, List.map_eq_nil_iff] at hq
      simp only [Chain.operate, hc, hq]
      exact h
    | cons m rest =>
      rw [hc, List.map_cons, eq_comm, List.map_eq_cons_iff] at hq
      obtain ⟨m', rest', hc', hm, hrest⟩ := hq
      simp only [Chain.operate, hc, hc']
      refine { h with within := Or.inr { hb with
        bookingEnrichment := by simp only [hb.bookingEnrichment, hm]
        toBookingEnrichment := hrest.symm
        toCompanyCostEnrichment := ?_ } }
      simp [hb.toCompanyCostEnrichment, hb.bookingEnrichment, hm, Function.comp_def]

theorem agrees_operateCompany :
    (c.operate step now .companyCostEnrichment).Agrees a k (c'.operate step' now .companyCostEnrichment) := by
  rcases h.within with hclosed | hb
  · simp only [Chain.operate]
    split <;> split <;> exact { h with within := Or.inl hclosed }
  · have hq := hb.toCompanyCostEnrichment
    cases hc : c.toCompanyCostEnrichment with
    | nil =>
      rw [hc, List.map_nil, eq_comm, List.map_eq_nil_iff] at hq
      simp only [Chain.operate, hc, hq]
      exact h
    | cons m rest =>
      rw [hc, List.map_cons, eq_comm, List.map_eq_cons_iff] at hq
      obtain ⟨m', rest', hc', hm, hrest⟩ := hq
      simp only [Chain.operate, hc, hc']
      refine { h with within := Or.inr { hb with
        toCompanyCostEnrichment := hrest.symm
        toOwnerContractEnrichment := ?_ } }
      simp [hb.toOwnerContractEnrichment, h.companyCostEnrichment, hm]

theorem agrees_operateOwner (hown : ∀ m ∈ c.toOwnerContractEnrichment, m.cost.apartmentId = a)
    (hown' : ∀ m ∈ c'.toOwnerContractEnrichment, m.cost.apartmentId = a) :
    (c.operate step now .ownerContractEnrichment).Agrees a k (c'.operate step' now .ownerContractEnrichment) := by
  rcases h.within with hclosed | hb
  · have hdrop : ∀ {d : Chain} {n : ℕ}, d.Closed a →
        (∀ m ∈ d.toOwnerContractEnrichment, m.cost.apartmentId = a) →
        d.operate n now .ownerContractEnrichment =
          { d with toOwnerContractEnrichment := d.toOwnerContractEnrichment.tail } := by
      intro d n hd hm
      simp only [Chain.operate]
      split
      · rename_i hq
        rw [hq]
        cases d
        simp_all
      · rename_i m rest hq
        have hclosed : d.Closed m.cost.apartmentId := hm m (hq ▸ List.mem_cons_self ..) ▸ hd
        simp [hq, ownerContract_closed hclosed]
    have hclosed' : c'.Closed a := by
      unfold Chain.Closed at hclosed ⊢
      rw [← h.ownerContractEnrichment]
      exact hclosed
    rw [hdrop hclosed hown, hdrop hclosed' hown']
    exact { h with within := Or.inl hclosed }
  · have hq := hb.toOwnerContractEnrichment
    cases hc : c.toOwnerContractEnrichment with
    | nil =>
      rw [hc, List.map_nil, eq_comm, List.map_eq_nil_iff] at hq
      simp only [Chain.operate, hc, hq]
      exact h
    | cons m rest =>
      rw [hc, List.map_cons, eq_comm, List.map_eq_cons_iff] at hq
      obtain ⟨m', rest', hc', hm, hrest⟩ := hq
      simp only [Chain.operate, hc, hc']
      refine { h with
        toPriceDecision := ?_
        within := Or.inr { hb with toOwnerContractEnrichment := hrest.symm } }
      simp [h.toPriceDecision, h.ownerContractEnrichment, hm, Function.comp_def]

end

theorem agrees_react {a : String} {k : ℕ} {c c' : Chain} (h : c.Agrees a k c') {step step' : ℕ} {now : Instant}
    {e : PipelineEvent} (hs : Retained c.costEnrichment.costLines)
    (hlines : ∀ m ∈ c.toCostEnrichment, m.2.apartmentId = a)
    (hown : ∀ m ∈ c.messages, m.cost.apartmentId = a) (hown' : ∀ m ∈ c'.messages, m.cost.apartmentId = a)
    (htrace : ∀ cause line rest, e = .operate a .costEnrichment → c.toCostEnrichment = (cause, line) :: rest →
      k ≤ cause.step → Redundant c.costEnrichment.costLines line)
    (hpayment : e.isPayment = false) (hfixed : ∀ b row, e ≠ .configure b row) (hfor : e.apartment = some a) :
    (c.react step now e).Agrees a k (c'.react step' now e) := by
  cases e with
  | payment value => cases hpayment
  | configure b row => exact absurd rfl (hfixed b row)
  | market value => exact h
  | booking value => exact agrees_booking h
  | price b segment => exact agrees_dropPriced h
  | operate b operator =>
    obtain rfl : b = a := Option.some.inj hfor
    simp only [Chain.react]
    cases operator with
    | costEnrichment => exact agrees_operateCosts h hs hlines fun cause line rest => htrace cause line rest rfl
    | bookingEnrichment => exact agrees_operateBookings h
    | companyCostEnrichment => exact agrees_operateCompany h
    | ownerContractEnrichment =>
      exact agrees_operateOwner h (fun m hm => hown m (Chain.mem_toOwnerContractEnrichment hm))
        fun m hm => hown' m (Chain.mem_toOwnerContractEnrichment hm)

/-! ## Two runs that agree -/

/-- `s` has taken lines from step `k` on that `t` has not. -/
structure Pipeline.Agrees (k : ℕ) (s t : Pipeline) : Prop where
  segments : s.segments = t.segments
  chains : ∀ a, (s.chains a).Agrees a k (t.chains a)

theorem input_agrees {k : ℕ} {s t : Pipeline} (h : s.Agrees k t) (e : PipelineEvent) :
    (t.input e).map (·.2) = (s.input e).map (·.2) := by
  cases e with
  | price a segment =>
    have hfind : ∀ q : List Message,
        ((q.find? (·.isFor segment)).map fun m => (m.cause, segment, StageBEvent.cost m.cost)).map (·.2) =
        ((q.map (·.cost)).find? (·.segmentKey == segment)).map fun cost => (segment, .cost cost) := by
      intro q
      rw [List.find?_map, Option.map_map, Option.map_map]
      rfl
    simp only [Pipeline.input, hfind, (h.chains a).toPriceDecision]
  | _ => rfl

def Pipeline.Retained (s : Pipeline) : Prop := ∀ a, PriceEngine.Retained (s.chains a).costEnrichment.costLines

theorem react_retained {c : Chain} (h : Retained c.costEnrichment.costLines) {step : ℕ} {now : Instant}
    {e : PipelineEvent} : Retained (c.react step now e).costEnrichment.costLines := by
  have hreacts := c.reacts step now e
  generalize c.react step now e = c' at hreacts
  cases hreacts with
  | configure a row =>
    cases row with
    | apartmentConfig row =>
      change Retained (c.costEnrichment.processBroadcastElement row).costLines
      rw [processBroadcastElement_costLines]
      exact h
    | _ => exact h
  | costEnrichment a hq => exact retained_retainLine _ _
  | _ => exact h

section
variable {s s' t : Pipeline} {e : Env × PipelineEvent} {os : List Emitted} (h : s.step e = .ok (s', os))
include h

theorem step_retained (hs : s.Retained) : s'.Retained := by
  obtain ⟨-, hchains, -⟩ := Pipeline.step_cases h
  intro a
  rw [hchains]
  split
  · exact react_retained (hs a)
  · exact hs a

variable {k : ℕ} (hag : s.Agrees k t) (htrace : LeavesNoTrace k s e)
include hag htrace

theorem step_agrees_payment (hk : k ≤ s.steps) (hpayment : e.2.isPayment = true) : os = [] ∧ s'.Agrees k t := by
  obtain ⟨env, event⟩ := e
  cases event with
  | payment value =>
    obtain ⟨-, hchains, ⟨-, hsegments, hos⟩ | ⟨cause, segment, event, b, ds, hin, -⟩⟩ :=
      Pipeline.step_cases h
    · refine ⟨hos, hsegments ▸ hag.segments, fun a => ?_⟩
      rw [hchains]
      split
      · rename_i ha
        obtain rfl : value.apartmentId = a := Option.some.inj ha
        exact agrees_payment (hag.chains _) hk htrace
      · exact hag.chains a
    · cases hin
  | _ => cases hpayment

theorem step_agrees (hs : s.Owned) (ht : t.Owned) (hret : s.Retained) (hpayment : e.2.isPayment = false)
    (hfixed : ∀ a row, e.2 ≠ .configure a row) :
    ∃ t' ot, t.step e = .ok (t', ot) ∧ s'.Agrees k t' ∧ SameDecisions os ot := by
  obtain ⟨-, hchains, hout⟩ := Pipeline.step_cases h
  have hin := input_agrees hag e.2
  have hnext : ∀ t' : Pipeline, (∀ a, t'.chains a =
      if e.2.apartment = some a then (t.chains a).react t.steps (e.1.now 0) e.2 else t.chains a) →
      ∀ a, (s'.chains a).Agrees a k (t'.chains a) := by
    intro t' hchains' a
    rw [hchains, hchains']
    split
    · rename_i ha
      refine agrees_react (hag.chains a) (hret a) (fun m hm => (hs.lines a m hm).2) (hs.messages a) (ht.messages a)
        ?_ hpayment hfixed ha
      intro cause line rest he
      unfold LeavesNoTrace at htrace
      rw [he] at htrace
      exact htrace cause line rest
    · exact hag.chains a
  rcases hout with ⟨hnone, hseg, rfl⟩ | ⟨cause, segment, event, b, ds, hsome, hb, hseg, rfl⟩
  · rw [hnone, Option.map_none, Option.map_eq_none_iff] at hin
    have hstep : t.step e = .ok (t.advance e, []) := by rw [Pipeline.step_eq, hin]
    refine ⟨_, _, hstep, ⟨?_, hnext _ (Pipeline.step_cases hstep).2.1⟩, rfl⟩
    rw [hseg, t.advance_segments e, hag.segments]
  · rw [hsome, Option.map_some, Option.map_eq_some_iff] at hin
    obtain ⟨⟨cause', input⟩, hin, rfl⟩ := hin
    rw [hag.segments] at hb hseg
    have hstep : t.step e = .ok ({ t.advance e with segments := Function.update t.segments segment b },
        ds.map fun d => { cause := cause', segment := segment, decision := d }) := by
      rw [Pipeline.step_eq, hin]
      refine Pipeline.stageB_eq_ok.mpr ⟨b, ds, ?_, ?_, rfl⟩
      · rw [t.advance_segments e]
        exact hb
      · rw [t.advance_segments e]
    refine ⟨_, _, hstep, ⟨hseg, hnext _ (Pipeline.step_cases hstep).2.1⟩, ?_⟩
    unfold SameDecisions
    rw [List.map_map, List.map_map]
    rfl

end

/-! ## Runs -/

theorem run_retained {es : List (Env × PipelineEvent)} {s s' : Pipeline} {os : List Emitted} (hs : s.Retained)
    (h : run Pipeline.step s es = .ok (s', os)) : s'.Retained :=
  run_preserves (fun _ _ _ _ hi hstep => step_retained hstep hi) hs h

/-- The two runs, one step behind the other or not, and what is known of both. -/
structure Together (k : ℕ) (s t : Pipeline) : Prop where
  owned : s.Owned
  owned' : t.Owned
  retained : s.Retained
  started : k ≤ s.steps
  agrees : s.Agrees k t

theorem run_together {k : ℕ} {es : List (Env × PipelineEvent)}
    (hfixed : ∀ e ∈ es, ∀ a row, e.2 ≠ .configure a row)
    {s s' t : Pipeline} {os : List Emitted} (hst : Together k s t)
    (htrace : Along Pipeline.step (LeavesNoTrace k) s es) (h : run Pipeline.step s es = .ok (s', os)) :
    ∃ t' ps, run Pipeline.step t (withoutPayments es) = .ok (t', ps) ∧ Together k s' t' ∧
      SameDecisions os ps := by
  have hcond : Along Pipeline.step (fun s e => LeavesNoTrace k s e ∧ ∀ a row, e.2 ≠ .configure a row) s es :=
    along_imp (fun _ e he hl => ⟨hl, hfixed e he⟩) htrace
  refine run_filter (Q := SameDecisions) rfl ?_ ?_ ?_ hst hcond h
  · intro o p os ps hq hqs
    unfold SameDecisions at hq hqs ⊢
    rw [List.map_append, List.map_append, hq, hqs]
  · intro s t e s' o hst ⟨hl, hf⟩ hpayment hstep
    rw [Bool.not_eq_true'] at hpayment
    obtain ⟨t', p, hstep', hag, hout⟩ :=
      step_agrees hstep hst.agrees hl hst.owned hst.owned' hst.retained hpayment hf
    refine ⟨t', p, hstep', ⟨step_owned hstep hst.owned, step_owned hstep' hst.owned',
      step_retained hstep hst.retained, ?_, hag⟩, hout⟩
    exact (Pipeline.step_cases hstep).1 ▸ hst.started.trans (Nat.le_succ _)
  · intro s t e s' o hst ⟨hl, _⟩ hpayment hstep
    rw [Bool.not_eq_false'] at hpayment
    obtain ⟨rfl, hag⟩ := step_agrees_payment hstep hst.agrees hl hst.started hpayment
    refine ⟨⟨step_owned hstep hst.owned, hst.owned', step_retained hstep hst.retained, ?_, hag⟩, rfl⟩
    exact (Pipeline.step_cases hstep).1 ▸ hst.started.trans (Nat.le_succ _)

/-- Superseded lines that leave no trace change neither the retained lines nor Stage B nor any decision,
in whatever order they are delivered again and whatever else the run brings. -/
theorem replays_change_nothing {es₁ es₂ : List (Env × PipelineEvent)} (h : Replays es₁ es₂) {s : Pipeline}
    {os : List Emitted} (h₁ : run Pipeline.step {} es₁ = .ok (s, os))
    (htrace : Along Pipeline.step (LeavesNoTrace s.steps) s es₂) : PaymentsChangeNothing s es₂ := by
  intro s' os' h₂
  have hs := run_owned owned_empty h₁
  have hst : Together s.steps s s :=
    { owned := hs
      owned' := hs
      retained := run_retained (fun _ => retained_empty) h₁
      started := le_rfl
      agrees := ⟨rfl, fun a => Chain.agrees_refl a _ _⟩ }
  obtain ⟨t, ot, hrun, hst', hout⟩ := run_together h.fixed hst htrace h₂
  exact ⟨t, ot, hrun, fun a => by rw [(hst'.agrees.chains a).costEnrichment], hst'.agrees.segments.symm, hout⟩

/-! ## A line and its second version -/

def secondVersion (amountGross : ℕ) : PaymentLine := { flatLine "e1" amountGross 0 with updatedAt := some 20 }

/-- Both versions of the line go their way; `rows` are the rows of the flat that have arrived before. -/
def twoVersions (rows : List PipelineEvent) (amountGross : ℕ) : List (Env × PipelineEvent) :=
  jobFrom 0 (rows ++ [.market (flatMarket none (toordinal 1970 1 21) 0), .payment (flatLine "e1" 900 0)] ++
    flatFlow gracia ++ [.payment (secondVersion amountGross)] ++ flatFlow gracia)

def firstAgain : List (Env × PipelineEvent) := jobFrom 50 (.payment (flatLine "e1" 900 0) :: flatFlow gracia)

theorem replays_firstAgain {rows : List PipelineEvent} {amountGross : ℕ}
    (hrows : paymentsOf (twoVersions rows amountGross) = [flatLine "e1" 900 0, secondVersion amountGross]) :
    Replays (twoVersions rows amountGross) firstAgain where
  inOrder := by
    rw [hrows]
    simp only [List.pairwise_cons, List.mem_singleton, forall_eq, List.not_mem_nil, false_imp_iff,
      implies_true, List.Pairwise.nil, and_true]
    exact fun _ => (by decide : (0 : Instant) < 20)
  superseded := by
    rw [hrows, show paymentsOf firstAgain = [flatLine "e1" 900 0] from rfl]
    intro v hv
    rw [List.mem_singleton.mp hv]
    exact ⟨List.mem_cons_self .., secondVersion amountGross, by simp, rfl, (by decide : (0 : Instant) < 20)⟩
  fixed := by
    intro e he a row hrow
    have hmem := mem_of_mem_jobFrom he
    rw [hrow] at hmem
    simp [flatFlow, flatOperators] at hmem

/-- Without the owner's contract the costs of the flat stop in front of Stage B. Where the second version
only confirms the first, that one is redundant when it comes again. -/
theorem confirmed_line_changes_nothing :
    ∃ s os, run Pipeline.step {} (twoVersions (flatRows.take 4) 900) = .ok (s, os) ∧
      PaymentsChangeNothing s firstAgain := by
  have hrun : (run Pipeline.step {} (twoVersions (flatRows.take 4) 900)).toOption.map (fun r => decide (
      (r.1.chains "a1").toCostEnrichment.isEmpty ∧
      (r.1.chains "a1").ownerContractEnrichment.ownerContracts.get? "a1" = none ∧
      ∀ line ∈ (r.1.chains "a1").resolution.processElement (flatLine "e1" 900 0),
        (r.1.chains "a1").costEnrichment.costLines.get? line.eventId = some line)) = some true := by
    decide +kernel
  obtain ⟨⟨s, os⟩, h₁, hfacts⟩ := ok_of_map hrun
  obtain ⟨hempty, hcontract, hstored⟩ := of_decide_eq_true hfacts
  have hempty : (s.chains "a1").toCostEnrichment = [] := List.isEmpty_iff.mp hempty
  have hsplit : firstAgain = (envAt 50, .payment (flatLine "e1" 900 0)) ::
      (envAt 51, .operate "a1" .costEnrichment) :: jobFrom 52 (flatFlow gracia).tail := rfl
  refine ⟨s, os, h₁, replays_change_nothing (replays_firstAgain rfl) h₁ ?_⟩
  rw [hsplit]
  have hclosed : (s.chains "a1").Closed "a1" := by
    unfold Chain.Closed
    rw [hcontract]
    rfl
  refine ⟨Or.inr (Or.inr (Or.inr hclosed)), fun s₁ o hs₁ => ⟨?_, fun s₂ o₂ _ => ?_⟩⟩
  · intro cause line rest hq _
    have hchain : s₁.chains "a1" = (s.chains "a1").payment ⟨.payment, s.steps⟩ (flatLine "e1" 900 0) :=
      ((Pipeline.step_cases hs₁).2.1 "a1").trans (if_pos rfl)
    rw [hchain] at hq ⊢
    have hline : (cause, line) ∈ ((s.chains "a1").resolution.processElement (flatLine "e1" 900 0)).map
        fun line => ((⟨.payment, s.steps⟩ : Cause), line) := by
      simp only [Chain.payment, hempty, List.nil_append] at hq
      rw [hq]
      exact List.mem_cons_self ..
    obtain ⟨line', hl, heq⟩ := List.mem_map.mp hline
    obtain ⟨-, rfl⟩ := Prod.mk.inj heq
    exact Or.inl (hstored line' hl)
  · refine along_of_forall (fun t e he => ?_) s₂
    have hmem := mem_of_mem_jobFrom he
    simp only [flatFlow, flatOperators, List.cons_append, List.nil_append, List.tail_cons, List.mem_cons,
      List.not_mem_nil, or_false] at hmem
    unfold LeavesNoTrace
    rcases hmem with h | h | h | h <;> rw [h] <;> trivial

/-- The first version, delivered again, replaces the second one among the retained lines; its aggregate
is the newest Stage B has seen, so the night is priced on the old costs again. -/
theorem old_version_prices_again :
    ¬ ∀ es₁ es₂ s os, Replays es₁ es₂ → run Pipeline.step {} es₁ = .ok (s, os) →
      PaymentsChangeNothing s es₂ := by
  intro h
  have hrun : ((run Pipeline.step {} (twoVersions flatRows 600)).toOption.bind fun r =>
      (run Pipeline.step r.1 firstAgain).toOption.bind fun r' =>
      (run Pipeline.step r.1 (withoutPayments firstAgain)).toOption.map fun t =>
        (r'.2.length, t.2.length)) = some (1, 0) := by
    decide +kernel
  obtain ⟨⟨s, os⟩, h₁, hrun⟩ := ok_of_bind hrun
  obtain ⟨⟨s', os'⟩, h₂, hrun⟩ := ok_of_bind hrun
  obtain ⟨⟨t, ot⟩, ht, hlen⟩ := ok_of_map hrun
  obtain ⟨t', ot', ht', -, -, hout⟩ := h _ _ s os (replays_firstAgain rfl) h₁ s' os' h₂
  obtain ⟨-, rfl⟩ := Prod.mk.inj (Except.ok.inj (ht.symm.trans ht'))
  unfold SameDecisions at hout
  have hsame := congrArg List.length hout
  rw [List.length_map, List.length_map, (Prod.mk.inj hlen).1, (Prod.mk.inj hlen).2] at hsame
  exact absurd hsame (by decide)

end PriceEngine
