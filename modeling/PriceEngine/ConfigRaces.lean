import PriceEngine.PipelineSound

/-!
# Lines and configuration in a race

Nothing orders a broadcast row against a payment line. A line that reaches A0
before its cost definition or its allocation rule is dropped there; a line that
reaches Stage A before its segment or strategy is retained. `foundLines` are the
lines that A0 let through: what Stage A emits counts them all, as if the
configuration had come first (`Chain.configFirst`) and these lines alone after
it.
-/

namespace PriceEngine

/-! ## The events of one apartment -/

def linesOf (a : String) (es : List (Env × PipelineEvent)) : List PaymentLine :=
  es.filterMap fun e =>
    match e.2 with
    | .payment value => if value.apartmentId = a then some value else none
    | _ => none

def costRowsOf (a : String) (es : List (Env × PipelineEvent)) : List CostConfigRow :=
  es.filterMap fun e =>
    match e.2 with
    | .configure b (.costConfig row) => if b = a then some row else none
    | _ => none

def apartmentRowsOf (a : String) (es : List (Env × PipelineEvent)) : List ApartmentConfigRow :=
  es.filterMap fun e =>
    match e.2 with
    | .configure b (.apartmentConfig row) => if b = a then some row else none
    | _ => none

structure OneRowPerDefinition (rows : List CostConfigRow) : Prop where
  definitions : ∀ r r', .definition r ∈ rows → .definition r' ∈ rows → r.costDefinitionId = r'.costDefinitionId →
    r = r'
  allocations : ∀ r r', .allocationRule r ∈ rows → .allocationRule r' ∈ rows →
    r.costDefinitionId = r'.costDefinitionId → r = r'

structure OneRowPerApartment (rows : List ApartmentConfigRow) : Prop where
  segments : ∀ r r', .segment r ∈ rows → .segment r' ∈ rows → r.apartmentId = r'.apartmentId → r = r'
  strategies : ∀ r r', .strategy r ∈ rows → .strategy r' ∈ rows → r.apartmentId = r'.apartmentId → r = r'

structure OnePeriod (periodStart periodEnd : Date) (values : List PaymentLine) : Prop where
  starts : ∀ v ∈ values, v.billingPeriodStart = periodStart
  ends : ∀ v ∈ values, v.billingPeriodEnd = periodEnd
  ids : (values.map (·.eventId)).Nodup

/-! ## Lines that find their rows -/

def noteFound (a : String) (s : Pipeline) (e : Env × PipelineEvent) (_ : List Emitted)
    (found : List (PaymentLine × EnrichedPaymentLine)) : List (PaymentLine × EnrichedPaymentLine) :=
  match e.2 with
  | .payment value =>
    if value.apartmentId = a then
      found ++ ((s.chains a).resolution.processElement value).map fun line => (value, line)
    else found
  | _ => found

/-- The lines of the apartment that A0 enriched when they came, in a run from the empty state. -/
def foundLines (a : String) (es : List (Env × PipelineEvent)) : List (PaymentLine × EnrichedPaymentLine) :=
  observed Pipeline.step (noteFound a) {} [] es

section
variable {s : CostDefinitionResolution} {value : PaymentLine} {line : EnrichedPaymentLine}

/-- A line is enriched with its own definition and rule, and keeps its id, apartment, period and amount. -/
theorem resolution_found : s.processElement value = [line] ↔
    ∃ definition allocation, s.definitions.get? value.costDefinitionId = some definition ∧
      s.allocations.get? value.costDefinitionId = some allocation ∧
      line =
        { eventId := value.eventId, apartmentId := value.apartmentId
          apartmentReference := value.apartmentReference
          billingPeriodStart := value.billingPeriodStart, billingPeriodEnd := value.billingPeriodEnd
          amountGross := value.amountGross
          concept := definition.concept, scope := definition.scope, behavior := definition.behavior
          trigger := definition.trigger, calculationBase := definition.calculationBase
          recurrence := definition.recurrence, revenueBase := definition.revenueBase
          allocationMethod := allocation.method, weightConfig := allocation.weightConfig
          rate := definition.rate } := by
  unfold CostDefinitionResolution.processElement
  cases s.definitions.get? value.costDefinitionId with
  | none => simp
  | some definition =>
    cases s.allocations.get? value.costDefinitionId with
    | none => simp
    | some allocation => simp [eq_comm]

theorem resolution_single (h : line ∈ s.processElement value) : s.processElement value = [line] := by
  unfold CostDefinitionResolution.processElement at h ⊢
  split at h
  · rw [List.mem_singleton.mp h]
  · cases h

end

/-- Every stored row was delivered, under its own id. -/
structure CostDefinitionResolution.From (s : CostDefinitionResolution) (rows : List CostConfigRow) : Prop where
  definitions : s.definitions.All fun k r => r.costDefinitionId = k ∧ .definition r ∈ rows
  allocations : s.allocations.All fun k r => r.costDefinitionId = k ∧ .allocationRule r ∈ rows

theorem from_empty (rows : List CostConfigRow) : ({} : CostDefinitionResolution).From rows :=
  ⟨Dict.all_empty _, Dict.all_empty _⟩

section
variable {s : CostDefinitionResolution} {rows : List CostConfigRow} (hs : s.From rows) {row : CostConfigRow}
  (hrow : row ∈ rows)
include hs hrow

theorem broadcast_from : (s.processBroadcastElement row).From rows := by
  cases row with
  | definition r => exact ⟨hs.definitions.put ⟨rfl, hrow⟩, hs.allocations⟩
  | allocationRule r => exact ⟨hs.definitions, hs.allocations.put ⟨rfl, hrow⟩⟩

/-- With one row for each definition, a line that has found its rows would find the same ones later. -/
theorem broadcast_found (hone : OneRowPerDefinition rows) {value : PaymentLine} {line : EnrichedPaymentLine}
    (h : s.processElement value = [line]) : (s.processBroadcastElement row).processElement value = [line] := by
  obtain ⟨definition, allocation, hd, ha, hline⟩ := resolution_found.mp h
  refine resolution_found.mpr ⟨definition, allocation, ?_, ?_, hline⟩
  · cases row with
    | allocationRule r => exact hd
    | definition r =>
      refine (Dict.get?_put ..).trans ?_
      split
      · rename_i hk
        obtain ⟨hid, hin⟩ := hs.definitions _ _ hd
        rw [hone.definitions r definition hrow hin (hk.symm.trans hid.symm)]
      · exact hd
  · cases row with
    | definition r => exact ha
    | allocationRule r =>
      refine (Dict.get?_put ..).trans ?_
      split
      · rename_i hk
        obtain ⟨hid, hin⟩ := hs.allocations _ _ ha
        rw [hone.allocations r allocation hrow hin (hk.symm.trans hid.symm)]
      · exact ha

end

/-! ## Lines of one period at Stage A -/

theorem dedup_of_all_eq {α : Type*} [DecidableEq α] {l : List α} {x : α} (hne : l ≠ []) (h : ∀ y ∈ l, y = x) :
    l.dedup = [x] := by
  obtain ⟨n, rfl⟩ : ∃ n, l = List.replicate n x := ⟨_, List.eq_replicate_of_mem h⟩
  cases n with
  | zero => exact absurd rfl hne
  | succ n => exact List.replicate_dedup n.succ_ne_zero

theorem aggregateCost_onePeriod {lines : List EnrichedPaymentLine} {first : EnrichedPaymentLine} {d : Date}
    (hfirst : lines.head? = some first) (hends : ∀ l ∈ lines, l.billingPeriodEnd = d) :
    aggregateCost lines = some (aggregatePeriod d first.billingPeriodStart lines) := by
  have hmax : (lines.map (·.billingPeriodEnd)).max? = some d := by
    rw [List.max?_eq_some_iff]
    refine ⟨List.mem_map.mpr ⟨first, List.mem_of_head? hfirst, hends first (List.mem_of_head? hfirst)⟩, ?_⟩
    intro x hx
    obtain ⟨l, hl, rfl⟩ := List.mem_map.mp hx
    exact (hends l hl).le
  have hfilter : (lines.filter fun line => line.billingPeriodEnd == d) = lines :=
    List.filter_eq_self.mpr fun l hl => by simpa using hends l hl
  simp only [aggregateCost, hmax, hfilter, hfirst, Option.bind_eq_bind, Option.bind_some]

section
variable {taken : List EnrichedPaymentLine} {line : EnrichedPaymentLine} {d : Date}
  (hids : ((taken ++ [line]).map (·.eventId)).Nodup) (hends : ∀ l ∈ taken ++ [line], l.billingPeriodEnd = d)
include hids hends

theorem retainLine_onePeriod {costLines : Dict String EnrichedPaymentLine}
    (hlines : costLines.entries = taken.map fun l => (l.eventId, l)) :
    (retainLine costLines line).entries = (taken ++ [line]).map fun l => (l.eventId, l) := by
  rw [List.map_append, List.map_singleton] at hids
  obtain ⟨-, -, hnew⟩ := List.nodup_append.mp hids
  have hnone : costLines.get? line.eventId = none := by
    refine Dict.get?_eq_none.mpr fun hk => hnew line.eventId ?_ _ (List.mem_singleton_self _) rfl
    simpa [Dict.keys, hlines, Function.comp_def] using hk
  have hentries : (costLines.put line.eventId line).entries = (taken ++ [line]).map fun l => (l.eventId, l) := by
    rw [Dict.entries_put_of_none hnone, hlines, List.map_append]
    rfl
  have hvalues : (costLines.put line.eventId line).values = taken ++ [line] := by
    rw [Dict.values, hentries, List.map_map]
    exact List.map_id _
  unfold retainLine
  dsimp only
  rw [Dict.filterValues_eq_self, hentries]
  intro l hl
  rw [hvalues] at hl ⊢
  have hdedup : ((taken ++ [line]).map (·.billingPeriodEnd)).dedup = [d] := by
    refine dedup_of_all_eq (List.ne_nil_of_mem (List.mem_map_of_mem hl)) fun e he => ?_
    obtain ⟨l', hl', rfl⟩ := List.mem_map.mp he
    exact hends l' hl'
  rw [retainedBillingPeriodEnds, hdedup, hends l hl]
  simp

theorem processElement_onePeriod {s : CostEnrichment}
    (hlines : s.costLines.entries = taken.map fun l => (l.eventId, l))
    {profile : PropertyPricingProfile} (hprofile : s.segments.get? line.apartmentId = some profile)
    {strategy : PricingStrategy} (hstrategy : s.strategies.get? line.apartmentId = some strategy) (now : Instant) :
    ∃ cost, (s.processElement now line).2 = [cost] ∧ cost.costLinesCount = (taken ++ [line]).length := by
  have hvalues : (retainLine s.costLines line).values = taken ++ [line] := by
    rw [Dict.values, retainLine_onePeriod hids hends hlines, List.map_map]
    exact List.map_id _
  obtain ⟨first, hfirst⟩ : ∃ first, (taken ++ [line]).head? = some first := by
    cases taken <;> exact ⟨_, rfl⟩
  have haggregate := aggregateCost_onePeriod hfirst hends
  refine ⟨costAggregateOf now line profile strategy
    (aggregatePeriod d first.billingPeriodStart (taken ++ [line])), ?_, rfl⟩
  simp only [CostEnrichment.processElement, hvalues, haggregate, hprofile, hstrategy]

end

/-! ## Runs -/

/-- The lines that A0 let through, in order: those Stage A has retained, and those still on the way to it. -/
structure Chain.Keeps (c : Chain) (found : List (PaymentLine × EnrichedPaymentLine)) : Prop where
  resolved : ∀ x ∈ found, c.resolution.processElement x.1 = [x.2]
  retained : ∃ taken, found.map (·.2) = taken ++ c.toCostEnrichment.map (·.2) ∧
    c.costEnrichment.costLines.entries = taken.map fun l => (l.eventId, l)

theorem keeps_empty : ({} : Chain).Keeps [] where
  resolved _ h := nomatch h
  retained := ⟨[], rfl, rfl⟩

theorem onePeriod_part {found done later : List (PaymentLine × EnrichedPaymentLine)}
    {taken : List EnrichedPaymentLine} {d : Date} (hids : (found.map (·.2.eventId)).Nodup)
    (hends : ∀ x ∈ found, x.2.billingPeriodEnd = d) (hsplit : found = done ++ later)
    (hdone : done.map (·.2) = taken) :
    (taken.map (·.eventId)).Nodup ∧ ∀ l ∈ taken, l.billingPeriodEnd = d := by
  rw [hsplit, List.map_append] at hids
  subst hdone
  refine ⟨?_, fun l hl => ?_⟩
  · rw [List.map_map]
    exact (List.nodup_append.mp hids).1
  · obtain ⟨x, hx, rfl⟩ := List.mem_map.mp hl
    exact hends x (hsplit ▸ List.mem_append_left _ hx)

section
variable {c c' : Chain} {found : List (PaymentLine × EnrichedPaymentLine)} (hs : c.Keeps found)
include hs

theorem Chain.Keeps.payment {value : PaymentLine} (hres : c'.resolution = c.resolution)
    (hkept : c'.costEnrichment.costLines = c.costEnrichment.costLines)
    (hq : c'.toCostEnrichment.map (·.2) = c.toCostEnrichment.map (·.2) ++ c.resolution.processElement value) :
    c'.Keeps (found ++ (c.resolution.processElement value).map fun line => (value, line)) := by
  obtain ⟨taken, htaken, hlines⟩ := hs.retained
  refine ⟨fun x hx => ?_, taken, ?_, by rw [hkept, hlines]⟩
  · rw [hres]
    rcases List.mem_append.mp hx with hx | hx
    · exact hs.resolved x hx
    · obtain ⟨line, hline, rfl⟩ := List.mem_map.mp hx
      exact resolution_single hline
  · rw [hq, List.map_append, htaken, List.append_assoc, List.map_map]
    simp [Function.comp_def]

/-- The lines found are those Stage A has taken, the one it is about to take, and those behind it. -/
theorem Chain.Keeps.split {m : Cause × EnrichedPaymentLine} {rest : List (Cause × EnrichedPaymentLine)}
    (hq : c.toCostEnrichment = m :: rest) :
    ∃ done later taken, found = done ++ later ∧ done.map (·.2) = taken ++ [m.2] ∧ later.length = rest.length ∧
      later.map (·.2) = rest.map (·.2) ∧ c.costEnrichment.costLines.entries = taken.map fun l => (l.eventId, l) := by
  obtain ⟨taken, htaken, hlines⟩ := hs.retained
  rw [hq, List.map_cons, ← List.singleton_append, ← List.append_assoc] at htaken
  obtain ⟨done, later, hsplit, hdone, hlater⟩ := List.map_eq_append_iff.mp htaken
  refine ⟨done, later, taken, hsplit, hdone, ?_, hlater, hlines⟩
  rw [← List.length_map (·.2), hlater, List.length_map]

theorem Chain.Keeps.taken (hids : (found.map (·.2.eventId)).Nodup) {d : Date}
    (hends : ∀ x ∈ found, x.2.billingPeriodEnd = d) {m : Cause × EnrichedPaymentLine}
    {rest : List (Cause × EnrichedPaymentLine)} (hres : c'.resolution = c.resolution)
    (hq : c.toCostEnrichment = m :: rest) (hq' : c'.toCostEnrichment = rest)
    (hkept : c'.costEnrichment.costLines = retainLine c.costEnrichment.costLines m.2) : c'.Keeps found := by
  obtain ⟨done, later, taken, hsplit, hdone, -, hlater, hlines⟩ := hs.split hq
  obtain ⟨hdone_ids, hdone_ends⟩ := onePeriod_part hids hends hsplit hdone
  refine ⟨by rw [hres]; exact hs.resolved, taken ++ [m.2], ?_, ?_⟩
  · rw [hsplit, List.map_append, hdone, hlater, hq']
  · rw [hkept, retainLine_onePeriod hdone_ids hdone_ends hlines]

theorem Chain.Keeps.frame (hq : c'.toCostEnrichment = c.toCostEnrichment)
    (hkept : c'.costEnrichment.costLines = c.costEnrichment.costLines)
    (hresolved : ∀ x ∈ found, c'.resolution.processElement x.1 = [x.2]) : c'.Keeps found := by
  obtain ⟨taken, htaken, hlines⟩ := hs.retained
  exact ⟨hresolved, taken, by rw [hq, htaken], by rw [hkept, hlines]⟩

end

/-- What a step does around Stage A: a line comes through A0, Stage A takes the oldest one, or neither. -/
theorem Chain.lines_cases (c : Chain) (step : ℕ) (now : Instant) (e : PipelineEvent) :
    (∃ value, e = .payment value ∧ (c.react step now e).resolution = c.resolution ∧
      (c.react step now e).costEnrichment.costLines = c.costEnrichment.costLines ∧
      (c.react step now e).toCostEnrichment.map (·.2) =
        c.toCostEnrichment.map (·.2) ++ c.resolution.processElement value) ∨
    (∃ a m rest, e = .operate a .costEnrichment ∧ (c.react step now e).resolution = c.resolution ∧
      c.toCostEnrichment = m :: rest ∧ (c.react step now e).toCostEnrichment = rest ∧
      (c.react step now e).costEnrichment.costLines = retainLine c.costEnrichment.costLines m.2) ∨
    ((∀ value, e ≠ .payment value) ∧ (c.react step now e).toCostEnrichment = c.toCostEnrichment ∧
      (c.react step now e).costEnrichment.costLines = c.costEnrichment.costLines ∧
      ((c.react step now e).resolution = c.resolution ∨
        ∃ a row, e = .configure a (.costConfig row) ∧
          (c.react step now e).resolution = c.resolution.processBroadcastElement row)) := by
  have hreacts := c.reacts step now e
  generalize c.react step now e = c' at hreacts
  cases hreacts with
  | payment value =>
    refine Or.inl ⟨value, rfl, rfl, rfl, ?_⟩
    simp [Function.comp_def]
  | costEnrichment a hq => exact Or.inr (Or.inl ⟨a, _, _, rfl, rfl, hq, rfl, rfl⟩)
  | configure a row =>
    right; right
    refine ⟨(fun value hvalue => by cases hvalue), ?_⟩
    cases row with
    | costConfig row => exact ⟨rfl, rfl, Or.inr ⟨a, row, rfl, rfl⟩⟩
    | apartmentConfig row => exact ⟨rfl, processBroadcastElement_costLines _ row, Or.inl rfl⟩
    | companyConfig row => exact ⟨rfl, rfl, Or.inl rfl⟩
    | ownerConfig row => exact ⟨rfl, rfl, Or.inl rfl⟩
  | _ => exact Or.inr (Or.inr ⟨(fun value hvalue => by cases hvalue), rfl, rfl, Or.inl rfl⟩)

section
variable {a : String} {s s' : Pipeline} {e : Env × PipelineEvent} {os : List Emitted}
  (h : s.step e = .ok (s', os)) {rows : List CostConfigRow}
include h

theorem step_from (hs : (s.chains a).resolution.From rows) (hrows : ∀ row ∈ costRowsOf a [e], row ∈ rows) :
    (s'.chains a).resolution.From rows := by
  have hchain := (Pipeline.step_cases h).2.1 a
  split at hchain
  · rename_i ha
    rw [hchain]
    rcases (s.chains a).lines_cases s.steps (e.1.now 0) e.2 with
      ⟨value, -, hsame, -⟩ | ⟨b, m, rest, -, hsame, -⟩ | ⟨-, -, -, hsame | ⟨b, row, he, hrow⟩⟩
    · rwa [hsame]
    · rwa [hsame]
    · rwa [hsame]
    · rw [hrow]
      refine broadcast_from hs (hrows row ?_)
      rw [he] at ha
      simp [costRowsOf, he, Option.some.inj ha]
  · rwa [hchain]

theorem step_keeps (hfrom : (s.chains a).resolution.From rows) (hone : OneRowPerDefinition rows)
    (hrows : ∀ row ∈ costRowsOf a [e], row ∈ rows) {found : List (PaymentLine × EnrichedPaymentLine)}
    (hids : (found.map (·.2.eventId)).Nodup) {d : Date} (hends : ∀ x ∈ found, x.2.billingPeriodEnd = d)
    (hs : (s.chains a).Keeps found) : (s'.chains a).Keeps (noteFound a s e os found) := by
  have hchain := (Pipeline.step_cases h).2.1 a
  unfold noteFound
  by_cases ha : e.2.apartment = some a
  · rw [if_pos ha] at hchain
    rw [hchain]
    rcases (s.chains a).lines_cases s.steps (e.1.now 0) e.2 with
      ⟨value, he, hres, hkept, hq⟩ | ⟨b, m, rest, he, hres, hq, hq', hkept⟩ | ⟨hno, hq, hkept, hres⟩
    · rw [he] at ha ⊢
      rw [he] at hres hkept hq
      simp only [Option.some.inj ha, if_true]
      exact hs.payment hres hkept hq
    · rw [he] at hres hq' hkept ⊢
      exact hs.taken hids hends hres hq hq' hkept
    · have hsame : (match e.2 with
          | .payment value => if value.apartmentId = a then
              found ++ ((s.chains a).resolution.processElement value).map fun line => (value, line) else found
          | _ => found) = found := by
        split
        · rename_i value he
          exact absurd he (hno value)
        · rfl
      rw [hsame]
      refine hs.frame hq hkept fun x hx => ?_
      rcases hres with hres | ⟨b, row, he, hres⟩
      · rw [hres]
        exact hs.resolved x hx
      · rw [hres]
        refine broadcast_found hfrom (hrows row ?_) hone (hs.resolved x hx)
        rw [he] at ha
        simp [costRowsOf, he, Option.some.inj ha]
  · rw [if_neg ha] at hchain
    rw [hchain]
    split
    · rename_i value he
      rw [if_neg fun hv => ha (by rw [he]; exact congrArg some hv)]
      exact hs
    · exact hs

end

section
variable {a : String} {periodStart periodEnd : Date} {es : List (Env × PipelineEvent)}
  (hone : OneRowPerDefinition (costRowsOf a es))

theorem linesOf_append (a : String) (es fs : List (Env × PipelineEvent)) :
    linesOf a (es ++ fs) = linesOf a es ++ linesOf a fs := List.filterMap_append ..

theorem costRowsOf_mem {p q : List (Env × PipelineEvent)} {e : Env × PipelineEvent} (hes : es = p ++ e :: q) :
    ∀ row ∈ costRowsOf a [e], row ∈ costRowsOf a es := by
  intro row hrow
  obtain ⟨e', he', hr⟩ := List.mem_filterMap.mp hrow
  refine List.mem_filterMap.mpr ⟨e', ?_, hr⟩
  rw [hes, List.mem_singleton.mp he']
  simp

/-- What A0 lets through is what was delivered, less what it dropped. -/
theorem noteFound_sublist {s : Pipeline} {e : Env × PipelineEvent} {os : List Emitted}
    {found : List (PaymentLine × EnrichedPaymentLine)} (hs : (found.map (·.1)).Sublist (linesOf a es)) :
    ((noteFound a s e os found).map (·.1)).Sublist (linesOf a (es ++ [e])) := by
  rw [linesOf_append]
  unfold noteFound
  split
  · rename_i value he
    by_cases ha : value.apartmentId = a
    · have hline : linesOf a [e] = [value] := by simp [linesOf, he, ha]
      rw [if_pos ha, hline, List.map_append, List.map_map]
      refine hs.append ?_
      unfold CostDefinitionResolution.processElement
      split
      · exact List.Sublist.refl _
      · exact List.nil_sublist _
    · rw [if_neg ha]
      exact hs.trans (List.sublist_append_left _ _)
  · exact hs.trans (List.sublist_append_left _ _)

theorem Chain.Keeps.onePeriod {c : Chain} {found : List (PaymentLine × EnrichedPaymentLine)} (hs : c.Keeps found)
    {values : List PaymentLine} (hsub : (found.map (·.1)).Sublist values)
    (hperiod : OnePeriod periodStart periodEnd values) :
    (found.map (·.2.eventId)).Nodup ∧ ∀ x ∈ found, x.2.billingPeriodEnd = periodEnd := by
  have hcopy : ∀ x ∈ found, x.2.eventId = x.1.eventId ∧ x.2.billingPeriodEnd = x.1.billingPeriodEnd := by
    intro x hx
    obtain ⟨_, _, -, -, hline⟩ := resolution_found.mp (hs.resolved x hx)
    rw [hline]
    exact ⟨rfl, rfl⟩
  refine ⟨?_, fun x hx => (hcopy x hx).2.trans (hperiod.ends _ (hsub.subset (List.mem_map_of_mem hx)))⟩
  have hids : found.map (·.2.eventId) = (found.map (·.1)).map (·.eventId) := by
    rw [List.map_map]
    exact List.map_congr_left fun x hx => (hcopy x hx).1
  rw [hids]
  exact (hsub.map _).nodup hperiod.ids

include hone

theorem run_keeps (hperiod : OnePeriod periodStart periodEnd (linesOf a es)) {s : Pipeline} {os : List Emitted}
    (h : run Pipeline.step {} es = .ok (s, os)) :
    (s.chains a).Keeps (foundLines a es) ∧ ((foundLines a es).map (·.1)).Sublist (linesOf a es) := by
  suffices hall : (s.chains a).resolution.From (costRowsOf a es) ∧ (s.chains a).Keeps (foundLines a es) ∧
      ((foundLines a es).map (·.1)).Sublist (linesOf a es) from hall.2
  refine run_prefix (I := fun p t _ => (t.chains a).resolution.From (costRowsOf a es) ∧
    (t.chains a).Keeps (foundLines a p) ∧ ((foundLines a p).map (·.1)).Sublist (linesOf a p))
    ⟨from_empty _, keeps_empty, List.Sublist.refl _⟩ ?_ h
  intro p e q t out t' o hes hr ⟨hfrom, hkeeps, hsub⟩ hstep
  have hrows := costRowsOf_mem (a := a) hes
  have hpart : (linesOf a p).Sublist (linesOf a es) := by
    rw [hes, linesOf_append]
    exact List.sublist_append_left _ _
  obtain ⟨hids, hends⟩ := hkeeps.onePeriod (hsub.trans hpart) hperiod
  rw [foundLines, observed_concat hr hstep]
  exact ⟨step_from hstep hfrom hrows, step_keeps hstep hfrom hone hrows hids hends hkeeps, noteFound_sublist hsub⟩

end

/-! ## The configuration first -/

/-- Stage A's state and outputs when lines go one by one through A0 and Stage A, which know all the rows that
the chain knows and have retained no line yet. -/
def Chain.configFirst (c : Chain) (now : Instant) (values : List PaymentLine) :
    CostEnrichment × List CostAggregate :=
  (values.flatMap c.resolution.processElement).foldl
    (fun r line => ((r.1.processElement now line).1, r.2 ++ (r.1.processElement now line).2))
    ({ c.costEnrichment with costLines := .empty }, [])

theorem foldl_lines {s : CostEnrichment} {now : Instant} {lines : List EnrichedPaymentLine} {d : Date}
    (hids : (lines.map (·.eventId)).Nodup) (hends : ∀ l ∈ lines, l.billingPeriodEnd = d) :
    ∃ costLines, (lines.foldl
        (fun r line => ((r.1.processElement now line).1, r.2 ++ (r.1.processElement now line).2))
        ({ s with costLines := .empty }, ([] : List CostAggregate))).1 = { s with costLines := costLines } ∧
      costLines.entries = lines.map fun l => (l.eventId, l) := by
  induction lines using List.reverseRecOn with
  | nil => exact ⟨.empty, rfl, rfl⟩
  | append_singleton lines line ih =>
    have hids' := hids
    rw [List.map_append] at hids'
    obtain ⟨costLines, hstate, hentries⟩ := ih (List.nodup_append.mp hids').1 fun l hl =>
      hends l (List.mem_append_left _ hl)
    rw [List.foldl_append, List.foldl_cons, List.foldl_nil, hstate]
    exact ⟨_, rfl, retainLine_onePeriod hids hends hentries⟩

/-- The lines taken so far leave Stage A as it is, so that the next one is emitted the same. -/
theorem configFirst_last {c : Chain} {now : Instant} {values : List PaymentLine} {taken : List EnrichedPaymentLine}
    {line : EnrichedPaymentLine} {d : Date} (hids : (taken.map (·.eventId)).Nodup)
    (hends : ∀ l ∈ taken, l.billingPeriodEnd = d)
    (hresolved : values.flatMap c.resolution.processElement = taken ++ [line])
    (hlines : c.costEnrichment.costLines.entries = taken.map fun l => (l.eventId, l)) {cost : CostAggregate}
    (hemit : (c.costEnrichment.processElement now line).2 = [cost]) :
    (c.configFirst now values).2.getLast? = some cost := by
  obtain ⟨costLines, hstate, hentries⟩ : ∃ costLines, _ = { c.costEnrichment with costLines := costLines } ∧ _ :=
    foldl_lines hids hends
  obtain rfl : costLines = c.costEnrichment.costLines := Dict.ext (hentries.trans hlines.symm)
  rw [Chain.configFirst, hresolved, List.foldl_append, List.foldl_cons, List.foldl_nil, hstate]
  change (_ ++ (c.costEnrichment.processElement now line).2).getLast? = _
  rw [hemit, List.getLast?_concat]

/-- The aggregate that Stage A emits counts the lines that found their definition and rule at A0, all of them
and no other, as if the configuration had come first and these lines alone after it. -/
theorem found_lines_counted {a : String} {periodStart periodEnd : Date} {es : List (Env × PipelineEvent)}
    (hperiod : OnePeriod periodStart periodEnd (linesOf a es)) (hone : OneRowPerDefinition (costRowsOf a es))
    {s : Pipeline} {os : List Emitted} (h : run Pipeline.step {} es = .ok (s, os)) {cause : Cause}
    {line : EnrichedPaymentLine} {rest : List (Cause × EnrichedPaymentLine)}
    (hq : (s.chains a).toCostEnrichment = (cause, line) :: rest) {profile : PropertyPricingProfile}
    (hprofile : (s.chains a).costEnrichment.segments.get? a = some profile) {strategy : PricingStrategy}
    (hstrategy : (s.chains a).costEnrichment.strategies.get? a = some strategy) (now : Instant) :
    ∃ counted waiting cost, (foundLines a es).map (·.1) = counted ++ waiting ∧ waiting.length = rest.length ∧
      ((s.chains a).costEnrichment.processElement now line).2 = [cost] ∧
      cost.costLinesCount = counted.length ∧
      ((s.chains a).configFirst now counted).2.getLast? = some cost := by
  obtain ⟨hkeeps, hsub⟩ := run_keeps hone hperiod h
  obtain ⟨hids, hends⟩ := hkeeps.onePeriod hsub hperiod
  obtain ⟨done, later, taken, hsplit, hdone, hlater, -, hlines⟩ := hkeeps.split hq
  obtain ⟨hdone_ids, hdone_ends⟩ := onePeriod_part hids hends hsplit hdone
  have hresolved : (done.map (·.1)).flatMap (s.chains a).resolution.processElement = taken ++ [line] := by
    rw [← hdone, List.flatMap_map, List.flatMap_congr fun x hx =>
      hkeeps.resolved x (hsplit ▸ List.mem_append_left _ hx)]
    exact List.map_eq_flatMap.symm
  have hline : line.apartmentId = a :=
    ((run_owned owned_empty h).lines a (cause, line) (hq ▸ List.mem_cons_self ..)).2
  obtain ⟨cost, hemit, hcount⟩ := processElement_onePeriod hdone_ids hdone_ends hlines
    (by rw [hline]; exact hprofile) (by rw [hline]; exact hstrategy) now
  have hlength : (done.map (·.1)).length = (taken ++ [line]).length := by
    rw [List.length_map, ← hdone, List.length_map]
  rw [List.map_append] at hdone_ids
  refine ⟨done.map (·.1), later.map (·.1), cost, by rw [hsplit, List.map_append], ?_, hemit, ?_, ?_⟩
  · rw [List.length_map, hlater]
  · exact hcount.trans hlength.symm
  · exact configFirst_last (List.nodup_append.mp hdone_ids).1
      (fun l hl => hdone_ends l (List.mem_append_left _ hl)) hresolved hlines hemit

/-! ## A line that comes too early -/

def hastyFlat : List (Env × PipelineEvent) :=
  jobFrom 0 (.payment (flatLine "e1" 900 0) :: flatRows ++ [.payment (flatLine "e2" 600 10)])

theorem hastyFlat_period : OnePeriod (toordinal 2026 9 1) (toordinal 2026 9 30) (linesOf "a1" hastyFlat) := by
  have hlines : linesOf "a1" hastyFlat = [flatLine "e1" 900 0, flatLine "e2" 600 10] := rfl
  rw [hlines]
  constructor <;> simp [flatLine]

theorem hastyFlat_costRows : OneRowPerDefinition (costRowsOf "a1" hastyFlat) := by
  have hrows : costRowsOf "a1" hastyFlat = [.definition electricityDefinition, .allocationRule
      { costDefinitionId := "electricity", method := .direct, weightConfig := none }] := rfl
  rw [hrows]
  constructor <;> simp

theorem hastyFlat_counted : ∃ s os counted cost, run Pipeline.step {} hastyFlat = .ok (s, os) ∧
    cost.costLinesCount = counted.length ∧ ((s.chains "a1").configFirst 20 counted).2.getLast? = some cost := by
  obtain ⟨counted, _, cost, -, -, -, hcount, hfirst⟩ :=
    found_lines_counted hastyFlat_period hastyFlat_costRows rfl rfl rfl rfl 20
  exact ⟨_, _, counted, cost, rfl, hcount, hfirst⟩

theorem hasty_line_lost :
    ¬ ∀ (a : String) (periodStart periodEnd : Date) (es : List (Env × PipelineEvent)) (s : Pipeline)
      (os : List Emitted) (cause : Cause) (line : EnrichedPaymentLine) (now : Instant),
      OnePeriod periodStart periodEnd (linesOf a es) → OneRowPerDefinition (costRowsOf a es) →
      OneRowPerApartment (apartmentRowsOf a es) → run Pipeline.step {} es = .ok (s, os) →
      (∀ v ∈ linesOf a es, ((s.chains a).resolution.processElement v).isEmpty = false) →
      (s.chains a).toCostEnrichment = [(cause, line)] →
      ((s.chains a).costEnrichment.segments.get? a).isSome →
      ((s.chains a).costEnrichment.strategies.get? a).isSome →
      ∃ cost, ((s.chains a).costEnrichment.processElement now line).2 = [cost] ∧
        cost.costLinesCount = (linesOf a es).length := by
  intro h
  have hrows : OneRowPerApartment (apartmentRowsOf "a1" hastyFlat) := by
    have heq : apartmentRowsOf "a1" hastyFlat =
        [.segment (flatSegment "Gracia"), .strategy (flatStrategy 1 (20 / 100))] := rfl
    rw [heq]
    constructor <;> simp
  obtain ⟨cost, hcost, hcount⟩ := h "a1" _ _ hastyFlat _ _ _ _ 20 hastyFlat_period hastyFlat_costRows hrows rfl
    (by decide +kernel) rfl rfl rfl
  have hone : cost.costLinesCount = 1 := by
    have := congrArg (List.map (·.costLinesCount)) hcost
    exact (List.singleton_inj.mp this).symm
  rw [hone] at hcount
  exact absurd hcount (by decide)

end PriceEngine
