import PriceEngine.EndToEnd
import PriceEngine.Marts

/-!
# The marts of a run

Whatever the sink, the consumer and compactions have done when a model is built:
its keys are unique, what it says of a night or an apartment is of the latest
decision, and no decision that the consumer has passed is missing. Once the
consumer has passed them all, the cold path shows for each night the decision
that the table of the hot path has.
-/

namespace PriceEngine

namespace Marts

/-! ## Staged decisions -/

def staged (d : PriceDecision) (ingestedAt : Instant) : StagedDecision where
  decisionId := d.decisionId
  apartmentId := d.apartmentId
  apartmentReference := d.apartmentReference
  targetDate := d.targetDate
  decidedAt := d.decidedAt
  costBreakdown := d.costInputs.costBreakdown.map ConceptAmount.row
  marketArea := d.marketInputs.marketArea
  floorPolicy := d.calculation.floorPolicy.text
  ruleApplied := d.calculation.ruleApplied.text
  channelPriceMatrix := d.calculation.channelPriceMatrix.map ChannelPriceCandidate.row
  suggestedPriceEur := d.output.suggestedPriceEur
  effectiveMargin := d.output.effectiveMargin
  ingestedAt := ingestedAt

theorem stgPriceDecision_row (d : PriceDecision) (eventName : String) (ingestedAt : Instant) :
    stgPriceDecision (d.row eventName ingestedAt) = some (staged d ingestedAt) := rfl

/-- What a scan stages: rows of decisions that may be there, one at most of each, and one of each that must. -/
structure Staged (may must : PriceDecision → Prop) (rows : List StagedDecision) : Prop where
  of : ∀ r ∈ rows, ∃ d, may d ∧ ∃ ingestedAt, r = staged d ingestedAt
  once : (rows.map StagedDecision.decisionId).Nodup
  has : ∀ d, must d → ∃ ingestedAt, staged d ingestedAt ∈ rows

theorem mapM_eq_filterMap {α β : Type*} {f : α → Option β} {l : List α} (h : ∀ x ∈ l, (f x).isSome) :
    l.mapM f = some (l.filterMap f) := by
  induction l with
  | nil => rfl
  | cons x l ih =>
    obtain ⟨y, hy⟩ := Option.isSome_iff_exists.mp (h x List.mem_cons_self)
    rw [List.mapM_cons, hy, ih fun z hz => h z (List.mem_cons_of_mem _ hz), List.filterMap_cons_some hy]
    rfl

variable {t : NumberText} {deserialize : AttributeValue → Except PyError Value} {clock : Instant → ℤ}
  {assign : String → ℕ} {place sequenceNumber : ℕ → String}

section
variable {stream : String → List StreamRecord} {ds : List PriceDecision} {l : Lakehouse}
  (h : Ingested t clock stream ds l)
include h

theorem staged_of_row {row : Value} (hrow : row ∈ l.table.content) : ∃ d, (d ∈ ds ∧ Streamed t clock stream d) ∧
    ∃ ingestedAt, stgPriceDecision row = some (staged d ingestedAt) ∧ decisionId row = some d.decisionId := by
  obtain ⟨d, hd, hstreamed, eventName, ingestedAt, rfl⟩ := h.of row hrow
  exact ⟨d, ⟨hd, hstreamed⟩, ingestedAt, stgPriceDecision_row d eventName ingestedAt, rfl⟩

theorem fctPriceDecision_staged (order : ScanOrder) : ∃ rows, fctPriceDecision order l.table.content = some rows ∧
    Staged (fun d => d ∈ ds ∧ Streamed t clock stream d)
      (fun d => d ∈ ds ∧ Streamed t clock (settledRecords stream l.checkpoints) d) rows := by
  have hperm := order.perm l.table.content
  have hstaged : ∀ row ∈ order.arrange l.table.content, _ := fun row hrow => staged_of_row h (hperm.mem_iff.mp hrow)
  refine ⟨_, mapM_eq_filterMap fun row hrow => ?_, fun r hr => ?_, ?_, fun d hd => ?_⟩
  · obtain ⟨d, -, ingestedAt, hstg, -⟩ := hstaged row hrow
    exact Option.isSome_iff_exists.mpr ⟨_, hstg⟩
  · obtain ⟨row, hrow, hr⟩ := List.mem_filterMap.mp hr
    obtain ⟨d, hd, ingestedAt, hstg, -⟩ := hstaged row hrow
    exact ⟨d, hd, ingestedAt, Option.some.inj (hr.symm.trans hstg)⟩
  · -- the ids of the staged rows are those of the rows
    have hids : (((order.arrange l.table.content).filterMap stgPriceDecision).map StagedDecision.decisionId).map some =
        (order.arrange l.table.content).map decisionId := by
      rw [List.map_map, List.map_filterMap, ← List.filterMap_eq_map]
      refine List.filterMap_congr fun row hrow => ?_
      obtain ⟨d, -, ingestedAt, hstg, hid⟩ := hstaged row hrow
      rw [hstg, Function.comp_apply, hid]
      rfl
    refine List.Nodup.of_map some ?_
    rw [hids]
    exact (hperm.map _).nodup_iff.mpr h.once
  · obtain ⟨hd, item, shard, hitem, r, hr, himage⟩ := hd
    obtain ⟨ingestedAt, hrow⟩ := h.settled d hd item shard hitem r hr himage
    exact ⟨ingestedAt, List.mem_filterMap.mpr
      ⟨_, hperm.mem_iff.mpr hrow, stgPriceDecision_row d r.eventName ingestedAt⟩⟩

end

/-! ## What the models say -/

/-- The models as they are built from the rows of one scan: their keys are unique, every night, day and apartment
of a decision that must be there has its row, and the row is of a decision at least as late. -/
structure Exact (cast : CastDate) (may must : PriceDecision → Prop) (rows : List StagedDecision) : Prop where
  decision_of : ∀ r ∈ rows, ∃ d, may d ∧ ∃ ingestedAt, r = staged d ingestedAt
  decision_once : (rows.map StagedDecision.decisionId).Nodup
  decision_has : ∀ d, must d → ∃ ingestedAt, staged d ingestedAt ∈ rows
  alert_iff : ∀ r, r ∈ fctMarginAlert rows ↔ r ∈ rows ∧ r.ruleApplied = RuleApplied.minimumProfitablePrice.text
  night_once : ((fctDailyPrice cast rows).map fun p => (p.apartmentId, p.targetDate, p.snapshotDay)).Nodup
  night_has : ∀ d, must d → ∃ p ∈ fctDailyPrice cast rows,
    p.apartmentId = d.apartmentId ∧ p.targetDate = d.targetDate ∧ p.snapshotDay = cast.date d.decidedAt
  night_latest : ∀ p ∈ fctDailyPrice cast rows, ∃ d, may d ∧ (∃ ingestedAt, p = dailyPrice cast (staged d ingestedAt)) ∧
    ∀ e, must e → e.apartmentId = d.apartmentId → e.targetDate = d.targetDate →
      cast.date e.decidedAt = cast.date d.decidedAt → e.decidedAt ≤ d.decidedAt
  apartment_once : ((dimApartment rows).map Apartment.apartmentId).Nodup
  apartment_has : ∀ r ∈ rows, ∃ a ∈ dimApartment rows, a.apartmentId = r.apartmentId
  apartment_latest : ∀ a ∈ dimApartment rows, ∃ d, may d ∧ (∃ ingestedAt, a = apartmentOf (staged d ingestedAt)) ∧
    ∀ e, must e → e.apartmentId = d.apartmentId → e.decidedAt ≤ d.decidedAt
  alerts_shown : (marginAlerts (fctMarginAlert rows)).Perm (fctMarginAlert rows) ∧
    (marginAlerts (fctMarginAlert rows)).Pairwise fun r r' => r'.decidedAt ≤ r.decidedAt
  costs_latest : ∀ d, must d → ∃ e, may e ∧ e.apartmentId = d.apartmentId ∧
    costBreakdown rows d.apartmentId = frame costColumns (e.costInputs.costBreakdown.map ConceptAmount.row) ∧
    ∀ f, must f → f.apartmentId = d.apartmentId → f.decidedAt ≤ e.decidedAt
  fresh_iff : ∀ u, freshness rows = some u ↔ (∃ r ∈ rows, r.ingestedAt = u) ∧ ∀ r ∈ rows, r.ingestedAt ≤ u

theorem marginAlerts_sorted (alerts : List StagedDecision) :
    (marginAlerts alerts).Pairwise fun r r' => r'.decidedAt ≤ r.decidedAt := by
  refine (List.pairwise_mergeSort (fun r r' r'' hle hle' => ?_) (fun r r' => ?_) alerts).imp of_decide_eq_true
  · exact decide_eq_true ((of_decide_eq_true hle').trans (of_decide_eq_true hle))
  · rw [Bool.or_eq_true, decide_eq_true_eq, decide_eq_true_eq]
    exact le_total r'.decidedAt r.decidedAt

theorem ruleApplied_ne_legacy (rule : RuleApplied) : rule.text ≠ "cost_protected" := by
  cases rule <;> decide

section
variable {may must : PriceDecision → Prop} {rows : List StagedDecision} (h : Staged may must rows)
include h

/-- The greatest row of a key is of a decision, as late as any of the key that must be there. -/
theorem latest_of_greatest {κ : Type*} [DecidableEq κ] {key : StagedDecision → κ} {r : StagedDecision}
    (hr : r ∈ greatestOfEach key StagedDecision.decidedAt rows) : ∃ d, may d ∧ (∃ ingestedAt, r = staged d ingestedAt) ∧
      ∀ e, must e → (∀ ingestedAt, key (staged e ingestedAt) = key r) → e.decidedAt ≤ d.decidedAt := by
  obtain ⟨d, hd, ingestedAt, rfl⟩ := h.of r (mem_of_mem_greatestOfEach hr)
  refine ⟨d, hd, ⟨ingestedAt, rfl⟩, fun e he hkey => ?_⟩
  obtain ⟨ingestedAt', hmem⟩ := h.has e he
  have hle := le_of_mem_greatestOfEach hr hmem
  exact hle (hkey ingestedAt')

/-- The costs that are shown for an apartment are those of a decision as late as any of it that must be there. -/
theorem costBreakdown_latest {d : PriceDecision} (hd : must d) : ∃ e, may e ∧ e.apartmentId = d.apartmentId ∧
    costBreakdown rows d.apartmentId = frame costColumns (e.costInputs.costBreakdown.map ConceptAmount.row) ∧
    ∀ f, must f → f.apartmentId = d.apartmentId → f.decidedAt ≤ e.decidedAt := by
  obtain ⟨ingestedAt, hmem⟩ := h.has d hd
  have hof : staged d ingestedAt ∈ rows.filter fun r => r.apartmentId = d.apartmentId :=
    List.mem_filter.mpr ⟨hmem, decide_eq_true rfl⟩
  obtain ⟨r, hmax⟩ : ∃ r, (rows.filter fun r => r.apartmentId = d.apartmentId).maxOn? StagedDecision.decidedAt = some r :=
    maxOn?_isSome hof
  obtain ⟨hr, ha⟩ := List.mem_filter.mp (List.maxOn?_mem hmax)
  obtain ⟨e, he, ingestedAt', rfl⟩ := h.of r hr
  refine ⟨e, he, of_decide_eq_true ha, ?_, fun f hf hfa => ?_⟩
  · rw [costBreakdown, hmax]
    rfl
  · obtain ⟨ingestedAt'', hmem'⟩ := h.has f hf
    have hle := le_of_maxOn? hmax (List.mem_filter.mpr ⟨hmem', decide_eq_true hfa⟩)
    exact hle

theorem exact (cast : CastDate) : Exact cast may must rows where
  decision_of := h.of
  decision_once := h.once
  decision_has := h.has
  alert_iff r := by
    rw [fctMarginAlert, List.mem_filter]
    refine and_congr_right fun hr => ?_
    obtain ⟨d, -, ingestedAt, rfl⟩ := h.of r hr
    have hlegacy : ¬ (staged d ingestedAt).ruleApplied = "cost_protected" := ruleApplied_ne_legacy _
    rw [Bool.or_eq_true, decide_eq_true_eq, decide_eq_true_eq, or_iff_left hlegacy]
    rfl
  night_once := by
    rw [fctDailyPrice, List.map_map]
    exact nodup_keys_greatestOfEach
  night_has d hd := by
    obtain ⟨ingestedAt, hmem⟩ := h.has d hd
    obtain ⟨r, hr, hkey⟩ : ∃ r ∈ intLatestDecisionPerNight cast rows,
        (r.apartmentId, r.targetDate, cast.date r.decidedAt) = (d.apartmentId, d.targetDate, cast.date d.decidedAt) :=
      exists_mem_greatestOfEach hmem
    obtain ⟨ha, hdate⟩ := Prod.mk.inj hkey
    obtain ⟨hnight, hday⟩ := Prod.mk.inj hdate
    exact ⟨_, List.mem_map_of_mem hr, ha, hnight, hday⟩
  night_latest p hp := by
    obtain ⟨r, hr, rfl⟩ := List.mem_map.mp hp
    obtain ⟨d, hd, ⟨ingestedAt, rfl⟩, hlatest⟩ := latest_of_greatest h hr
    refine ⟨d, hd, ⟨ingestedAt, rfl⟩, fun e he ha hnight hday => hlatest e he fun ingestedAt' => ?_⟩
    exact Prod.ext ha (Prod.ext hnight hday)
  apartment_once := by
    rw [dimApartment, List.map_map]
    exact nodup_keys_greatestOfEach
  apartment_has r hr := by
    obtain ⟨r', hr', hkey⟩ : ∃ r' ∈ greatestOfEach StagedDecision.apartmentId StagedDecision.decidedAt rows,
        r'.apartmentId = r.apartmentId := exists_mem_greatestOfEach hr
    exact ⟨_, List.mem_map_of_mem hr', hkey⟩
  apartment_latest a ha := by
    obtain ⟨r, hr, rfl⟩ := List.mem_map.mp ha
    obtain ⟨d, hd, ⟨ingestedAt, rfl⟩, hlatest⟩ := latest_of_greatest h hr
    exact ⟨d, hd, ⟨ingestedAt, rfl⟩, fun e he ha => hlatest e he fun _ => ha⟩
  alerts_shown := ⟨List.mergeSort_perm _ _, marginAlerts_sorted _⟩
  costs_latest _ hd := costBreakdown_latest h hd
  fresh_iff u := by
    rw [freshness, List.max?_eq_some_iff, List.mem_map]
    exact and_congr_right fun _ => List.forall_mem_map

end

theorem streamed_iff {log : List (Change DecisionItem)} {d : PriceDecision} :
    Streamed t clock (streamOf place sequenceNumber log) d ↔
      ∃ item ∈ log.map (·.item), decisionItem t clock d = .ok item := by
  constructor
  · rintro ⟨item, shard, hitem, r, hr, himage⟩
    obtain ⟨i, c, hc, -, rfl⟩ := mem_streamOf.mp hr
    have heq : c.item = item := DecisionItem.ext_attributes (Option.some.inj himage)
    exact ⟨item, heq ▸ List.mem_map_of_mem (List.mem_of_getElem? hc), hitem⟩
  · rintro ⟨item, hmem, hitem⟩
    obtain ⟨c, hc, rfl⟩ := List.mem_map.mp hmem
    obtain ⟨i, hi⟩ := List.mem_iff_getElem?.mp hc
    exact ⟨c.item, place i, hitem, _, mem_streamOf.mpr ⟨i, c, hi, rfl, rfl⟩, rfl⟩

/-- Whenever the models are built, and whatever the sink, the consumer and compactions have done: they say of every
decision that the consumer has passed what they should, and of none that has not been recorded. -/
theorem marts_exact (hdes : Deserializes t deserialize) (hseq : Function.Injective sequenceNumber)
    (hne : ∀ i, sequenceNumber i ≠ "") {es : List SinkEvent} {s : DecisionTable} {os : List (Written DecisionItem)}
    (h : run (sinkStep t clock assign) Writing.start es = .ok (s, os))
    (hids : ((decisions es).map (·.decisionId)).Nodup)
    (hcalendar : ∀ d ∈ decisions es, d.OnCalendar clock)
    (hnumbers : ∀ d ∈ decisions es, t.Survives (d.modelDump clock))
    {fs : List LakehouseEvent} {l : Lakehouse} {batches : List Batch}
    (hl : run (lakehouseStep (streamOf place sequenceNumber s.log) t deserialize) Lakehouse.empty fs =
      .ok (l, batches)) (order : ScanOrder) (cast : CastDate) :
    ∃ rows, fctPriceDecision order l.table.content = some rows ∧
      Exact cast (fun d => d ∈ decisions es ∧ Streamed t clock (streamOf place sequenceNumber s.log) d)
        (fun d => d ∈ decisions es ∧
          Streamed t clock (settledRecords (streamOf place sequenceNumber s.log) l.checkpoints) d) rows := by
  have hingested := run_ingested hdes hseq hne h hids hcalendar hnumbers hl
  obtain ⟨rows, hrows, hstaged⟩ := fctPriceDecision_staged hingested order
  exact ⟨rows, hrows, exact hstaged cast⟩

def tableOrder : ScanOrder := ⟨id, fun _ => List.Perm.refl _⟩

def utcDate : CastDate := ⟨Instant.date, fun _ _ h => Instant.date_mono h⟩

theorem eq_laterDecision {d : PriceDecision} (hd : d ∈ nightDecisions) (hnight : d.targetDate = laterDecision.targetDate)
    (hle : laterDecision.decidedAt ≤ d.decidedAt) : d = laterDecision := by
  simp only [nightDecisions, List.mem_cons, List.not_mem_nil, or_false] at hd
  rcases hd with rfl | rfl | rfl
  · exact absurd hle (by decide +kernel)
  · rfl
  · exact absurd hnight (by decide +kernel)

/-- Three decisions are there, and the later one is the price of its night. -/
theorem lost_answer_marts : ∃ (l : Lakehouse) (rows : _), fctPriceDecision tableOrder l.table.content = some rows ∧
    (∀ d ∈ nightDecisions, ∃ ingestedAt, staged d ingestedAt ∈ rows) ∧
    ∃ p ∈ fctDailyPrice utcDate rows, p.targetDate = overriddenDecision.targetDate ∧
      p.decisionId = laterDecision.decisionId := by
  obtain ⟨s, os, l, batches, hsink, hrecorded, -, -, hl, hpassed⟩ := lost_answer_run_lakehouse
  obtain ⟨rows, hrows, hexact⟩ := marts_exact (typeDeserializer_deserializes ordinaryNumbers) tallies_injective tallies_ne
    hsink (by decide +kernel) nightDecisions_calendar nightDecisions_survive hl tableOrder utcDate
  rw [show settledRecords (streamOf (fun _ => "shard") tallies s.log) l.checkpoints =
    streamOf (fun _ => "shard") tallies s.log from funext hpassed] at hexact
  have hmust : ∀ d ∈ nightDecisions, d ∈ decisions lostAnswerEvents ∧
      Streamed ordinaryNumbers (fun _ => 120) (streamOf (fun _ => "shard") tallies s.log) d := fun d hd =>
    ⟨hd, streamed_iff.mpr (mem_recorded_nights hrecorded hd)⟩
  have hlater : laterDecision ∈ nightDecisions := by simp [nightDecisions]
  refine ⟨l, rows, hrows, fun d hd => hexact.decision_has d (hmust d hd), ?_⟩
  obtain ⟨p, hp, ha, hnight, hday⟩ := hexact.night_has laterDecision (hmust _ hlater)
  obtain ⟨d, hd, ⟨ingestedAt, rfl⟩, hlatest⟩ := hexact.night_latest p hp
  have hle := hlatest laterDecision (hmust _ hlater) ha.symm hnight.symm hday.symm
  obtain rfl := eq_laterDecision hd.1 hnight hle
  exact ⟨_, hp, rfl, rfl⟩

/-! ## The hot path and the cold path -/

/-- The decisions of a night are decided later the later they reach the sink. -/
def NightsInOrder (ds : List PriceDecision) : Prop :=
  ds.Pairwise fun d e => d.apartmentId = e.apartmentId → d.targetDate = e.targetDate → d.decidedAt < e.decidedAt

section
variable {ds : List PriceDecision} (hids : (ds.map (·.decisionId)).Nodup)
include hids

theorem eq_of_item {d e : PriceDecision} (hd : d ∈ ds) (he : e ∈ ds) {item : DecisionItem}
    (hitem : decisionItem t clock d = .ok item) (hitem' : decisionItem t clock e = .ok item) : d = e := by
  have hid : d.decisionId = e.decisionId :=
    Option.some.inj ((isItem hitem).id.symm.trans (isItem hitem').id)
  exact List.inj_on_of_nodup_map hids hd he hid

theorem items_in_order (hclock : NightsInOrder ds) : (itemsOf t clock ds).Pairwise fun x y =>
    ∀ d ∈ ds, ∀ e ∈ ds, decisionItem t clock d = .ok x → decisionItem t clock e = .ok y →
      d.apartmentId = e.apartmentId → d.targetDate = e.targetDate → d.decidedAt < e.decidedAt := by
  refine List.pairwise_filterMap.mpr (hclock.imp_of_mem fun {d e} hd he hlt x hx y hy d' hd' e' he' hx' hy' => ?_)
  obtain rfl := eq_of_item hids hd hd' (toOption_eq_some.mp hx) hx'
  obtain rfl := eq_of_item hids he he' (toOption_eq_some.mp hy) hy'
  exact hlt

end

/-- What the table has for a night is the latest of the decisions recorded for it. -/
theorem latest_stored {es : List SinkEvent} {s : DecisionTable} {os : List (Written DecisionItem)}
    (h : run (sinkStep t clock assign) Writing.start es = .ok (s, os))
    (hids : ((decisions es).map (·.decisionId)).Nodup) (hclock : NightsInOrder (decisions es))
    {k : String × String} {item : DecisionItem} (hstore : s.store.get? k = some item) :
    ∃ d ∈ decisions es, decisionItem t clock d = .ok item ∧ (d.apartmentId, isoformat d.targetDate) = k ∧
      item ∈ s.recorded ∧ ∀ e ∈ decisions es, ∀ x ∈ s.recorded, decisionItem t clock e = .ok x →
        e.apartmentId = d.apartmentId → e.targetDate = d.targetDate → e = d ∨ e.decidedAt < d.decidedAt := by
  obtain ⟨⟨hrecorded, -⟩, htaken⟩ := run_sink h
  have hlast : (s.recorded.filter fun x => (x.apartmentId, x.targetDate) = k).getLast? = some item := by
    rw [← hstore, hrecorded.stored]
    rfl
  obtain ⟨done, hdone⟩ := List.getLast?_eq_some_iff.mp hlast
  have hin : item ∈ s.recorded.filter fun x => (x.apartmentId, x.targetDate) = k := List.mem_of_getLast? hlast
  obtain ⟨hitemRecorded, hkey⟩ := List.mem_filter.mp hin
  obtain rfl := of_decide_eq_true hkey
  obtain ⟨d, hd, hitem⟩ := mem_itemsOf (htaken.subset (hrecorded.mem_given hitemRecorded))
  have his := isItem hitem
  refine ⟨d, hd, hitem, ?_, hitemRecorded, fun e he x hx hxe ha hnight => ?_⟩
  · rw [his.apartmentId, his.targetDate]
  · have hxis := isItem hxe
    have hxin : x ∈ done ++ [item] := by
      rw [← hdone]
      refine List.mem_filter.mpr ⟨hx, decide_eq_true ?_⟩
      rw [hxis.apartmentId, hxis.targetDate, his.apartmentId, his.targetDate, ha, hnight]
    -- the night's items are recorded in the order in which its decisions reached the sink
    have hsub : (done ++ [item]).Sublist (itemsOf t clock (decisions es)) := by
      rw [← hdone]
      refine ((hrecorded.filter_sublist (assign item.apartmentId) fun x hx => ?_).trans
        List.filter_sublist).trans htaken
      rw [Writers.writer, ← (Prod.mk.inj (of_decide_eq_true hx)).1]
      rfl
    have hpairwise := (items_in_order hids hclock).sublist hsub
    rcases List.mem_append.mp hxin with hxdone | hxlast
    · exact .inr ((List.pairwise_append.mp hpairwise).2.2 x hxdone item (List.mem_singleton_self _) e he d hd hxe
        hitem ha hnight)
    · obtain rfl := List.mem_singleton.mp hxlast
      exact .inl (eq_of_item hids he hd hxe hitem)

/-- The price of its night on the latest day. -/
structure Newest (prices : List DailyPrice) (p : DailyPrice) : Prop where
  mem : p ∈ prices
  newest : ∀ q ∈ prices, q.apartmentId = p.apartmentId → q.targetDate = p.targetDate →
    q = p ∨ q.snapshotDay < p.snapshotDay

section
variable {may must : PriceDecision → Prop} {rows : List StagedDecision} (h : Staged may must rows) {d : PriceDecision}
  {ingestedAt : Instant} (hd : staged d ingestedAt ∈ rows)
  (hlatest : ∀ e, may e → e.apartmentId = d.apartmentId → e.targetDate = d.targetDate →
    e = d ∨ e.decidedAt < d.decidedAt)
include h hd hlatest

/-- A row of the night is the decision's, or an earlier one. -/
theorem eq_or_earlier {r : StagedDecision} (hr : r ∈ rows) (ha : r.apartmentId = d.apartmentId)
    (hnight : r.targetDate = d.targetDate) : r = staged d ingestedAt ∨ r.decidedAt < d.decidedAt := by
  obtain ⟨e, he, ingestedAt', rfl⟩ := h.of r hr
  refine (hlatest e he ha hnight).imp (fun heq => ?_) id
  subst heq
  exact List.inj_on_of_nodup_map h.once hr hd rfl

theorem newest_dailyPrice (cast : CastDate) :
    Newest (fctDailyPrice cast rows) (dailyPrice cast (staged d ingestedAt)) := by
  have hkept : staged d ingestedAt ∈ intLatestDecisionPerNight cast rows := by
    refine mem_greatestOfEach_of_lt hd fun r hr hkey hne => ?_
    obtain ⟨ha, hdate⟩ := Prod.mk.inj hkey
    exact (eq_or_earlier h hd hlatest hr ha (Prod.mk.inj hdate).1).resolve_left hne
  refine ⟨List.mem_map_of_mem hkept, fun q hq ha hnight => ?_⟩
  obtain ⟨r, hr, rfl⟩ := List.mem_map.mp hq
  refine (eq_or_earlier h hd hlatest (mem_of_mem_greatestOfEach hr) ha hnight).imp (congrArg _) fun hlt => ?_
  refine lt_of_le_of_ne (cast.mono _ _ hlt.le) fun hday => ?_
  -- on one day the later decision would have been kept
  have hle := le_of_mem_greatestOfEach hr hd
  exact absurd (hle (Prod.ext ha.symm (Prod.ext hnight.symm hday.symm))) (not_le.mpr hlt)

theorem channelPricing_eq : channelPricing rows d.apartmentId d.targetDate =
    frame channelColumns (d.calculation.channelPriceMatrix.map ChannelPriceCandidate.row) := by
  have hmax : (rows.filter fun r => r.apartmentId = d.apartmentId ∧ r.targetDate = d.targetDate).maxOn?
      StagedDecision.decidedAt = some (staged d ingestedAt) := by
    refine maxOn?_eq_of_lt (List.mem_filter.mpr ⟨hd, decide_eq_true ⟨rfl, rfl⟩⟩) fun r hr hne => ?_
    obtain ⟨hr, hnight⟩ := List.mem_filter.mp hr
    obtain ⟨ha, hnight⟩ := of_decide_eq_true hnight
    exact (eq_or_earlier h hd hlatest hr ha hnight).resolve_left hne
  rw [channelPricing, hmax]
  rfl

end

theorem stored_of_recorded {es : List SinkEvent} {s : DecisionTable} {os : List (Written DecisionItem)}
    (h : run (sinkStep t clock assign) Writing.start es = .ok (s, os)) {d : PriceDecision}
    (hd : Streamed t clock (streamOf place sequenceNumber s.log) d) :
    ∃ item, s.store.get? (d.apartmentId, isoformat d.targetDate) = some item := by
  obtain ⟨x, hx, hitem⟩ := streamed_iff.mp hd
  obtain ⟨item, hentry⟩ := exists_entry (run_sink h).1.recorded hx
  have his := isItem hitem
  rw [← his.apartmentId, ← his.targetDate]
  exact ⟨item, Dict.mem_entries.mp (List.mem_of_mem_filter hentry)⟩

theorem stored_of_farthest {es : List SinkEvent} {s : DecisionTable} {os : List (Written DecisionItem)}
    (h : run (sinkStep t clock assign) Writing.start es = .ok (s, os)) {ds : List PriceDecision} {a : String}
    {d : PriceDecision} (hd : Farthest t clock ds s.recorded a d) : ∃ item,
      decisionItem t clock d = .ok item ∧ s.store.get? (d.apartmentId, isoformat d.targetDate) = some item := by
  obtain ⟨before, item, after, hsplit, hitem, hlast⟩ := hd.last
  have his := isItem hitem
  refine ⟨item, hitem, ?_⟩
  have hnone : (after.filter fun x => (x.apartmentId, x.targetDate) = (d.apartmentId, isoformat d.targetDate)) = [] := by
    refine List.filter_eq_nil_iff.mpr fun x hx hkey => ?_
    obtain ⟨ha, hnight⟩ := Prod.mk.inj (of_decide_eq_true hkey)
    exact hlast x hx (ha.trans hd.apartmentId) (hnight.trans his.targetDate.symm)
  have hin : decide ((item.apartmentId, item.targetDate) = (d.apartmentId, isoformat d.targetDate)) = true := by
    rw [his.apartmentId, his.targetDate, decide_eq_true_eq]
  have hstored : s.store.get? (d.apartmentId, isoformat d.targetDate) = (s.recorded.filter fun x =>
      (x.apartmentId, x.targetDate) = (d.apartmentId, isoformat d.targetDate)).getLast? :=
    (run_sink h).1.recorded.stored _
  rw [hstored, hsplit, List.filter_append, List.filter_cons, if_pos hin, hnone, List.getLast?_concat]

section
variable {es : List SinkEvent} {s : DecisionTable} {os : List (Written DecisionItem)}
  (h : run (sinkStep t clock assign) Writing.start es = .ok (s, os))
  (hids : ((decisions es).map (·.decisionId)).Nodup) (hclock : NightsInOrder (decisions es))
  {may : PriceDecision → Prop} {rows : List StagedDecision}
  (hstaged : Staged may
    (fun d => d ∈ decisions es ∧ Streamed t clock (streamOf place sequenceNumber s.log) d) rows)
include h hids hclock hstaged

/-- An item of the table is of the latest of its night's decisions, which is staged. -/
theorem stored_staged {k : String × String} {item : DecisionItem} (hstore : s.store.get? k = some item) :
    ∃ d ∈ decisions es, ∃ ingestedAt, decisionItem t clock d = .ok item ∧ (d.apartmentId, isoformat d.targetDate) = k ∧
      staged d ingestedAt ∈ rows ∧
      ∀ e, (e ∈ decisions es ∧ Streamed t clock (streamOf place sequenceNumber s.log) e) →
        e.apartmentId = d.apartmentId → e.targetDate = d.targetDate → e = d ∨ e.decidedAt < d.decidedAt := by
  obtain ⟨d, hd, hitem, hkey, hrecorded, hlatest⟩ := latest_stored h hids hclock hstore
  obtain ⟨ingestedAt, hmem⟩ := hstaged.has d ⟨hd, streamed_iff.mpr ⟨item, hrecorded, hitem⟩⟩
  refine ⟨d, hd, ingestedAt, hitem, hkey, hmem, fun e he ha hnight => ?_⟩
  obtain ⟨x, hx, hxe⟩ := streamed_iff.mp he.2
  exact hlatest e he.1 x hx hxe ha hnight

end

/-- When the consumer has passed all of the stream and the decisions of a night were decided in the order in which they
reached the sink, the two paths agree: for each item of the table, its decision's price is the newest of its night
in `fct_daily_price` and its channels are those shown for the night; the apartments listed are those with an item; and the
decision that is an apartment's current price is in its chart, which has no row of a later night, nor another of that
night on that day or a later one. -/
theorem cold_path_agrees (hdes : Deserializes t deserialize) (hseq : Function.Injective sequenceNumber)
    (hne : ∀ i, sequenceNumber i ≠ "") {es : List SinkEvent} {s : DecisionTable} {os : List (Written DecisionItem)}
    (h : run (sinkStep t clock assign) Writing.start es = .ok (s, os))
    (hids : ((decisions es).map (·.decisionId)).Nodup) (hclock : NightsInOrder (decisions es))
    (hcalendar : ∀ d ∈ decisions es, d.OnCalendar clock)
    (hnumbers : ∀ d ∈ decisions es, t.Survives (d.modelDump clock))
    {fs : List LakehouseEvent} {l : Lakehouse} {batches : List Batch}
    (hl : run (lakehouseStep (streamOf place sequenceNumber s.log) t deserialize) Lakehouse.empty fs =
      .ok (l, batches))
    (hpassed : ∀ shard, settledRecords (streamOf place sequenceNumber s.log) l.checkpoints shard =
      streamOf place sequenceNumber s.log shard) (order : ScanOrder) (cast : CastDate) :
    ∃ rows, fctPriceDecision order l.table.content = some rows ∧
      (∀ k item, s.store.get? k = some item → ∃ d ∈ decisions es, ∃ ingestedAt, decisionItem t clock d = .ok item ∧
        Newest (fctDailyPrice cast rows) (dailyPrice cast (staged d ingestedAt)) ∧
        channelPricing rows d.apartmentId d.targetDate =
          frame channelColumns (d.calculation.channelPriceMatrix.map ChannelPriceCandidate.row)) ∧
      (∀ a, a ∈ listApartmentIds (dimApartment rows) ↔ ∃ night item, s.store.get? (a, night) = some item) ∧
      ∀ a ∈ listApartmentIds (dimApartment rows), ∃ d ∈ decisions es, ∃ ingestedAt,
        queryLatestDecision deserialize s.store a = .ok (some ((d.modelDump clock).received t)) ∧
        dailyPrice cast (staged d ingestedAt) ∈ priceEvolution (fctDailyPrice cast rows) a ∧
        ∀ p ∈ priceEvolution (fctDailyPrice cast rows) a, p = dailyPrice cast (staged d ingestedAt) ∨
          p.targetDate < d.targetDate ∨ p.targetDate = d.targetDate ∧ p.snapshotDay < cast.date d.decidedAt := by
  have hingested := run_ingested hdes hseq hne h hids hcalendar hnumbers hl
  obtain ⟨rows, hrows, hstaged⟩ := fctPriceDecision_staged hingested order
  rw [show settledRecords (streamOf place sequenceNumber s.log) l.checkpoints = streamOf place sequenceNumber s.log from
    funext hpassed] at hstaged
  have hexact := exact hstaged cast
  have hlisted : ∀ a, a ∈ listApartmentIds (dimApartment rows) ↔ ∃ night item, s.store.get? (a, night) = some item := by
    intro a
    rw [listApartmentIds, List.mem_mergeSort, List.mem_map]
    constructor
    · rintro ⟨apartment, hapartment, rfl⟩
      obtain ⟨d, hd, ⟨ingestedAt, rfl⟩, -⟩ := hexact.apartment_latest apartment hapartment
      exact ⟨_, stored_of_recorded h hd.2⟩
    · rintro ⟨night, item, hstore⟩
      obtain ⟨d, -, ingestedAt, -, hkey, hmem, -⟩ := stored_staged h hids hclock hstaged hstore
      obtain ⟨apartment, hapartment, ha⟩ := hexact.apartment_has _ hmem
      exact ⟨apartment, hapartment, ha.trans (Prod.mk.inj hkey).1⟩
  refine ⟨rows, hrows, fun k item hstore => ?_, hlisted, fun a ha => ?_⟩
  · obtain ⟨d, hd, ingestedAt, hitem, -, hmem, hlatest⟩ := stored_staged h hids hclock hstaged hstore
    exact ⟨d, hd, ingestedAt, hitem, newest_dailyPrice hstaged hmem hlatest cast, channelPricing_eq hstaged hmem hlatest⟩
  · obtain ⟨night, item, hstore⟩ := (hlisted a).mp ha
    obtain ⟨⟨hrecorded, -⟩, htaken⟩ := run_sink h
    have hrange : ∀ d ∈ decisions es, Date.InRange d.targetDate := fun d hd => (hcalendar d hd).dates _ (by
      simp [PriceDecisionRecord.dates])
    rcases queryLatestDecision_eq hrecorded htaken.subset hrange hdes hnumbers a with ⟨-, hno⟩ | ⟨d, hfarthest, -, hquery⟩
    · obtain ⟨d, -, hitem, hkey, hmem, -⟩ := latest_stored h hids hclock hstore
      exact absurd ((isItem hitem).apartmentId.trans (Prod.mk.inj hkey).1) (hno item hmem)
    · obtain ⟨item', hitem', hstore'⟩ := stored_of_farthest h hfarthest
      obtain ⟨d', hd', ingestedAt, hitem'', -, hmem, hlatest⟩ := stored_staged h hids hclock hstaged hstore'
      obtain rfl := eq_of_item hids hfarthest.mem hd' hitem' hitem''
      have hnewest := newest_dailyPrice hstaged hmem hlatest cast
      refine ⟨d, hd', ingestedAt, hquery, ?_, fun p hp => ?_⟩
      · exact List.mem_mergeSort.mpr (List.mem_filter.mpr ⟨hnewest.mem, decide_eq_true hfarthest.apartmentId⟩)
      · obtain ⟨hp, hpa⟩ := List.mem_filter.mp (List.mem_mergeSort.mp hp)
        have hpa : p.apartmentId = a := of_decide_eq_true hpa
        obtain ⟨e, he, ⟨ingestedAt', rfl⟩, -⟩ := hexact.night_latest p hp
        obtain ⟨x, hx, hxe⟩ := streamed_iff.mp he.2
        rcases (hfarthest.farthest e he.1 x hx hxe hpa).lt_or_eq with hlt | heq
        · exact .inr (.inl hlt)
        · refine (hnewest.newest _ hp (hpa.trans hfarthest.apartmentId.symm) heq).imp id fun hday => .inr ⟨heq, hday⟩

theorem lost_answer_agrees : ∃ (l : Lakehouse) (rows : _), fctPriceDecision tableOrder l.table.content = some rows ∧
    "BCN-001" ∈ listApartmentIds (dimApartment rows) ∧
    (∃ p, Newest (fctDailyPrice utcDate rows) p ∧ p.decisionId = laterDecision.decisionId) ∧
    ∃ p ∈ priceEvolution (fctDailyPrice utcDate rows) "BCN-001", p.decisionId = nextNightDecision.decisionId ∧
      ∀ q ∈ priceEvolution (fctDailyPrice utcDate rows) "BCN-001", q = p ∨ q.targetDate < p.targetDate ∨
        q.targetDate = p.targetDate ∧ q.snapshotDay < p.snapshotDay := by
  obtain ⟨s, os, l, batches, hsink, hrecorded, -, hstore, hl, hpassed⟩ := lost_answer_run_lakehouse
  have hids : ((decisions lostAnswerEvents).map (·.decisionId)).Nodup := by decide +kernel
  obtain ⟨rows, hrows, hstored, hlisted, hchart⟩ := cold_path_agrees (typeDeserializer_deserializes ordinaryNumbers)
    tallies_injective tallies_ne hsink hids (by unfold NightsInOrder; decide +kernel) nightDecisions_calendar
    nightDecisions_survive hl hpassed tableOrder utcDate
  have hnewest : ∀ d ∈ [laterDecision, nextNightDecision],
      ∃ ingestedAt, Newest (fctDailyPrice utcDate rows) (dailyPrice utcDate (staged d ingestedAt)) := by
    intro d hd
    have hnight : d ∈ decisions lostAnswerEvents := List.mem_cons_of_mem _ hd
    obtain ⟨item, -, hitem⟩ := mem_recorded_nights hrecorded hnight
    obtain ⟨e, he, ingestedAt, hitem', hnewest, -⟩ := hstored _ item ((hstore d hd).trans (toOption_eq_some.mpr hitem))
    obtain rfl := eq_of_item hids hnight he hitem hitem'
    exact ⟨ingestedAt, hnewest⟩
  have hlater : laterDecision ∈ [laterDecision, nextNightDecision] := List.mem_cons_self
  have hnext : nextNightDecision ∈ [laterDecision, nextNightDecision] := List.mem_cons_of_mem _ (List.mem_singleton_self _)
  obtain ⟨ingestedAt, hlaterNewest⟩ := hnewest _ hlater
  obtain ⟨ingestedAt', hnextNewest⟩ := hnewest _ hnext
  have hin : "BCN-001" ∈ listApartmentIds (dimApartment rows) := by
    obtain ⟨item, -, hitem⟩ := mem_recorded_nights hrecorded (List.mem_cons_of_mem _ hnext)
    exact (hlisted _).mpr ⟨_, item, (hstore _ hnext).trans (toOption_eq_some.mpr hitem)⟩
  obtain ⟨d, hd, ingestedAt'', -, hshown, hlast⟩ := hchart "BCN-001" hin
  -- no night of the run is later than the next
  have hfar : ∀ e ∈ nightDecisions, e.targetDate ≤ nextNightDecision.targetDate ∧
      (e.targetDate = nextNightDecision.targetDate → e.decisionId = nextNightDecision.decisionId) := by decide +kernel
  have hid : d.decisionId = nextNightDecision.decisionId := by
    rcases hlast _ (List.mem_mergeSort.mpr (List.mem_filter.mpr ⟨hnextNewest.mem, decide_eq_true rfl⟩)) with
      heq | hlt | ⟨hnight, -⟩
    · exact (congrArg DailyPrice.decisionId heq).symm
    · exact absurd hlt (not_lt.mpr (hfar d hd).1)
    · exact (hfar d hd).2 hnight.symm
  exact ⟨l, rows, hrows, hin, ⟨_, hlaterNewest, rfl⟩, _, hshown, hid, hlast⟩

end Marts

end PriceEngine
