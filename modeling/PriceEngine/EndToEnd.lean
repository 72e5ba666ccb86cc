import PriceEngine.CompactionSound
import PriceEngine.DecisionSinkSound

/-!
# From the sink to the lakehouse

The stream of the decision table is what the lakehouse's consumer reads. Since the
stream has each decision once at most, and one for each answered write, the rows of
the lakehouse are those of the decisions, one for each that its consumer has passed.
-/

namespace PriceEngine

variable {t : NumberText} {deserialize : AttributeValue → Except PyError Value} {clock : Instant → ℤ}
  {assign : String → ℕ}

/-! ## Records of decisions -/

def DecisionItem.id (x : DecisionItem) : Option String :=
  match x.attributes.lookup "decision_id" with
  | some (.S id) => some id
  | _ => none

theorem IsItem.id {d : PriceDecision} {item : DecisionItem} (h : IsItem t clock d item) :
    item.id = some d.decisionId := by
  rw [DecisionItem.id, h.decisionId]

section
variable (hdes : Deserializes t deserialize) {d : PriceDecision} {item : DecisionItem} (his : IsItem t clock d item)
  (hnumbers : t.Survives (d.modelDump clock)) (eventName sequenceNumber : String)
include hdes his hnumbers

theorem deserializeImage_item :
    deserializeImage deserialize (some item.attributes) = .ok ((d.modelDump clock).received t) := by
  obtain ⟨as, has, himage⟩ := bind_eq_ok.mp (image_of_item hdes (modelDump_json clock d.toPriceDecisionRecord) hnumbers)
  obtain rfl := Except.ok.inj (his.attributes.symm.trans has)
  exact himage

theorem recordId_item :
    recordId t deserialize ⟨eventName, sequenceNumber, some item.attributes⟩ = some d.decisionId := by
  have hid : ((d.modelDump clock).received t).item "decision_id" = .ok (.str d.decisionId) :=
    item_received (show (d.fields clock).lookup "decision_id" = some (.str d.decisionId) from rfl)
  have hnull : ((d.modelDump clock).received t).isNull = false := rfl
  simp only [recordId, deserializeImage_item hdes his hnumbers, hnull, Bool.false_eq_true, if_false, imageId, hid,
    Lakehouse.toStr]

theorem rowsOf_item (hcalendar : d.OnCalendar clock) (ingestedAt : Instant) :
    rowsOf t deserialize [⟨eventName, sequenceNumber, some item.attributes⟩] ingestedAt =
      .ok [d.row eventName ingestedAt] := by
  have himage := deserializeImage_item hdes his hnumbers
  have hparse : parseStreamRecord deserialize ⟨eventName, sequenceNumber, some item.attributes⟩ =
      .ok ⟨eventName, sequenceNumber, (d.modelDump clock).received t⟩ := by
    rw [parseStreamRecord, himage]
    rfl
  have hall : [(⟨eventName, sequenceNumber, some item.attributes⟩ : StreamRecord)].mapM
      (parseStreamRecord deserialize) = .ok [⟨eventName, sequenceNumber, (d.modelDump clock).received t⟩] :=
    mapM_eq_ok.mpr (.cons hparse .nil)
  rw [rowsOf, hall, ok_bind, List.filter_cons_of_pos rfl, List.filter_nil]
  exact mapM_eq_ok.mpr (.cons (rowFromNewImage_received hnumbers hcalendar eventName ingestedAt) .nil)

end

/-! ## The stream -/

variable {place sequenceNumber : ℕ → String}

theorem mem_streamOf {log : List (Change DecisionItem)} {shardId : String} {r : StreamRecord} :
    r ∈ streamOf place sequenceNumber log shardId ↔ ∃ i c, log[i]? = some c ∧ place i = shardId ∧
      r = ⟨c.eventName, sequenceNumber i, some c.item.attributes⟩ := by
  simp only [streamOf, List.mem_map, List.mem_filter, List.mem_zipIdx_iff_getElem?, decide_eq_true_eq, Prod.exists]
  constructor
  · rintro ⟨c, i, ⟨hc, hplace⟩, rfl⟩
    exact ⟨i, c, hc, hplace, rfl⟩
  · rintro ⟨i, c, hc, hplace, rfl⟩
    exact ⟨c, i, ⟨hc, hplace⟩, rfl⟩

theorem sequenceNumbers_nodup (hseq : Function.Injective sequenceNumber) (log : List (Change DecisionItem))
    (shardId : String) : ((streamOf place sequenceNumber log shardId).map (·.sequenceNumber)).Nodup := by
  have hmap : (streamOf place sequenceNumber log shardId).map (·.sequenceNumber) =
      ((log.zipIdx.filter fun e => place e.2 = shardId).map Prod.snd).map sequenceNumber := by
    rw [streamOf, List.map_map, List.map_map]
    rfl
  rw [hmap]
  refine List.Nodup.map hseq (List.Nodup.sublist (List.Sublist.map _ List.filter_sublist) ?_)
  rw [List.zipIdx_map_snd]
  exact List.nodup_range'

/-- What the records of a table's stream are, when each of its items is that of a decision with an id of its own. -/
structure OfDecisions (t : NumberText) (clock : Instant → ℤ) (ds : List PriceDecision) (log : List (Change DecisionItem)) :
    Prop where
  items : ∀ c ∈ log, ∃ d ∈ ds, IsItem t clock d c.item
  ids : (log.map fun c => c.item.id).Nodup
  numbers : ∀ d ∈ ds, t.Survives (d.modelDump clock)

theorem ownDecisions (hdes : Deserializes t deserialize) (hseq : Function.Injective sequenceNumber)
    (hne : ∀ i, sequenceNumber i ≠ "") {ds : List PriceDecision} {log : List (Change DecisionItem)}
    (h : OfDecisions t clock ds log) : OwnDecisions (streamOf place sequenceNumber log) t deserialize := by
  have hrecord : ∀ i c, log[i]? = some c →
      recordId t deserialize ⟨c.eventName, sequenceNumber i, some c.item.attributes⟩ = c.item.id ∧ c.item.id.isSome := by
    intro i c hc
    obtain ⟨d, hd, his⟩ := h.items c (List.mem_of_getElem? hc)
    rw [recordId_item hdes his (h.numbers d hd), his.id]
    exact ⟨rfl, rfl⟩
  refine ⟨sequenceNumbers_nodup hseq log, ?_, fun shard => ?_, ?_⟩
  · intro shard r hr
    obtain ⟨i, c, -, -, rfl⟩ := mem_streamOf.mp hr
    exact hne i
  · -- the ids of a shard are some of the log's
    have hids : ((streamOf place sequenceNumber log shard).map (recordId t deserialize)).Sublist
        (log.map fun c => c.item.id) := by
      have hmap : (streamOf place sequenceNumber log shard).map (recordId t deserialize) =
          (log.zipIdx.filter fun e => place e.2 = shard).map fun e => e.1.item.id := by
        rw [streamOf, List.map_map]
        refine List.map_congr_left fun e he => ?_
        exact (hrecord e.2 e.1 (List.mem_zipIdx_iff_getElem?.mp (List.mem_of_mem_filter he))).1
      have hlog : log.zipIdx.map (fun e => e.1.item.id) = log.map fun c => c.item.id := by
        conv_rhs => rw [← List.zipIdx_map_fst 0 log, List.map_map]
        rfl
      rw [hmap, ← hlog]
      exact List.filter_sublist.map _
    have hnodup := List.Nodup.filterMap (f := id) (fun a a' b ha ha' =>
      (Option.mem_def.mp ha).trans (Option.mem_def.mp ha').symm) (h.ids.sublist hids)
    rwa [List.filterMap_map] at hnodup
  · intro shard shard' hshard r hr r' hr' _ heq
    obtain ⟨i, c, hc, rfl, rfl⟩ := mem_streamOf.mp hr
    obtain ⟨j, c', hc', rfl, rfl⟩ := mem_streamOf.mp hr'
    rw [(hrecord i c hc).1, (hrecord j c' hc').1] at heq
    have hij : i = j := by
      refine (List.getElem?_inj (l := log.map fun c => c.item.id) ?_ h.ids).mp ?_
      · rw [List.length_map]
        exact (List.getElem?_eq_some_iff.mp hc).1
      · rw [List.getElem?_map, List.getElem?_map, hc, hc', Option.map_some, Option.map_some, heq]
    exact hshard (congrArg place hij)

/-! ## End to end -/

theorem ofDecisions {es : List SinkEvent} {s : DecisionTable} {os : List (Written DecisionItem)}
    (h : run (sinkStep t clock assign) Writing.start es = .ok (s, os))
    (hids : ((decisions es).map (·.decisionId)).Nodup)
    (hnumbers : ∀ d ∈ decisions es, t.Survives (d.modelDump clock)) :
    OfDecisions t clock (decisions es) s.log := by
  obtain ⟨⟨hrecorded, -⟩, htaken⟩ := run_sink h
  have hof : ∀ x ∈ s.recorded, ∃ d ∈ decisions es, decisionItem t clock d = .ok x :=
    fun x hx => mem_itemsOf (htaken.subset (hrecorded.mem_given hx))
  refine ⟨fun c hc => ?_, ?_, hnumbers⟩
  · obtain ⟨d, hd, hitem⟩ := hof c.item (List.mem_map_of_mem hc)
    exact ⟨d, hd, isItem hitem⟩
  · have hnodup : s.recorded.Nodup := hrecorded.nodup ((itemsOf_nodup hids).sublist htaken)
    have hmap : (s.recorded.map (·.id)).Nodup := by
      refine List.Nodup.map_on (fun x hx y hy hxy => ?_) hnodup
      obtain ⟨d, hd, hdx⟩ := hof x hx
      obtain ⟨e, he, hey⟩ := hof y hy
      rw [(isItem hdx).id, (isItem hey).id] at hxy
      obtain rfl := List.inj_on_of_nodup_map hids hd he (Option.some.inj hxy)
      exact Except.ok.inj (hdx.symm.trans hey)
    rw [Writing.recorded, List.map_map] at hmap
    exact hmap

/-- A record of the stream has the decision's item. -/
def Streamed (t : NumberText) (clock : Instant → ℤ) (stream : String → List StreamRecord) (d : PriceDecision) : Prop :=
  ∃ item shard, decisionItem t clock d = .ok item ∧ ∃ r ∈ stream shard, r.newImage = some item.attributes

/-- The rows are of streamed decisions, one at most of each, and one of each that the consumer has passed. -/
structure Ingested (t : NumberText) (clock : Instant → ℤ) (stream : String → List StreamRecord) (ds : List PriceDecision)
    (l : Lakehouse) : Prop where
  of : ∀ row ∈ l.table.content, ∃ d ∈ ds, Streamed t clock stream d ∧
    ∃ eventName ingestedAt, row = d.row eventName ingestedAt
  once : (l.table.content.map decisionId).Nodup
  settled : ∀ d ∈ ds, ∀ item shard, decisionItem t clock d = .ok item →
    ∀ r ∈ settledRecords stream l.checkpoints shard, r.newImage = some item.attributes →
      ∃ ingestedAt, d.row r.eventName ingestedAt ∈ l.table.content

section
variable (hdes : Deserializes t deserialize) (hseq : Function.Injective sequenceNumber)
  (hne : ∀ i, sequenceNumber i ≠ "") {es : List SinkEvent} {s : DecisionTable} {os : List (Written DecisionItem)}
  (h : run (sinkStep t clock assign) Writing.start es = .ok (s, os))
  (hids : ((decisions es).map (·.decisionId)).Nodup)
  (hcalendar : ∀ d ∈ decisions es, d.OnCalendar clock)
  (hnumbers : ∀ d ∈ decisions es, t.Survives (d.modelDump clock))
  {fs : List LakehouseEvent} {l : Lakehouse} {batches : List Batch}
  (hl : run (lakehouseStep (streamOf place sequenceNumber s.log) t deserialize) Lakehouse.empty fs =
    .ok (l, batches))
include hdes hseq hne h hids hcalendar hnumbers hl

theorem run_ingested : Ingested t clock (streamOf place sequenceNumber s.log) (decisions es) l := by
  have hof := ofDecisions h hids hnumbers
  have hl := (run_consistent (ownDecisions hdes hseq hne hof) hl).table
  -- a row of a record in the stream is that of its decision
  have hrow : ∀ {shard r row}, r ∈ streamOf place sequenceNumber s.log shard → RowOf t deserialize r row →
      ∀ d ∈ decisions es, ∀ item, IsItem t clock d item → r.newImage = some item.attributes →
        ∃ ingestedAt, row = d.row r.eventName ingestedAt := by
    rintro shard r row hr ⟨ingestedAt, hrows⟩ d hd item his himage
    obtain ⟨i, c, hc, -, rfl⟩ := mem_streamOf.mp hr
    have himage : c.item.attributes = item.attributes := Option.some.inj himage
    rw [himage, rowsOf_item hdes his (hnumbers d hd) _ _ (hcalendar d hd)] at hrows
    exact ⟨ingestedAt, (List.cons.inj (Except.ok.inj hrows)).1.symm⟩
  refine ⟨fun row hmem => ?_, hl.once, fun d hd item shard hitem r hr himage => ?_⟩
  · obtain ⟨shard, r, hr, hrowOf, -⟩ := hl.derived row hmem
    obtain ⟨i, c, hc, -, rfl⟩ := mem_streamOf.mp hr
    obtain ⟨d, hd, his⟩ := hof.items c (List.mem_of_getElem? hc)
    obtain ⟨ingestedAt, heq⟩ := hrow hr hrowOf d hd c.item his rfl
    obtain ⟨item, hitem, his'⟩ := decisionItem_ok t clock d
    have hattributes := Except.ok.inj (his.attributes.symm.trans his'.attributes)
    exact ⟨d, hd, ⟨item, _, hitem, _, hr, congrArg some hattributes⟩, _, ingestedAt, heq⟩
  · have hstream : r ∈ streamOf place sequenceNumber s.log shard := by
      rw [← settledRecords_append (streamOf place sequenceNumber s.log) l.checkpoints shard]
      exact List.mem_append_left _ hr
    obtain ⟨row, hmem, hrowOf⟩ := hl.settled _ _ hr (by
      obtain ⟨i, c, -, -, rfl⟩ := mem_streamOf.mp hstream
      rfl)
    obtain ⟨ingestedAt, rfl⟩ := hrow hstream hrowOf d hd item (isItem hitem) himage
    exact ⟨ingestedAt, hmem⟩

end

/-- However often the sink repeats a call, the job restarts, the consumer crashes or a compaction comes between: each
decision whose write was answered is one record of the stream, and once the consumer's checkpoint is at or after it, the
lakehouse has one row of it, with its fields; and every row there is the one row of a decision that reached the sink. -/
theorem decisions_reach_lakehouse (hdes : Deserializes t deserialize) (hseq : Function.Injective sequenceNumber)
    (hne : ∀ i, sequenceNumber i ≠ "") {es : List SinkEvent} {s : DecisionTable} {os : List (Written DecisionItem)}
    (h : run (sinkStep t clock assign) Writing.start es = .ok (s, os))
    (hids : ((decisions es).map (·.decisionId)).Nodup)
    (hcalendar : ∀ d ∈ decisions es, d.OnCalendar clock)
    (hnumbers : ∀ d ∈ decisions es, t.Survives (d.modelDump clock))
    {fs : List LakehouseEvent} {l : Lakehouse} {batches : List Batch}
    (hl : run (lakehouseStep (streamOf place sequenceNumber s.log) t deserialize) Lakehouse.empty fs =
      .ok (l, batches)) :
    (∀ d ∈ decisions es, ∀ item, decisionItem t clock d = .ok item → .returned item ∈ os →
      ∃ shard, ∃ r ∈ streamOf place sequenceNumber s.log shard, r.newImage = some item.attributes ∧
        (r ∈ settledRecords (streamOf place sequenceNumber s.log) l.checkpoints shard →
          ∃ ingestedAt, rowsWith decisionId (some d.decisionId) l.table.content = [d.row r.eventName ingestedAt])) ∧
    ∀ row ∈ l.table.content, ∃ d ∈ decisions es, ∃ eventName ingestedAt, row = d.row eventName ingestedAt ∧
      rowsWith decisionId (some d.decisionId) l.table.content = [row] := by
  have hl := run_ingested hdes hseq hne h hids hcalendar hnumbers hl
  refine ⟨fun d hd item hitem hreturned => ?_, fun row hmem => ?_⟩
  · obtain ⟨c, hc, rfl⟩ := List.mem_map.mp ((run_sink h).1.returned item hreturned)
    obtain ⟨i, hi⟩ := List.mem_iff_getElem?.mp hc
    have hr : ⟨c.eventName, sequenceNumber i, some c.item.attributes⟩ ∈
        streamOf place sequenceNumber s.log (place i) := mem_streamOf.mpr ⟨i, c, hi, rfl, rfl⟩
    refine ⟨place i, _, hr, rfl, fun hsettled => ?_⟩
    obtain ⟨ingestedAt, hmem⟩ := hl.settled d hd c.item (place i) hitem _ hsettled rfl
    exact ⟨ingestedAt, rowsWith_of_nodup hl.once hmem⟩
  · obtain ⟨d, hd, -, eventName, ingestedAt, rfl⟩ := hl.of row hmem
    exact ⟨d, hd, eventName, ingestedAt, rfl, rowsWith_of_nodup hl.once hmem⟩

/-! ## A decision on its way -/

/-- `1`, `11`, `111`, … -/
def tallies (i : ℕ) : String := String.ofList (List.replicate (i + 1) '1')

theorem tallies_injective : Function.Injective tallies := fun i j h => by
  have hlist := congrArg String.toList h
  rw [tallies, tallies, String.toList_ofList, String.toList_ofList] at hlist
  exact Nat.succ.inj (List.replicate_inj.mp hlist).1

theorem tallies_ne (i : ℕ) : tallies i ≠ "" := fun h => by
  have hlist := congrArg String.toList h
  rw [tallies, String.toList_ofList] at hlist
  cases hlist

/-- The run of the sink, and one of the consumer and a compaction on the stream of its table. -/
def lostAnswerRuns : Except PyError ((DecisionTable × List (Written DecisionItem)) × Lakehouse × List Batch) := do
  let sink ← run (sinkStep ordinaryNumbers (fun _ => 120) fun _ => 0) Writing.start lostAnswerEvents
  let lakehouse ← run (lakehouseStep (streamOf (fun _ => "shard") tallies sink.1.log) ordinaryNumbers
    (typeDeserializer ordinaryNumbers)) Lakehouse.empty disturbedEvents
  .ok (sink, lakehouse)

theorem lost_answer_run_lakehouse : ∃ s os l batches,
    run (sinkStep ordinaryNumbers (fun _ => 120) fun _ => 0) Writing.start lostAnswerEvents = .ok (s, os) ∧
    s.recorded = itemsOf ordinaryNumbers (fun _ => 120) nightDecisions ∧ (∀ item ∈ s.recorded, .returned item ∈ os) ∧
    (∀ d ∈ [laterDecision, nextNightDecision], s.store.get? (d.apartmentId, isoformat d.targetDate) =
      (decisionItem ordinaryNumbers (fun _ => 120) d).toOption) ∧
    run (lakehouseStep (streamOf (fun _ => "shard") tallies s.log) ordinaryNumbers (typeDeserializer ordinaryNumbers))
      Lakehouse.empty disturbedEvents = .ok (l, batches) ∧
    ∀ shard, settledRecords (streamOf (fun _ => "shard") tallies s.log) l.checkpoints shard =
      streamOf (fun _ => "shard") tallies s.log shard := by
  have hclosed : lostAnswerRuns.toOption.map (fun r => (r.1.1.recorded,
      r.1.1.recorded.all fun item => decide (Written.returned item ∈ r.1.2),
      [laterDecision, nextNightDecision].all fun d => decide (r.1.1.store.get? (d.apartmentId, isoformat d.targetDate) =
        (decisionItem ordinaryNumbers (fun _ => 120) d).toOption),
      (settledRecords (streamOf (fun _ => "shard") tallies r.1.1.log) r.2.1.checkpoints "shard").length,
      (streamOf (fun _ => "shard") tallies r.1.1.log "shard").length)) =
      some (itemsOf ordinaryNumbers (fun _ => 120) nightDecisions, true, true, 3, 3) := by
    decide +kernel
  obtain ⟨r, hruns, hfacts⟩ := ok_of_map hclosed
  obtain ⟨⟨s, os⟩, hsink, hruns⟩ := bind_eq_ok.mp hruns
  obtain ⟨⟨l, batches⟩, hlakehouse, hruns⟩ := bind_eq_ok.mp hruns
  obtain rfl := Except.ok.inj hruns
  obtain ⟨hrecorded, hfacts⟩ := Prod.mk.inj hfacts
  obtain ⟨hreturned, hfacts⟩ := Prod.mk.inj hfacts
  obtain ⟨hstored, hfacts⟩ := Prod.mk.inj hfacts
  have hlengths : (settledRecords (streamOf (fun _ => "shard") tallies s.log) l.checkpoints "shard").length = 3 ∧
      (streamOf (fun _ => "shard") tallies s.log "shard").length = 3 := Prod.mk.inj hfacts
  refine ⟨s, os, l, batches, hsink, hrecorded, fun item hitem =>
    of_decide_eq_true (List.all_eq_true.mp hreturned item hitem), fun d hd =>
    of_decide_eq_true (List.all_eq_true.mp hstored d hd), hlakehouse, fun shard => ?_⟩
  -- nothing of the shard is left after the checkpoint
  have hcut := settledRecords_append (streamOf (fun _ => "shard") tallies s.log) l.checkpoints shard
  by_cases hshard : shard = "shard"
  · subst hshard
    obtain ⟨hsettled, hlength⟩ := hlengths
    have hnone : recordsAfter (streamOf (fun _ => "shard") tallies s.log "shard") (l.checkpoints.get? "shard") = [] := by
      rw [← hcut, List.length_append, hsettled] at hlength
      exact List.length_eq_zero_iff.mp (by omega)
    rwa [hnone, List.append_nil] at hcut
  · have hnone : streamOf (fun _ => "shard") tallies s.log shard = [] := by
      rw [streamOf, List.filter_eq_nil_iff.mpr, List.map_nil]
      exact fun e _ he => hshard (of_decide_eq_true he).symm
    rw [hnone] at hcut ⊢
    exact (List.append_eq_nil_iff.mp hcut).1

theorem lost_answer_reaches_lakehouse : ∃ s os l batches,
    run (sinkStep ordinaryNumbers (fun _ => 120) fun _ => 0) Writing.start lostAnswerEvents = .ok (s, os) ∧
    run (lakehouseStep (streamOf (fun _ => "shard") tallies s.log) ordinaryNumbers (typeDeserializer ordinaryNumbers))
      Lakehouse.empty disturbedEvents = .ok (l, batches) ∧
    ∀ d ∈ nightDecisions, ∃ eventName ingestedAt,
      rowsWith decisionId (some d.decisionId) l.table.content = [d.row eventName ingestedAt] := by
  obtain ⟨s, os, l, batches, hsink, hrecorded, hreturned, -, hall, hpassed⟩ := lost_answer_run_lakehouse
  refine ⟨s, os, l, batches, hsink, hall, fun d hd => ?_⟩
  obtain ⟨item, hmem, hitem⟩ := mem_recorded_nights hrecorded hd
  obtain ⟨shard, r, hr, -, hsettled⟩ := (decisions_reach_lakehouse (typeDeserializer_deserializes ordinaryNumbers)
    tallies_injective tallies_ne hsink (by decide +kernel) nightDecisions_calendar nightDecisions_survive hall).1 d hd item
      hitem (hreturned item hmem)
  obtain ⟨ingestedAt, hrows⟩ := hsettled (by rwa [hpassed shard])
  exact ⟨r.eventName, ingestedAt, hrows⟩

end PriceEngine
