import PriceEngine.DecisionSink
import PriceEngine.IsoOrder

/-!
# What the decision table holds

Each decision that the sink has written is in the stream of the table once, no
matter how often its call was repeated, and the table holds for each night the one
recorded last. The dashboard shows for each apartment the one recorded last for
the farthest night.
-/

namespace PriceEngine

variable {t : NumberText} {clock : Instant → ℤ} {assign : String → ℕ}

/-! ## The item of a decision -/

mutual

theorem pythonToDynamodb_ok (t : NumberText) : ∀ v : Value, Value.Leaves Value.IsJson v →
    ∃ a, pythonToDynamodb t v = .ok a
  | .str _, _ => ⟨_, rfl⟩
  | .bool _, _ => ⟨_, rfl⟩
  | .null, _ => ⟨_, rfl⟩
  | .int _, _ => ⟨_, rfl⟩
  | .float _, _ => ⟨_, rfl⟩
  | .decimal _, h => (h _ (List.mem_singleton_self _)).elim
  | .date _, h => (h _ (List.mem_singleton_self _)).elim
  | .datetime _, h => (h _ (List.mem_singleton_self _)).elim
  | .list items, h => by
    obtain ⟨as, hwrite⟩ := listToDynamodb_ok t items h
    exact ⟨.L as, by rw [pythonToDynamodb, hwrite]; rfl⟩
  | .dict entries, h => by
    obtain ⟨as, hwrite⟩ := entriesToDynamodb_ok t entries h
    exact ⟨.M as, by rw [pythonToDynamodb, hwrite]; rfl⟩

theorem listToDynamodb_ok (t : NumberText) : ∀ items : List Value,
    (∀ w ∈ Value.leavesOfList items, w.IsJson) → ∃ as, listToDynamodb t items = .ok as
  | [], _ => ⟨[], rfl⟩
  | v :: vs, h => by
    rw [Value.leavesOfList, List.forall_mem_append] at h
    obtain ⟨a, hwrite⟩ := pythonToDynamodb_ok t v h.1
    obtain ⟨as, hwrites⟩ := listToDynamodb_ok t vs h.2
    exact ⟨a :: as, by rw [listToDynamodb, hwrite, hwrites]; rfl⟩

theorem entriesToDynamodb_ok (t : NumberText) : ∀ entries : List (String × Value),
    (∀ w ∈ Value.leavesOfEntries entries, w.IsJson) → ∃ as, entriesToDynamodb t entries = .ok as
  | [], _ => ⟨[], rfl⟩
  | (key, v) :: es, h => by
    rw [Value.leavesOfEntries, List.forall_mem_append] at h
    obtain ⟨a, hwrite⟩ := pythonToDynamodb_ok t v h.1
    obtain ⟨as, hwrites⟩ := entriesToDynamodb_ok t es h.2
    exact ⟨(key, a) :: as, by rw [entriesToDynamodb, hwrite, hwrites]; rfl⟩

end

theorem ofAttributes_eq_ok {attributes : List (String × AttributeValue)} {apartmentId targetDate : String}
    (ha : attributes.lookup "apartment_id" = some (.S apartmentId))
    (hd : attributes.lookup "target_date" = some (.S targetDate)) :
    DecisionItem.ofAttributes attributes = .ok ⟨attributes, apartmentId, targetDate, ha, hd⟩ := by
  unfold DecisionItem.ofAttributes
  split
  · rename_i a d ha' hd'
    obtain rfl := AttributeValue.S.inj (Option.some.inj (ha.symm.trans ha'))
    obtain rfl := AttributeValue.S.inj (Option.some.inj (hd.symm.trans hd'))
    rfl
  · rename_i hnot
    exact (hnot _ _ ha hd).elim

/-- The item of a decision: its dump, under its apartment and its night, with its id. -/
structure IsItem (t : NumberText) (clock : Instant → ℤ) (d : PriceDecision) (item : DecisionItem) : Prop where
  attributes : toDynamodbItem t (d.modelDump clock) = .ok item.attributes
  apartmentId : item.apartmentId = d.apartmentId
  targetDate : item.targetDate = isoformat d.targetDate
  decisionId : item.attributes.lookup "decision_id" = some (.S d.decisionId)

theorem decisionItem_ok (t : NumberText) (clock : Instant → ℤ) (d : PriceDecision) :
    ∃ item, decisionItem t clock d = .ok item ∧ IsItem t clock d item := by
  obtain ⟨as, hwrite⟩ := entriesToDynamodb_ok t (d.fields clock) (modelDump_json clock d.toPriceDecisionRecord)
  have hitem : toDynamodbItem t (d.modelDump clock) = .ok as := by
    rw [toDynamodbItem, PriceDecisionRecord.modelDump, pythonToDynamodb, hwrite]
    rfl
  have htext : ∀ key s, (d.fields clock).lookup key = some (.str s) → as.lookup key = some (.S s) := by
    intro key s hkey
    obtain ⟨a, ha, hlookup⟩ := lookup_entriesToDynamodb hwrite hkey
    rw [hlookup, ← Except.ok.inj ha]
  have ha := htext "apartment_id" d.apartmentId rfl
  have hd := htext "target_date" (isoformat d.targetDate) rfl
  refine ⟨⟨as, d.apartmentId, isoformat d.targetDate, ha, hd⟩, ?_, ⟨hitem, rfl, rfl, htext _ _ rfl⟩⟩
  rw [decisionItem, hitem]
  exact ofAttributes_eq_ok ha hd

theorem isItem {d : PriceDecision} {item : DecisionItem} (h : decisionItem t clock d = .ok item) :
    IsItem t clock d item := by
  obtain ⟨item', hitem, his⟩ := decisionItem_ok t clock d
  obtain rfl := Except.ok.inj (h.symm.trans hitem)
  exact his

/-! ## Runs of the sink -/

def SinkEvent.decision? : SinkEvent → Option PriceDecision
  | .map d => some d
  | _ => none

/-- The decisions that reach the sink. -/
def decisions (es : List SinkEvent) : List PriceDecision := es.filterMap SinkEvent.decision?

/-- Their items. -/
def itemsOf (t : NumberText) (clock : Instant → ℤ) (ds : List PriceDecision) : List DecisionItem :=
  ds.filterMap fun d => (decisionItem t clock d).toOption

theorem mem_itemsOf {ds : List PriceDecision} {item : DecisionItem} (h : item ∈ itemsOf t clock ds) :
    ∃ d ∈ ds, decisionItem t clock d = .ok item := by
  obtain ⟨d, hd, hitem⟩ := List.mem_filterMap.mp h
  exact ⟨d, hd, toOption_eq_some.mp hitem⟩

/-- Decisions with ids of their own have items of their own. -/
theorem itemsOf_nodup {ds : List PriceDecision} (h : (ds.map (·.decisionId)).Nodup) :
    (itemsOf t clock ds).Nodup := by
  have hids : (itemsOf t clock ds).map (fun x => x.attributes.lookup "decision_id") =
      (ds.map (·.decisionId)).map fun id => some (.S id) := by
    clear h
    induction ds with
    | nil => rfl
    | cons d ds ih =>
      obtain ⟨item, hitem, his⟩ := decisionItem_ok t clock d
      have hcons : itemsOf t clock (d :: ds) = item :: itemsOf t clock ds :=
        List.filterMap_cons_some (toOption_eq_some.mpr hitem)
      rw [hcons, List.map_cons, ih, his.decisionId, List.map_cons, List.map_cons]
  refine List.Nodup.of_map (fun x : DecisionItem => x.attributes.lookup "decision_id") ?_
  rw [hids]
  exact h.map fun a b hab => AttributeValue.S.inj (Option.some.inj hab)

variable {es : List SinkEvent} {s s' : DecisionTable} {os o : List (Written DecisionItem)}

/-- Each step is one of the writers', and an item it submits is that of the decision that arrives. -/
theorem sinkStep_eq (t : NumberText) (clock : Instant → ℤ) (assign : String → ℕ) (s : DecisionTable) (e : SinkEvent) :
    ∃ e', sinkStep t clock assign s e = (sinkWriters assign).writeStep s e' ∧
      e'.submitted = itemsOf t clock (decisions [e]) := by
  cases e with
  | map d =>
    obtain ⟨item, hitem, -⟩ := decisionItem_ok t clock d
    have hitems : itemsOf t clock (decisions [.map d]) = [item] :=
      List.filterMap_cons_some (toOption_eq_some.mpr hitem)
    refine ⟨.submit item, ?_, hitems.symm⟩
    unfold sinkStep
    simp only
    rw [hitem]
  | attempt subtask outcome => exact ⟨.attempt subtask outcome, rfl, rfl⟩
  | stop => exact ⟨.stop, rfl, rfl⟩

theorem run_sink (h : run (sinkStep t clock assign) Writing.start es = .ok (s, os)) :
    (sinkWriters assign).Kept os s ∧ (takenItems os).Sublist (itemsOf t clock (decisions es)) := by
  refine run_prefix (I := fun p s os => (sinkWriters assign).Kept os s ∧
    (takenItems os).Sublist (itemsOf t clock (decisions p))) ⟨Writers.kept_start, List.nil_sublist _⟩ ?_ h
  intro p e q s os s' o _ _ hi hs
  obtain ⟨e', he', hsubmitted⟩ := sinkStep_eq t clock assign s e
  rw [he'] at hs
  have htaken := Writers.taken_step hs
  rw [hsubmitted] at htaken
  refine ⟨Writers.kept_step hi.1 hs, ?_⟩
  rw [takenItems, List.filterMap_append, decisions, List.filterMap_append, itemsOf, List.filterMap_append]
  exact hi.2.append htaken

/-! ## Each decision once -/

/-- Whatever attempts fail, with their effect or without, and whenever the job stops: the stream of the table has the
item of a decision whose write was answered exactly once, and of any other decision at most once; an apartment's
decisions are in it in the order in which they reached the sink; each record carries the item it replaces, and the
table holds for each night the item recorded last. -/
theorem decisions_recorded_once (h : run (sinkStep t clock assign) Writing.start es = .ok (s, os))
    (hids : ((decisions es).map (·.decisionId)).Nodup) :
    (∀ item, .returned item ∈ os → s.recorded.count item = 1) ∧
    (∀ item ∈ s.recorded, s.recorded.count item = 1 ∧ ∃ d ∈ decisions es, decisionItem t clock d = .ok item) ∧
    (∀ a, (s.recorded.filter fun x => x.apartmentId = a).Sublist
      ((itemsOf t clock (decisions es)).filter fun x => x.apartmentId = a)) ∧
    (∀ before c after, s.log = before ++ c :: after → c.previous = ((before.map (·.item)).filter fun x =>
      (x.apartmentId, x.targetDate) = (c.item.apartmentId, c.item.targetDate)).getLast?) ∧
    ∀ night, s.store.get? night =
      (s.recorded.filter fun x => (x.apartmentId, x.targetDate) = night).getLast? := by
  obtain ⟨⟨hrecorded, hreturned⟩, htaken⟩ := run_sink h
  have hnodup : s.recorded.Nodup := hrecorded.nodup ((itemsOf_nodup hids).sublist htaken)
  refine ⟨fun item hitem => List.count_eq_one_of_mem hnodup (hreturned item hitem), fun item hitem => ?_,
    fun a => ?_, hrecorded.chained, hrecorded.stored⟩
  · exact ⟨List.count_eq_one_of_mem hnodup hitem, mem_itemsOf (htaken.subset (hrecorded.mem_given hitem))⟩
  · refine (hrecorded.filter_sublist (assign a) fun x hx => ?_).trans (htaken.filter _)
    have hx : x.apartmentId = a := of_decide_eq_true hx
    rw [Writers.writer, ← hx]
    rfl

/-! ## A lost answer -/

/-- The first put takes effect but its answer is lost, the second fails, and the third finds the item there. A later
decision for the night and one for the next night come after it. -/
def lostAnswerEvents : List SinkEvent :=
  [.map overriddenDecision, .attempt 0 .lost, .attempt 0 .failed, .attempt 0 .answered, .map laterDecision,
    .attempt 0 .answered, .map nextNightDecision, .attempt 0 .answered]

theorem lost_answer_run : ∃ s os,
    run (sinkStep ordinaryNumbers (fun _ => 120) fun _ => 0) Writing.start lostAnswerEvents = .ok (s, os) ∧
    s.recorded = itemsOf ordinaryNumbers (fun _ => 120) nightDecisions ∧
    s.log.map (·.eventName) = ["INSERT", "MODIFY", "INSERT"] ∧ ∀ item ∈ s.recorded, .returned item ∈ os := by
  have hclosed : (run (sinkStep ordinaryNumbers (fun _ => 120) fun _ => 0) Writing.start lostAnswerEvents).toOption.map
      (fun r => (r.1.recorded, r.1.log.map (·.eventName),
        r.1.recorded.all fun item => decide (Written.returned item ∈ r.2))) =
      some (itemsOf ordinaryNumbers (fun _ => 120) nightDecisions, ["INSERT", "MODIFY", "INSERT"], true) := by
    decide +kernel
  obtain ⟨⟨s, os⟩, hrun, hfacts⟩ := ok_of_map hclosed
  obtain ⟨hrecorded, hfacts⟩ := Prod.mk.inj hfacts
  obtain ⟨hnames, hreturned⟩ := Prod.mk.inj hfacts
  exact ⟨s, os, hrun, hrecorded, hnames, fun item hitem =>
    of_decide_eq_true (List.all_eq_true.mp hreturned item hitem)⟩

theorem mem_recorded_nights {recorded : List DecisionItem}
    (hrecorded : recorded = itemsOf ordinaryNumbers (fun _ => 120) nightDecisions) {d : PriceDecision}
    (hd : d ∈ nightDecisions) : ∃ item ∈ recorded, decisionItem ordinaryNumbers (fun _ => 120) d = .ok item := by
  obtain ⟨item, hitem, -⟩ := decisionItem_ok ordinaryNumbers (fun _ => 120) d
  exact ⟨item, hrecorded ▸ List.mem_filterMap.mpr ⟨d, hd, toOption_eq_some.mpr hitem⟩, hitem⟩

theorem lost_answer_recorded_once : ∃ s os,
    run (sinkStep ordinaryNumbers (fun _ => 120) fun _ => 0) Writing.start lostAnswerEvents = .ok (s, os) ∧
    ∀ d ∈ nightDecisions, ∃ item, decisionItem ordinaryNumbers (fun _ => 120) d = .ok item ∧ .returned item ∈ os ∧
      s.recorded.count item = 1 := by
  obtain ⟨s, os, hrun, hrecorded, -, hreturned⟩ := lost_answer_run
  refine ⟨s, os, hrun, fun d hd => ?_⟩
  obtain ⟨item, hmem, hitem⟩ := mem_recorded_nights hrecorded hd
  have honce := (decisions_recorded_once hrun (by decide +kernel)).1 item (hreturned item hmem)
  exact ⟨item, hitem, hreturned item hmem, honce⟩

/-! ## The farthest night -/

variable {deserialize : AttributeValue → Except PyError Value}

theorem exists_split_of_getLast?_filter {α : Type*} {p : α → Bool} {l : List α} {x : α}
    (h : (l.filter p).getLast? = some x) : ∃ before after, l = before ++ x :: after ∧ ∀ y ∈ after, p y = false := by
  induction l using List.reverseRecOn with
  | nil => cases h
  | append_singleton l y ih =>
    by_cases hy : p y = true
    · rw [List.filter_append, List.filter_cons_of_pos hy, List.filter_nil, List.getLast?_concat] at h
      obtain rfl := Option.some.inj h
      exact ⟨l, [], rfl, fun _ hz => by cases hz⟩
    · rw [List.filter_append, List.filter_cons_of_neg hy, List.filter_nil, List.append_nil] at h
      obtain ⟨before, after, rfl, hafter⟩ := ih h
      refine ⟨before, after ++ [y], by simp, fun z hz => ?_⟩
      rcases List.mem_append.mp hz with hz | hz
      · exact hafter z hz
      · rw [List.mem_singleton.mp hz]
        exact Bool.eq_false_iff.mpr hy

/-- The decision recorded last for the farthest night of an apartment. -/
structure Farthest (t : NumberText) (clock : Instant → ℤ) (ds : List PriceDecision) (recorded : List DecisionItem)
    (a : String) (d : PriceDecision) : Prop where
  mem : d ∈ ds
  apartmentId : d.apartmentId = a
  last : ∃ before item after, recorded = before ++ item :: after ∧ decisionItem t clock d = .ok item ∧
    ∀ x ∈ after, x.apartmentId = a → x.targetDate ≠ item.targetDate
  farthest : ∀ e ∈ ds, ∀ x ∈ recorded, decisionItem t clock e = .ok x → e.apartmentId = a →
    e.targetDate ≤ d.targetDate

section
variable {given : List DecisionItem} (h : (sinkWriters assign).Recorded given s)
include h

theorem mem_entries_store {k : String × String} {item : DecisionItem} :
    (k, item) ∈ s.store.entries ↔ (s.recorded.filter fun x => (x.apartmentId, x.targetDate) = k).getLast? = some item := by
  rw [Dict.mem_entries, h.stored k]
  rfl

/-- What is recorded for an apartment has a night in the table. -/
theorem exists_entry {x : DecisionItem} (hx : x ∈ s.recorded) :
    ∃ item, ((x.apartmentId, x.targetDate), item) ∈
      s.store.entries.filter fun e => e.1.1 = x.apartmentId := by
  have hmem : x ∈ s.recorded.filter fun y => (y.apartmentId, y.targetDate) = (x.apartmentId, x.targetDate) := by
    simp [hx]
  cases hlast : (s.recorded.filter fun y => (y.apartmentId, y.targetDate) = (x.apartmentId, x.targetDate)).getLast? with
  | none =>
    rw [List.getLast?_eq_none_iff.mp hlast] at hmem
    cases hmem
  | some item => exact ⟨item, List.mem_filter.mpr ⟨(mem_entries_store h).mpr hlast, by simp⟩⟩

variable {ds : List PriceDecision} (hgiven : given ⊆ itemsOf t clock ds)
  (hcalendar : ∀ d ∈ ds, Date.InRange d.targetDate)
include hgiven hcalendar

theorem farthest_of_max {a : String} {k : String × String} {item : DecisionItem}
    (hmax : (s.store.entries.filter fun e => e.1.1 = a).maxOn? (·.1.2) = some (k, item)) :
    ∃ d, decisionItem t clock d = .ok item ∧ Farthest t clock ds s.recorded a d := by
  obtain ⟨hentry, hk⟩ := List.mem_filter.mp (List.maxOn?_mem hmax)
  have hk : k.1 = a := of_decide_eq_true hk
  have hlast := (mem_entries_store h).mp hentry
  obtain ⟨hrecorded, hkey⟩ := List.mem_filter.mp (List.mem_of_getLast? hlast)
  obtain rfl : (item.apartmentId, item.targetDate) = k := of_decide_eq_true hkey
  obtain ⟨before, after, hsplit, hafter⟩ := exists_split_of_getLast?_filter hlast
  obtain ⟨d, hd, hitem⟩ := mem_itemsOf (hgiven (h.mem_given hrecorded))
  have his := isItem hitem
  refine ⟨d, hitem, hd, his.apartmentId.symm.trans hk, ⟨before, item, after, hsplit, hitem, fun x hx hxa hdate => ?_⟩,
    fun e he x hx hxe hea => ?_⟩
  · have hne := of_decide_eq_false (hafter x hx)
    exact hne (Prod.ext (hxa.trans hk.symm) hdate)
  · have hxis := isItem hxe
    obtain ⟨y, hy⟩ := exists_entry h hx
    rw [hxis.apartmentId, hea] at hy
    have hle := List.le_apply_get_maxOn?_of_mem (f := fun e : (String × String) × DecisionItem => e.1.2) hy
    simp only [hmax, Option.get_some] at hle
    rw [hxis.targetDate, his.targetDate] at hle
    exact (isoformat_le_iff (hcalendar e he) (hcalendar d hd)).mp hle

theorem queryLatestDecision_eq (hdes : Deserializes t deserialize)
    (hnumbers : ∀ d ∈ ds, t.Survives (d.modelDump clock)) (a : String) :
    (queryLatestDecision deserialize s.store a = .ok none ∧ ∀ x ∈ s.recorded, x.apartmentId ≠ a) ∨
    ∃ d, Farthest t clock ds s.recorded a d ∧ (∃ x ∈ s.recorded, x.apartmentId = a) ∧
      queryLatestDecision deserialize s.store a = .ok (some ((d.modelDump clock).received t)) := by
  cases hmax : (s.store.entries.filter fun e => e.1.1 = a).maxOn? (·.1.2) with
  | none =>
    refine .inl ⟨by rw [queryLatestDecision, hmax], fun x hx hxa => ?_⟩
    obtain ⟨item, hitem⟩ := exists_entry h hx
    rw [hxa] at hitem
    have hsome := List.isSome_maxOn?_of_mem (f := fun e : (String × String) × DecisionItem => e.1.2) hitem
    rw [hmax] at hsome
    cases hsome
  | some e =>
    obtain ⟨k, item⟩ := e
    obtain ⟨d, hitem, hfarthest⟩ := farthest_of_max h hgiven hcalendar hmax
    obtain ⟨before, item', after, hsplit, hitem', -⟩ := hfarthest.last
    obtain rfl := Except.ok.inj (hitem.symm.trans hitem')
    have his := isItem hitem
    refine .inr ⟨d, hfarthest, ⟨item, by simp [hsplit], his.apartmentId.trans hfarthest.apartmentId⟩, ?_⟩
    obtain ⟨as, has, himage⟩ := bind_eq_ok.mp (image_of_item hdes (modelDump_json clock d.toPriceDecisionRecord)
      (hnumbers d hfarthest.mem))
    obtain rfl := Except.ok.inj (his.attributes.symm.trans has)
    rw [queryLatestDecision, hmax]
    simp only [himage]
    rfl

end

/-- The dictionary of a comprehension over keys of its own. -/
theorem currentPrices_eq {table : Dict (String × String) DecisionItem} {shown : String → Option Value} :
    ∀ {ids : List String}, ids.Nodup → (∀ a ∈ ids, queryLatestDecision deserialize table a = .ok (shown a)) →
    ∃ prices, currentPrices deserialize table ids = .ok prices ∧
      prices.entries = ids.filterMap fun a => (shown a).map fun item => (a, item) := by
  intro ids hids hquery
  suffices hall : ∀ (rest : List String) (prices : Dict String Value), rest.Nodup →
      (∀ a ∈ rest, a ∉ prices.keys) → (∀ a ∈ rest, queryLatestDecision deserialize table a = .ok (shown a)) →
      ∃ prices', rest.foldlM (addPrice deserialize table) prices = .ok prices' ∧
        prices'.entries = prices.entries ++ rest.filterMap fun a => (shown a).map fun item => (a, item) from
    hall ids Dict.empty hids (fun _ _ ha => by cases ha) hquery
  intro rest
  induction rest with
  | nil => exact fun prices _ _ _ => ⟨prices, rfl, (List.append_nil _).symm⟩
  | cons a rest ih =>
    intro prices hnodup hnew hall
    obtain ⟨hnot, hnodup⟩ := List.nodup_cons.mp hnodup
    have hrest : ∀ b ∈ rest, queryLatestDecision deserialize table b = .ok (shown b) :=
      fun b hb => hall b (List.mem_cons_of_mem _ hb)
    rw [List.foldlM_cons, addPrice, hall a List.mem_cons_self, ok_bind]
    cases hshown : shown a with
    | none =>
      simp only [ok_bind, List.filterMap_cons, hshown, Option.map_none]
      exact ih prices hnodup (fun b hb => hnew b (List.mem_cons_of_mem _ hb)) hrest
    | some item =>
      simp only [ok_bind, List.filterMap_cons, hshown, Option.map_some]
      have hput := Dict.entries_put_of_none (Dict.get?_eq_none.mpr (hnew a List.mem_cons_self)) item
      obtain ⟨prices', hfold, hentries⟩ := ih (prices.put a item) hnodup (fun b hb hkeys => by
        rcases Dict.mem_keys_put.mp hkeys with rfl | hkeys
        · exact hnot hb
        · exact hnew b (List.mem_cons_of_mem _ hb) hkeys) hrest
      exact ⟨prices', hfold, by rw [hentries, hput, List.append_assoc]; rfl⟩

theorem map_fst_filterMap {α : Type*} (f : String → Option α) (ids : List String) :
    (ids.filterMap fun a => (f a).map fun d => (a, d)).map Prod.fst = ids.filter fun a => (f a).isSome := by
  induction ids with
  | nil => rfl
  | cons a ids ih => cases hf : f a <;> simp [hf, ih]

/-- At any time the table of current prices has a row for each apartment of which a decision has been recorded, and for
no other: the row of the decision recorded last for its farthest night. -/
theorem current_prices_farthest (hdes : Deserializes t deserialize)
    (h : run (sinkStep t clock assign) Writing.start es = .ok (s, os))
    (hcalendar : ∀ d ∈ decisions es, Date.InRange d.targetDate)
    (hnumbers : ∀ d ∈ decisions es, t.Survives (d.modelDump clock) ∧
      t.AddsUp d.costInputs.fixedAndAllocatedCostsEur d.costInputs.perBookingCostEur)
    (ids : List String) (hids : ids.Nodup) :
    ∃ rows, priceRows deserialize t s.store ids = .ok rows ∧
      rows.map (·.apartmentId) = ids.filter (fun a => s.recorded.any fun x => x.apartmentId = a) ∧
      ∀ row ∈ rows, ∃ d, Farthest t clock (decisions es) s.recorded row.apartmentId d ∧
        row = d.displayRow row.apartmentId := by
  obtain ⟨⟨hrecorded, -⟩, htaken⟩ := run_sink h
  have hquery (a : String) : ∃ o : Option PriceDecision,
      queryLatestDecision deserialize s.store a = .ok (o.map fun d => (d.modelDump clock).received t) ∧
      o.isSome = (s.recorded.any fun x => x.apartmentId = a) ∧
      ∀ d, o = some d → Farthest t clock (decisions es) s.recorded a d := by
    rcases queryLatestDecision_eq hrecorded htaken.subset hcalendar hdes (fun d hd => (hnumbers d hd).1) a with
      ⟨hnone, hno⟩ | ⟨d, hfarthest, ⟨x, hx, hxa⟩, hsome⟩
    · refine ⟨none, hnone, ?_, fun _ hd => by cases hd⟩
      simpa using hno
    · refine ⟨some d, hsome, ?_, fun e he => by rwa [← Option.some.inj he]⟩
      exact (List.any_eq_true.mpr ⟨x, hx, decide_eq_true hxa⟩).symm
  choose shown hshown hsome hfarthest using hquery
  obtain ⟨prices, hprices, hentries⟩ := currentPrices_eq hids fun a _ => hshown a
  let pairs := ids.filterMap fun a => (shown a).map fun d => (a, d)
  have hpairs : prices.entries = pairs.map fun e => (e.1, (e.2.modelDump clock).received t) := by
    rw [hentries, List.map_filterMap]
    refine List.filterMap_congr fun a _ => ?_
    cases shown a <;> rfl
  have hof : ∀ e ∈ pairs, Farthest t clock (decisions es) s.recorded e.1 e.2 := by
    intro e he
    obtain ⟨a, -, ha⟩ := List.mem_filterMap.mp he
    obtain ⟨d, hd, rfl⟩ := Option.map_eq_some_iff.mp ha
    exact hfarthest a d hd
  refine ⟨pairs.map fun e => e.2.displayRow e.1, ?_, ?_, fun row hrow => ?_⟩
  · rw [priceRows, hprices, ok_bind, hpairs, mapM_eq_ok, List.forall₂_map_left_iff, List.forall₂_map_right_iff,
      List.forall₂_same]
    intro e he
    obtain ⟨hsurvives, hsum⟩ := hnumbers e.2 (hof e he).mem
    exact toDisplayRow_received hsurvives hsum e.1
  · rw [List.map_map]
    have hfst : pairs.map Prod.fst = ids.filter fun a => (shown a).isSome := map_fst_filterMap shown ids
    simp only [hsome] at hfst
    exact hfst
  · obtain ⟨e, he, rfl⟩ := List.mem_map.mp hrow
    exact ⟨e.2, hof e he, rfl⟩

theorem lost_answer_shown : ∃ s os,
    run (sinkStep ordinaryNumbers (fun _ => 120) fun _ => 0) Writing.start lostAnswerEvents = .ok (s, os) ∧
    s.recorded.length = 3 ∧
    priceRows (typeDeserializer ordinaryNumbers) ordinaryNumbers s.store ["BCN-001", "BCN-002"] =
      .ok [nextNightDecision.displayRow "BCN-001"] := by
  obtain ⟨s, os, hrun, hrecorded, -, -⟩ := lost_answer_run
  have hcalendar : ∀ d ∈ decisions lostAnswerEvents, Date.InRange d.targetDate := by decide +kernel
  have hnumbers : ∀ d ∈ decisions lostAnswerEvents, ordinaryNumbers.Survives (d.modelDump fun _ => 120) ∧
      ordinaryNumbers.AddsUp d.costInputs.fixedAndAllocatedCostsEur d.costInputs.perBookingCostEur := fun d hd => by
    refine ⟨nightDecisions_survive d hd, ?_⟩
    have hall : ∀ d ∈ nightDecisions,
        ordinaryNumbers.AddsUp d.costInputs.fixedAndAllocatedCostsEur d.costInputs.perBookingCostEur := by
      unfold NumberText.AddsUp
      decide +kernel
    exact hall d hd
  obtain ⟨rows, hrows, hids, hshown⟩ := current_prices_farthest (typeDeserializer_deserializes ordinaryNumbers) hrun
    hcalendar hnumbers ["BCN-001", "BCN-002"] (by decide)
  have hone : rows.map (·.apartmentId) = ["BCN-001"] := by
    rw [hids, hrecorded]
    decide +kernel
  obtain ⟨row, rfl, hid⟩ := List.map_eq_singleton_iff.mp hone
  obtain ⟨d, hfarthest, hrow⟩ := hshown row (List.mem_singleton_self _)
  rw [hid] at hfarthest hrow
  -- the next night's decision is recorded, and it alone is as far ahead
  have hnext : nextNightDecision ∈ nightDecisions := by simp [nightDecisions]
  obtain ⟨item, hmem, hitem⟩ := mem_recorded_nights hrecorded hnext
  have hlast := hfarthest.farthest nextNightDecision hnext item hmem hitem rfl
  have hd : d = nextNightDecision := by
    have hthree : d ∈ nightDecisions := hfarthest.mem
    simp only [nightDecisions, List.mem_cons, List.not_mem_nil, or_false] at hthree
    rcases hthree with rfl | rfl | rfl
    · exact absurd hlast (by decide +kernel)
    · exact absurd hlast (by decide +kernel)
    · rfl
  refine ⟨s, os, hrun, ?_, ?_⟩
  · rw [hrecorded]
    decide +kernel
  · rw [hrows, hrow, hd]

end PriceEngine
