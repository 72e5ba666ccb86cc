import PriceEngine.Consumer
import PriceEngine.LakehouseSound

/-!
# One row per decision

A decision id may come again in a later batch, in the next attempt after a crash
or twice in one batch. Its rows are those that the last pass to touch it has left:
one for each time the batch carries the id if the pass got past its append, none if
it crashed between the deletion and the append (`upToDate_iff`). So the table has one
row for each decision exactly where that pass wrote and its batch has the id once.
-/

namespace PriceEngine

/-! ## Ids of records -/

def imageId (t : NumberText) (image : Value) : Option String :=
  match image.item "decision_id" with
  | .ok v =>
    match Lakehouse.toStr t v with
    | .str id => some id
    | _ => none
  | .error _ => none

/-- The decision id of a record; those without an image have none. -/
def recordId (t : NumberText) (deserialize : AttributeValue → Except PyError Value) (r : StreamRecord) :
    Option String :=
  match deserializeImage deserialize r.newImage with
  | .ok image => if image.isNull then none else imageId t image
  | .error _ => none

variable {t : NumberText} {deserialize : AttributeValue → Except PyError Value}

theorem Value.entries_head {key : String} {x : Except PyError Value} {fields : List (String × Except PyError Value)}
    {row : Value} (h : Value.entries ((key, x) :: fields) = .ok row) : ∃ v, x = .ok v ∧ row.item key = .ok v := by
  obtain ⟨es, hes, hrow⟩ : ∃ es, ((key, x) :: fields).mapM Value.entry = .ok es ∧ row = .dict es := by
    unfold Value.entries at h
    cases hes : ((key, x) :: fields).mapM Value.entry with
    | error e => rw [hes] at h; cases h
    | ok es => rw [hes] at h; exact ⟨es, rfl, (Except.ok.inj h).symm⟩
  obtain ⟨e, rest, he, -, rfl⟩ := List.forall₂_cons_left_iff.mp (mapM_eq_ok.mp hes)
  cases x with
  | error err => cases he
  | ok v =>
    cases he
    exact ⟨v, rfl, by simp [hrow, Value.item]⟩

theorem toStr_eq_str (t : NumberText) (v : Value) : ∃ id, Lakehouse.toStr t v = .str id := by
  cases v <;> exact ⟨_, rfl⟩

theorem decisionId_row {image row : Value} {eventName : String} {ingestedAt : Instant}
    (h : rowFromNewImage t image eventName ingestedAt = .ok row) :
    ∃ id, imageId t image = some id ∧ decisionId row = some id := by
  unfold rowFromNewImage at h
  obtain ⟨_, -, h⟩ := bind_eq_ok.mp h
  obtain ⟨_, -, h⟩ := bind_eq_ok.mp h
  obtain ⟨_, -, h⟩ := bind_eq_ok.mp h
  obtain ⟨_, -, h⟩ := bind_eq_ok.mp h
  obtain ⟨_, -, h⟩ := bind_eq_ok.mp h
  obtain ⟨w, hw, hrow⟩ := Value.entries_head h
  obtain ⟨v, hv, hstr⟩ := bind_eq_ok.mp hw
  obtain ⟨id, hid⟩ := toStr_eq_str t v
  rw [← Except.ok.inj hstr, hid] at hrow
  exact ⟨id, by simp only [imageId, hv, hid], by simp only [decisionId, hrow]⟩

/-- The rows of a batch have the ids of its records, in order, whenever they are ingested. -/
theorem decisionIds_rowsOf {records : List StreamRecord} {ingestedAt : Instant} {rows : List Value}
    (h : rowsOf t deserialize records ingestedAt = .ok rows) :
    rows.map decisionId = (records.filterMap (recordId t deserialize)).map some := by
  obtain ⟨parsed, hparse, hproject⟩ := bind_eq_ok.mp h
  have hall := mapM_eq_ok.mp hparse
  have hrows := mapM_eq_ok.mp hproject
  clear h hparse hproject
  induction hall generalizing rows with
  | nil =>
    cases hrows
    rfl
  | @cons r p records parsed hr _ ih =>
    obtain ⟨image, himage, hp⟩ := bind_eq_ok.mp hr
    have hp := Except.ok.inj hp
    cases hnull : image.isNull with
    | true =>
      have hid : recordId t deserialize r = none := by simp only [recordId, himage, hnull, if_true]
      rw [List.filter_cons_of_neg (by simp [← hp, hnull])] at hrows
      rw [List.filterMap_cons_none hid]
      exact ih hrows
    | false =>
      rw [List.filter_cons_of_pos (by simp [← hp, hnull])] at hrows
      obtain ⟨row, rest, hrow, hrest, rfl⟩ := List.forall₂_cons_left_iff.mp hrows
      obtain ⟨id, hid, hrowId⟩ := decisionId_row hrow
      have hid : recordId t deserialize r = some id := by
        rw [← hp] at hid
        simp only [recordId, himage, hnull, Bool.false_eq_true, if_false, hid]
      rw [List.filterMap_cons_some hid, List.map_cons, List.map_cons, hrowId, ih hrest]

/-! ## One pass -/

variable {stream : String → List StreamRecord}

/-- A pass and the records it read, whether or not it crashed. -/
structure Reading where
  pass : Pass
  records : List StreamRecord

def Reading.ids (t : NumberText) (deserialize : AttributeValue → Except PyError Value) (a : Reading) : List String :=
  a.records.filterMap (recordId t deserialize)

/-- A pass that crashes before its deletion has not touched the table. -/
def Reading.touched (a : Reading) : Bool := a.pass.crash != some .delete

/-- The pass got past its append. -/
def Reading.written (a : Reading) : Bool := a.pass.crash = none || a.pass.crash = some .checkpoint

def reading (stream : String → List StreamRecord) (s : Consumer) (pass : Pass) : Reading :=
  ⟨pass, getRecords stream s pass⟩

theorem mergeRows_eq (table rows : List Value) : mergeRows table rows = merge decisionId table rows := by
  unfold mergeRows
  split_ifs with h
  · rw [List.isEmpty_iff.mp h, merge_nil]
  · rfl

theorem deleteRows_eq (table rows : List Value) :
    deleteRows table rows = discard decisionId (rows.map decisionId) table := by
  unfold deleteRows
  split_ifs with h
  · simp [List.isEmpty_iff.mp h, discard]
  · rfl

/-- What a pass does to the table. -/
theorem step_table {s s' : Consumer} {pass : Pass} {os : List Completed}
    (h : processShardOnce stream t deserialize s pass = .ok (s', os)) :
    ((reading stream s pass).touched = false ∧ s'.table = s.table) ∨
    ((reading stream s pass).touched = true ∧ ∃ rows,
      rowsOf t deserialize (reading stream s pass).records pass.ingestedAt = .ok rows ∧
      s'.table = if (reading stream s pass).written then merge decisionId s.table rows
        else discard decisionId (rows.map decisionId) s.table) := by
  unfold processShardOnce at h
  cases hcrash : pass.crash with
  | none =>
    rw [hcrash] at h
    obtain ⟨rows, hrows, h⟩ := bind_eq_ok.mp h
    obtain ⟨rfl, -⟩ := Prod.mk.inj (Except.ok.inj h)
    refine .inr ⟨by simp [Reading.touched, reading, hcrash], rows, hrows, ?_⟩
    rw [if_pos (by simp [Reading.written, reading, hcrash]), ← mergeRows_eq]
  | some point =>
    rw [hcrash] at h
    cases point with
    | delete =>
      obtain ⟨rfl, -⟩ := Prod.mk.inj (Except.ok.inj h)
      exact .inl ⟨by simp [Reading.touched, reading, hcrash], rfl⟩
    | append =>
      obtain ⟨rows, hrows, h⟩ := bind_eq_ok.mp h
      obtain ⟨rfl, -⟩ := Prod.mk.inj (Except.ok.inj h)
      refine .inr ⟨by simp [Reading.touched, reading, hcrash], rows, hrows, ?_⟩
      rw [if_neg (by simp [Reading.written, reading, hcrash]), ← deleteRows_eq]
    | checkpoint =>
      obtain ⟨rows, hrows, h⟩ := bind_eq_ok.mp h
      obtain ⟨rfl, -⟩ := Prod.mk.inj (Except.ok.inj h)
      refine .inr ⟨by simp [Reading.touched, reading, hcrash], rows, hrows, ?_⟩
      rw [if_pos (by simp [Reading.written, reading, hcrash]), ← mergeRows_eq]

/-! ## Runs -/

/-- All passes of a run so far, those that crashed included. -/
def readings (stream : String → List StreamRecord) (t : NumberText)
    (deserialize : AttributeValue → Except PyError Value) (s₀ : Consumer) (passes : List Pass) : List Reading :=
  observed (processShardOnce stream t deserialize) (fun s pass _ as => as ++ [reading stream s pass]) s₀ [] passes

/-- The last of the passes that read a record with the id. -/
def lastToRead (t : NumberText) (deserialize : AttributeValue → Except PyError Value) (as : List Reading)
    (id : String) : Option Reading :=
  (as.filter fun a => id ∈ a.ids t deserialize).getLast?

/-- One row for each id that was read, that of the last record with the id. -/
def OneRowEach (t : NumberText) (deserialize : AttributeValue → Except PyError Value) (table : List Value)
    (as : List Reading) : Prop :=
  ∀ id a, lastToRead t deserialize as id = some a → ∃ rows,
    rowsOf t deserialize a.records a.pass.ingestedAt = .ok rows ∧ UpToDate decisionId table rows (some id)

/-- Of each id that was read, the last pass to read it got past its append, and read it once. -/
def WrittenOnce (t : NumberText) (deserialize : AttributeValue → Except PyError Value) (as : List Reading) : Prop :=
  ∀ id a, lastToRead t deserialize as id = some a → a.written = true ∧ (a.ids t deserialize).count id = 1

theorem readings_concat {s₀ s s' : Consumer} {passes : List Pass} {pass : Pass} {os o : List Completed}
    (h : run (processShardOnce stream t deserialize) s₀ passes = .ok (s, os))
    (hstep : processShardOnce stream t deserialize s pass = .ok (s', o)) :
    readings stream t deserialize s₀ (passes ++ [pass]) =
      readings stream t deserialize s₀ passes ++ [reading stream s pass] := observed_concat h hstep

theorem lastToRead_concat (as : List Reading) (b : Reading) (id : String) :
    lastToRead t deserialize (as ++ [b]) id =
      if id ∈ b.ids t deserialize then some b else lastToRead t deserialize as id := by
  unfold lastToRead
  rw [List.filter_append]
  split_ifs with h
  · rw [List.filter_cons_of_pos (by simpa using h), List.filter_nil, List.getLast?_concat]
  · rw [List.filter_cons_of_neg (by simpa using h), List.filter_nil, List.append_nil]

theorem lastToRead_singleton {b : Reading} {id : String} (h : id ∈ b.ids t deserialize) :
    lastToRead t deserialize [b] id = some b := by
  rw [← List.nil_append [b], lastToRead_concat, if_pos h]

/-- The pass that crashed before its deletion is no exception: of the passes that have touched the table the last to
read the id is the same. -/
theorem lastToRead_touched {as : List Reading} {id : String} {a : Reading}
    (h : lastToRead t deserialize as id = some a) (ha : a.touched = true) :
    lastToRead t deserialize (as.filter Reading.touched) id = some a := by
  obtain ⟨before, hbefore⟩ := List.getLast?_eq_some_iff.mp h
  rw [lastToRead, List.filter_comm, hbefore, List.filter_append, List.filter_cons_of_pos ha, List.filter_nil,
    List.getLast?_concat]

theorem rowsOf_length {records : List StreamRecord} {ingestedAt : Instant} {rows : List Value}
    (h : rowsOf t deserialize records ingestedAt = .ok rows) (id : String) :
    (rowsWith decisionId (some id) rows).length = (records.filterMap (recordId t deserialize)).count id := by
  have hcount := List.count_map_of_injective (records.filterMap (recordId t deserialize)) some
    (Option.some_injective String) id
  rw [← decisionIds_rowsOf h] at hcount
  rw [rowsWith_length]
  convert hcount

/-- The rows of an id are those that the last pass to touch it has left. -/
theorem upToDate_iff {s₀ s : Consumer} {passes : List Pass} {os : List Completed}
    (h : run (processShardOnce stream t deserialize) s₀ passes = .ok (s, os)) :
    ∀ id a, lastToRead t deserialize ((readings stream t deserialize s₀ passes).filter Reading.touched) id = some a →
      ∃ rows, rowsOf t deserialize a.records a.pass.ingestedAt = .ok rows ∧
        (UpToDate decisionId s.table rows (some id) ↔
          a.written = true ∧ (a.ids t deserialize).count id = 1) := by
  refine run_prefix (I := fun p s _ => ∀ id a,
    lastToRead t deserialize ((readings stream t deserialize s₀ p).filter Reading.touched) id = some a →
      ∃ rows, rowsOf t deserialize a.records a.pass.ingestedAt = .ok rows ∧
        (UpToDate decisionId s.table rows (some id) ↔
          a.written = true ∧ (a.ids t deserialize).count id = 1)) ?_ ?_ h
  · intro id a hlast
    cases hlast
  intro p e q s os s' o _ hp hi hstep id a hlast
  rw [readings_concat hp hstep, List.filter_append] at hlast
  rcases step_table hstep with ⟨htouched, htable⟩ | ⟨htouched, rows, hrows, htable⟩
  · -- the pass has touched nothing
    rw [List.filter_cons_of_neg (by simp [htouched]), List.filter_nil, List.append_nil] at hlast
    rw [htable]
    exact hi id a hlast
  rw [List.filter_cons_of_pos htouched, List.filter_nil, lastToRead_concat] at hlast
  split_ifs at hlast with hid
  · obtain rfl := Option.some.inj hlast
    have hmem : some id ∈ rows.map decisionId := by
      rw [decisionIds_rowsOf hrows]
      exact List.mem_map_of_mem hid
    refine ⟨rows, hrows, ?_⟩
    rw [htable]
    split_ifs with hwritten
    · rw [iff_true_intro hwritten, true_and, Reading.ids, ← rowsOf_length hrows id, rowsWith_length]
      exact upToDate_merge_mem [] hmem
    · exact iff_of_false (not_upToDate_discard hmem) fun hw => hwritten hw.1
  · have hnot : some id ∉ rows.map decisionId := by
      rw [decisionIds_rowsOf hrows, List.mem_map_of_injective (Option.some_injective _)]
      exact hid
    obtain ⟨rows', hrows', hiff⟩ := hi id a hlast
    refine ⟨rows', hrows', ?_⟩
    rw [← hiff, htable]
    split_ifs
    · rw [UpToDate, rowsWith_merge_notMem hnot, UpToDate]
    · exact upToDate_discard hnot

theorem oneRowEach_iff {s₀ s : Consumer} {passes : List Pass} {os : List Completed}
    (h : run (processShardOnce stream t deserialize) s₀ passes = .ok (s, os)) :
    OneRowEach t deserialize s.table ((readings stream t deserialize s₀ passes).filter Reading.touched) ↔
      WrittenOnce t deserialize ((readings stream t deserialize s₀ passes).filter Reading.touched) := by
  refine forall₃_congr fun id a hlast => ?_
  obtain ⟨rows, hrows, hiff⟩ := upToDate_iff h id a hlast
  rw [← hiff]
  refine ⟨fun hone => ?_, fun hup => ⟨rows, hrows, hup⟩⟩
  obtain ⟨rows', hrows', hup⟩ := hone
  rw [Except.ok.inj (hrows.symm.trans hrows')]
  exact hup

/-- A pass that reads again whatever was read, each id once, leaves nothing undone. -/
theorem writtenOnce_concat (as : List Reading) {b : Reading}
    (hagain : ∀ a ∈ as, a.ids t deserialize ⊆ b.ids t deserialize) (hwritten : b.written = true)
    (hnodup : (b.ids t deserialize).Nodup) : WrittenOnce t deserialize (as ++ [b]) := by
  intro id a hlast
  rw [lastToRead_concat] at hlast
  split_ifs at hlast with hid
  · obtain rfl := Option.some.inj hlast
    exact ⟨hwritten, List.count_eq_one_of_mem hnodup hid⟩
  · obtain ⟨ha, hin⟩ := List.mem_filter.mp (List.mem_of_getLast? hlast)
    exact absurd (hagain a ha (of_decide_eq_true hin)) hid

/-- `P` holds of the table and of the passes so far after every pass that completes. -/
def AfterEachCompleted (stream : String → List StreamRecord) (t : NumberText)
    (deserialize : AttributeValue → Except PyError Value) (s₀ : Consumer) (passes : List Pass)
    (P : List Value → List Reading → Prop) : Prop :=
  ∀ p e q s os, passes = p ++ e :: q → e.crash = none →
    run (processShardOnce stream t deserialize) s₀ (p ++ [e]) = .ok (s, os) →
      P s.table (readings stream t deserialize s₀ (p ++ [e]))

/-- A decision as the stream delivers it; what cannot be written has no image. -/
def overriddenStreamRecord (eventName sequenceNumber : String) : StreamRecord where
  eventName := eventName
  sequenceNumber := sequenceNumber
  newImage := (toDynamodbItem ordinaryNumbers (overriddenDecision.modelDump fun _ => 120)).toOption

theorem rowsOf_overridden (records : List (String × String)) (ingestedAt : Instant) :
    rowsOf ordinaryNumbers (typeDeserializer ordinaryNumbers)
      (records.map fun r => overriddenStreamRecord r.1 r.2) ingestedAt =
        .ok (records.map fun r => overriddenDecision.row r.1 ingestedAt) := by
  obtain ⟨item, hitem, himage⟩ := bind_eq_ok.mp (image_of_item (typeDeserializer_deserializes _)
    (modelDump_json _ overriddenDecision.toPriceDecisionRecord) overridden_survives)
  let image := (overriddenDecision.modelDump fun _ => 120).received ordinaryNumbers
  have hparse : (records.map fun r => overriddenStreamRecord r.1 r.2).mapM
      (parseStreamRecord (typeDeserializer ordinaryNumbers)) = .ok (records.map fun r => ⟨r.1, r.2, image⟩) := by
    rw [mapM_eq_ok, List.forall₂_map_left_iff, List.forall₂_map_right_iff, List.forall₂_same]
    intro r _
    have hnew : (overriddenStreamRecord r.1 r.2).newImage = some item := congrArg Except.toOption hitem
    rw [parseStreamRecord, hnew, himage]
    rfl
  have hkeep : (records.map fun r => (⟨r.1, r.2, image⟩ : ParsedRecord)).filter (fun p => !p.newImage.isNull) =
      records.map fun r => ⟨r.1, r.2, image⟩ :=
    List.filter_eq_self.mpr fun p hp => by
      obtain ⟨r, _, rfl⟩ := List.mem_map.mp hp
      rfl
  rw [rowsOf, hparse, ok_bind, hkeep, mapM_eq_ok, List.forall₂_map_left_iff, List.forall₂_map_right_iff,
    List.forall₂_same]
  exact fun r _ => rowFromNewImage_received overridden_survives overridden_calendar r.1 ingestedAt

theorem recordId_overridden (records : List (String × String)) :
    (records.map fun r => overriddenStreamRecord r.1 r.2).filterMap
      (recordId ordinaryNumbers (typeDeserializer ordinaryNumbers)) =
        List.replicate records.length "22222222-2222-2222-2222-222222222222" := by
  have hids := decisionIds_rowsOf (rowsOf_overridden records 0)
  have hrow : (decisionId ∘ fun r : String × String => overriddenDecision.row r.1 0) =
      fun _ => some "22222222-2222-2222-2222-222222222222" := by
    funext r
    simp [decisionId, PriceDecisionRecord.row, Value.item, overriddenDecision, overriddenRecord]
  rw [List.map_map, hrow, List.map_const'] at hids
  exact List.map_injective_iff.mpr (Option.some_injective _) (by rw [← hids, List.map_replicate])

def overriddenStream : String → List StreamRecord := fun _ =>
  [overriddenStreamRecord "INSERT" "1", overriddenStreamRecord "MODIFY" "2"]

abbrev overriddenStep : Consumer → Pass → Except PyError (Consumer × List Completed) :=
  processShardOnce overriddenStream ordinaryNumbers (typeDeserializer ordinaryNumbers)

abbrev overriddenReadings : Consumer → List Pass → List Reading :=
  readings overriddenStream ordinaryNumbers (typeDeserializer ordinaryNumbers)

def emptyConsumer : Consumer := { table := [], checkpoints := Dict.empty }

theorem overriddenStep_eq (s : Consumer) (shardId : String) (count : ℕ) (ingestedAt : Instant)
    (records : List (String × String))
    (h : getRecords overriddenStream s ⟨shardId, count, ingestedAt, none⟩ =
      records.map fun r => overriddenStreamRecord r.1 r.2) :
    overriddenStep s ⟨shardId, count, ingestedAt, none⟩ =
      let rows := records.map fun r => overriddenDecision.row r.1 ingestedAt
      let read := records.map fun r => overriddenStreamRecord r.1 r.2
      .ok (⟨mergeRows s.table rows, putCheckpoint s shardId read⟩, [⟨read, rows, mergeRows s.table rows⟩]) := by
  unfold overriddenStep processShardOnce
  simp only [h, rowsOf_overridden, ok_bind]

/-- The pass that crashes before its append. -/
theorem overriddenStep_crash (s : Consumer) (shardId : String) (count : ℕ) (ingestedAt : Instant)
    (records : List (String × String))
    (h : getRecords overriddenStream s ⟨shardId, count, ingestedAt, some .append⟩ =
      records.map fun r => overriddenStreamRecord r.1 r.2) :
    overriddenStep s ⟨shardId, count, ingestedAt, some .append⟩ =
      .ok ({ s with table := deleteRows s.table (records.map fun r => overriddenDecision.row r.1 ingestedAt) }, []) := by
  unfold overriddenStep processShardOnce
  simp only [h, rowsOf_overridden, ok_bind]

theorem ids_overridden (pass : Pass) (records : List (String × String)) :
    Reading.ids ordinaryNumbers (typeDeserializer ordinaryNumbers)
      ⟨pass, records.map fun r => overriddenStreamRecord r.1 r.2⟩ =
        List.replicate records.length "22222222-2222-2222-2222-222222222222" := recordId_overridden records

/-- A restart begins at the first shard: after its pass, the decision that shard `b` had deleted is still missing. -/
theorem interrupted_decision_no_row : ∃ s os, s.table = [] ∧
    os.map Completed.table = [[overriddenDecision.row "INSERT" 0], []] ∧
    run overriddenStep emptyConsumer [⟨"b", 1, 0, none⟩, ⟨"b", 1, 1, some .append⟩, ⟨"a", 0, 2, none⟩] =
      .ok (s, os) := by
  have hfirst := overriddenStep_eq emptyConsumer "b" 1 0 [("INSERT", "1")] rfl
  have hdeleted : overriddenStep ⟨[overriddenDecision.row "INSERT" 0], Dict.empty.put "b" "1"⟩
      ⟨"b", 1, 1, some .append⟩ = .ok (⟨[], Dict.empty.put "b" "1"⟩, []) :=
    overriddenStep_crash _ "b" 1 1 [("MODIFY", "2")] rfl
  have hrestart := overriddenStep_eq ⟨[], Dict.empty.put "b" "1"⟩ "a" 0 2 [] rfl
  exact ⟨_, _, rfl, rfl, run_cons.mpr ⟨_, _, _, hfirst, run_cons.mpr ⟨_, _, _, hdeleted, run_singleton.mpr hrestart,
    rfl⟩, rfl⟩⟩

end PriceEngine
