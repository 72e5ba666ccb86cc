import PriceEngine.Checkpoints
import PriceEngine.Compaction
import PriceEngine.ConsumerSound

/-!
# No row lost or doubled

Each record has its own decision. Whatever the order of the consumer's steps and
the compactions', and wherever either crashes, a record at or before its shard's
checkpoint has its row in the table once, and any other row is of a batch that is
still without a checkpoint (`Consistent`). A taken overwrite is a rearrangement of
what the table holds, since its handle is still current.
-/

namespace PriceEngine

/-! ## Rows of a batch -/

variable {t : NumberText} {deserialize : AttributeValue → Except PyError Value}

/-- The row a record makes, at some time. -/
def RowOf (t : NumberText) (deserialize : AttributeValue → Except PyError Value) (r : StreamRecord) (row : Value) :
    Prop :=
  ∃ ingestedAt, rowsOf t deserialize [r] ingestedAt = .ok [row]

theorem entries_isNull {fields : List (String × Except PyError Value)} {v : Value}
    (h : Value.entries fields = .ok v) : v.isNull = false := by
  unfold Value.entries at h
  cases hes : fields.mapM Value.entry with
  | error e => rw [hes] at h; cases h
  | ok es => rw [hes] at h; cases h; rfl

theorem rowsOf_cons {r : StreamRecord} {records : List StreamRecord} {ingestedAt : Instant} {rows : List Value}
    (h : rowsOf t deserialize (r :: records) ingestedAt = .ok rows) :
    ∃ first rest, rowsOf t deserialize [r] ingestedAt = .ok first ∧
      rowsOf t deserialize records ingestedAt = .ok rest ∧ rows = first ++ rest := by
  obtain ⟨parsed, hparse, hproject⟩ := bind_eq_ok.mp h
  obtain ⟨p, ps, hp, hps, rfl⟩ := List.forall₂_cons_left_iff.mp (mapM_eq_ok.mp hparse)
  have hone : [r].mapM (parseStreamRecord deserialize) = .ok [p] := mapM_eq_ok.mpr (.cons hp .nil)
  have hrest := mapM_eq_ok.mpr hps
  cases hnull : p.newImage.isNull with
  | true =>
    rw [List.filter_cons_of_neg (by simp [hnull])] at hproject
    refine ⟨[], rows, ?_, bind_eq_ok.mpr ⟨ps, hrest, hproject⟩, rfl⟩
    refine bind_eq_ok.mpr ⟨[p], hone, ?_⟩
    rw [List.filter_cons_of_neg (by simp [hnull])]
    rfl
  | false =>
    rw [List.filter_cons_of_pos (by simp [hnull])] at hproject
    obtain ⟨row, rest, hrow, hrows, rfl⟩ := List.forall₂_cons_left_iff.mp (mapM_eq_ok.mp hproject)
    refine ⟨[row], rest, ?_, bind_eq_ok.mpr ⟨ps, hrest, mapM_eq_ok.mpr hrows⟩, rfl⟩
    refine bind_eq_ok.mpr ⟨[p], hone, ?_⟩
    rw [List.filter_cons_of_pos (by simp [hnull])]
    exact mapM_eq_ok.mpr (.cons hrow .nil)

theorem rowsOf_single {r : StreamRecord} {ingestedAt : Instant} {rows : List Value}
    (h : rowsOf t deserialize [r] ingestedAt = .ok rows) :
    (rows = [] ∧ r.newImage = none) ∨ ∃ row, rows = [row] := by
  obtain ⟨parsed, hparse, hproject⟩ := bind_eq_ok.mp h
  obtain ⟨p, ps, hp, hps, rfl⟩ := List.forall₂_cons_left_iff.mp (mapM_eq_ok.mp hparse)
  obtain rfl := List.forall₂_nil_left_iff.mp hps
  obtain ⟨image, himage, hp⟩ := bind_eq_ok.mp hp
  obtain rfl := Except.ok.inj hp
  cases hnew : r.newImage with
  | none =>
    rw [hnew] at himage
    obtain rfl := Except.ok.inj himage
    exact .inl ⟨(Except.ok.inj hproject).symm, rfl⟩
  | some attributes =>
    rw [hnew] at himage
    have hnull : image.isNull = false := entries_isNull himage
    rw [List.filter_cons_of_pos (by simp [hnull])] at hproject
    obtain ⟨row, rest, -, hrest, rfl⟩ := List.forall₂_cons_left_iff.mp (mapM_eq_ok.mp hproject)
    obtain rfl := List.forall₂_nil_left_iff.mp hrest
    exact .inr ⟨row, rfl⟩

theorem rowsOf_complete {records : List StreamRecord} {ingestedAt : Instant} {rows : List Value}
    (h : rowsOf t deserialize records ingestedAt = .ok rows) :
    ∀ r ∈ records, r.newImage.isSome → ∃ row ∈ rows, RowOf t deserialize r row := by
  induction records generalizing rows with
  | nil => exact fun r hr => absurd hr List.not_mem_nil
  | cons r records ih =>
    obtain ⟨first, rest, hfirst, hrest, rfl⟩ := rowsOf_cons h
    intro x hx himage
    rcases List.mem_cons.mp hx with rfl | hx
    · rcases rowsOf_single hfirst with ⟨-, hnone⟩ | ⟨row, rfl⟩
      · rw [hnone] at himage
        cases himage
      · exact ⟨row, List.mem_append_left _ (List.mem_singleton_self row), ingestedAt, hfirst⟩
    · obtain ⟨row, hrow, hof⟩ := ih hrest x hx himage
      exact ⟨row, List.mem_append_right _ hrow, hof⟩

theorem rowsOf_sound {records : List StreamRecord} {ingestedAt : Instant} {rows : List Value}
    (h : rowsOf t deserialize records ingestedAt = .ok rows) :
    ∀ row ∈ rows, ∃ r ∈ records, RowOf t deserialize r row := by
  induction records generalizing rows with
  | nil =>
    obtain rfl := Except.ok.inj h
    exact fun row hrow => absurd hrow List.not_mem_nil
  | cons r records ih =>
    obtain ⟨first, rest, hfirst, hrest, rfl⟩ := rowsOf_cons h
    intro row hrow
    rcases List.mem_append.mp hrow with hrow | hrow
    · rcases rowsOf_single hfirst with ⟨rfl, -⟩ | ⟨row', rfl⟩
      · exact absurd hrow List.not_mem_nil
      · obtain rfl := List.mem_singleton.mp hrow
        exact ⟨r, List.mem_cons_self, ingestedAt, hfirst⟩
    · obtain ⟨x, hx, hof⟩ := ih hrest row hrow
      exact ⟨x, List.mem_cons_of_mem _ hx, hof⟩

theorem RowOf.id {r : StreamRecord} {row : Value} (h : RowOf t deserialize r row) :
    (recordId t deserialize r).isSome ∧ decisionId row = recordId t deserialize r := by
  obtain ⟨ingestedAt, h⟩ := h
  have hids := decisionIds_rowsOf h
  cases hid : recordId t deserialize r with
  | none =>
    rw [List.filterMap_cons_none hid] at hids
    cases hids
  | some id =>
    rw [List.filterMap_cons_some hid] at hids
    exact ⟨rfl, (List.cons.inj hids).1⟩

/-! ## The invariant -/

/-- Sequence numbers are those of one record of the shard, and decision ids of one record of the stream. -/
structure OwnDecisions (stream : String → List StreamRecord) (t : NumberText)
    (deserialize : AttributeValue → Except PyError Value) : Prop where
  sequence_nodup : ∀ shard, ((stream shard).map (·.sequenceNumber)).Nodup
  sequence_ne : ∀ shard, ∀ r ∈ stream shard, r.sequenceNumber ≠ ""
  ids_nodup : ∀ shard, ((stream shard).filterMap (recordId t deserialize)).Nodup
  ids_apart : ∀ shard shard', shard ≠ shard' → ∀ r ∈ stream shard, ∀ r' ∈ stream shard',
    (recordId t deserialize r).isSome → recordId t deserialize r ≠ recordId t deserialize r'

section
variable (stream : String → List StreamRecord) (t : NumberText)
  (deserialize : AttributeValue → Except PyError Value)

def settledRecords (checkpoints : Dict String String) (shardId : String) : List StreamRecord :=
  recordsUpTo (stream shardId) (checkpoints.get? shardId)

/-- What the table holds: settled decisions once, and others of batches that have been read, at most once. -/
structure TableConsistent (batches : List Batch) (checkpoints : Dict String String) (rows : List Value) : Prop where
  once : (rows.map decisionId).Nodup
  settled : ∀ shard, ∀ r ∈ settledRecords stream checkpoints shard, r.newImage.isSome →
    ∃ row ∈ rows, RowOf t deserialize r row
  derived : ∀ row ∈ rows, ∃ shard, ∃ r ∈ stream shard, RowOf t deserialize r row ∧
    (r ∈ settledRecords stream checkpoints shard ∨ ∃ b ∈ batches, b.shardId = shard ∧ r ∈ b.records)

/-- The batch the consumer works on: the next records of its shard, and their rows. -/
structure BatchConsistent (batches : List Batch) (checkpoints : Dict String String) (b : Batch) : Prop where
  mem : b ∈ batches
  ne_nil : b.records ≠ []
  isPrefix : b.records <+: recordsAfter (stream b.shardId) (checkpoints.get? b.shardId)
  rows : ∃ ingestedAt, rowsOf t deserialize b.records ingestedAt = .ok b.rows

def ConsumerConsistent (batches : List Batch) (checkpoints : Dict String String) (table : Table) :
    ConsumerPhase → Prop
  | .down => True
  | .polling handle => Handle handle table
  | .read handle b => Handle handle table ∧ BatchConsistent stream t deserialize batches checkpoints b
  | .deleted handle b => Handle handle table ∧ BatchConsistent stream t deserialize batches checkpoints b ∧
      ∀ row ∈ handle.content, decisionId row ∉ b.rows.map decisionId
  | .merged handle b => Handle handle table ∧ BatchConsistent stream t deserialize batches checkpoints b ∧
      b.rows ⊆ table.content

def CompactionConsistent (table : Table) : CompactionPhase → Prop
  | .idle => True
  | .loaded handle => Handle handle table
  | .scanned handle fullData => Handle handle table ∧ fullData.Perm handle.content

structure Consistent (batches : List Batch) (s : Lakehouse) : Prop where
  table : TableConsistent stream t deserialize batches s.checkpoints s.table.content
  consumer : ConsumerConsistent stream t deserialize batches s.checkpoints s.table s.consumer
  compactions : ∀ i, CompactionConsistent s.table (s.compactions i)
  batches : ∀ b ∈ batches, b.records <:+: stream b.shardId

end

variable {stream : String → List StreamRecord} {batches : List Batch} {s : Lakehouse}

theorem consistent_empty : Consistent stream t deserialize [] Lakehouse.empty where
  table := ⟨List.nodup_nil, fun _ _ hr => absurd hr List.not_mem_nil, fun _ hrow => absurd hrow List.not_mem_nil⟩
  consumer := trivial
  compactions := fun _ => trivial
  batches := fun _ hb => absurd hb List.not_mem_nil

/-! ## A later table -/

theorem TableConsistent.perm {checkpoints : Dict String String} {rows rows' : List Value}
    (h : TableConsistent stream t deserialize batches checkpoints rows) (hp : rows'.Perm rows) :
    TableConsistent stream t deserialize batches checkpoints rows' where
  once := (hp.map decisionId).nodup_iff.mpr h.once
  settled := fun shard r hr himage => by
    obtain ⟨row, hrow, hof⟩ := h.settled shard r hr himage
    exact ⟨row, hp.mem_iff.mpr hrow, hof⟩
  derived := fun row hrow => h.derived row (hp.mem_iff.mp hrow)

theorem CompactionConsistent.commit {table base next : Table} {rows : List Value} {phase : CompactionPhase}
    (h : CompactionConsistent table phase) (hc : table.commit base rows = some next) :
    CompactionConsistent next phase := by
  cases phase with
  | idle => trivial
  | loaded handle => exact Handle.commit h hc
  | scanned handle fullData => exact ⟨h.1.commit hc, h.2⟩

/-- A commit of a rearrangement is none of the consumer's business, but for its handle. -/
theorem ConsumerConsistent.commit {checkpoints : Dict String String} {table base next : Table} {rows : List Value}
    {phase : ConsumerPhase} (h : ConsumerConsistent stream t deserialize batches checkpoints table phase)
    (hc : table.commit base rows = some next) (hp : rows.Perm table.content) :
    ConsumerConsistent stream t deserialize batches checkpoints next phase := by
  cases phase with
  | down => trivial
  | polling handle => exact Handle.commit h hc
  | read handle b => exact ⟨h.1.commit hc, h.2⟩
  | deleted handle b => exact ⟨h.1.commit hc, h.2⟩
  | merged handle b =>
    refine ⟨h.1.commit hc, h.2.1, fun row hrow => ?_⟩
    rw [commit_content hc]
    exact hp.mem_iff.mpr (h.2.2 hrow)

/-! ## Compactions -/

theorem consistent_setCompaction (h : Consistent stream t deserialize batches s) {i : ℕ} {phase : CompactionPhase}
    (hphase : CompactionConsistent s.table phase) :
    Consistent stream t deserialize batches (s.setCompaction i phase) where
  table := h.table
  consumer := h.consumer
  compactions := fun j => by
    by_cases hj : j = i
    · simpa only [Lakehouse.setCompaction, hj, if_true] using hphase
    · simpa only [Lakehouse.setCompaction, hj, if_false] using h.compactions j
  batches := h.batches

theorem consistent_load (h : Consistent stream t deserialize batches s) (i : ℕ) :
    Consistent stream t deserialize batches (loadTable s i) := by
  unfold loadTable
  split
  · exact consistent_setCompaction h (Handle.refl s.table)
  · exact h

theorem consistent_scan (h : Consistent stream t deserialize batches s) (i : ℕ) (order : ScanOrder) :
    Consistent stream t deserialize batches (scanTable s i order) := by
  unfold scanTable
  split
  · rename_i table hi
    have hphase := h.compactions i
    rw [hi] at hphase
    exact consistent_setCompaction h ⟨hphase, order.perm table.content⟩
  · exact h

theorem scanned_perm (h : Consistent stream t deserialize batches s) {i : ℕ} {table next : Table}
    {fullData : List Value} (hi : s.compactions i = .scanned table fullData)
    (hc : s.table.commit table fullData = some next) : fullData.Perm s.table.content := by
  have hphase := h.compactions i
  rw [hi] at hphase
  have hperm := hphase.2
  rw [hphase.1.base_eq hc] at hperm
  exact hperm

theorem consistent_overwrite (h : Consistent stream t deserialize batches s) (i : ℕ) :
    Consistent stream t deserialize batches (overwriteCommit s i) := by
  unfold overwriteCommit
  split
  · rename_i table fullData hi
    split_ifs
    · exact consistent_setCompaction h trivial
    · split
      · rename_i next hc
        have hperm := scanned_perm h hi hc
        refine consistent_setCompaction (s := { s with table := next }) ?_ trivial
        exact {
          table := by
            have htable := h.table.perm hperm
            rwa [← commit_content hc] at htable
          consumer := h.consumer.commit hc hperm
          compactions := fun j => (h.compactions j).commit hc
          batches := h.batches }
      · exact consistent_setCompaction h trivial
  · exact h

theorem overwrite_perm (h : Consistent stream t deserialize batches s) (i : ℕ) :
    (overwriteCommit s i).table.content.Perm s.table.content := by
  unfold overwriteCommit
  split
  · rename_i table fullData hi
    split_ifs
    · exact List.Perm.refl _
    · split
      · rename_i next hc
        have hperm := scanned_perm h hi hc
        rw [← commit_content hc] at hperm
        exact hperm
      · exact List.Perm.refl _
  · exact List.Perm.refl _

/-! ## The records of a batch -/

theorem eq_of_filterMap_nodup {α β : Type*} {f : α → Option β} {l : List α} (h : (l.filterMap f).Nodup) {x y : α}
    {b : β} (hx : x ∈ l) (hy : y ∈ l) (hfx : f x = some b) (hfy : f y = some b) : x = y := by
  induction l with
  | nil => exact absurd hx List.not_mem_nil
  | cons a l ih =>
    have hmem : ∀ z ∈ l, f z = some b → b ∈ l.filterMap f := fun z hz hfz => List.mem_filterMap.mpr ⟨z, hz, hfz⟩
    cases ha : f a with
    | none =>
      rw [List.filterMap_cons_none ha] at h
      rcases List.mem_cons.mp hx with rfl | hx
      · rw [ha] at hfx; cases hfx
      rcases List.mem_cons.mp hy with rfl | hy
      · rw [ha] at hfy; cases hfy
      exact ih h hx hy
    | some c =>
      rw [List.filterMap_cons_some ha, List.nodup_cons] at h
      rcases List.mem_cons.mp hx with rfl | hx' <;> rcases List.mem_cons.mp hy with rfl | hy'
      · rfl
      · exact absurd (hmem y hy' hfy) (by rw [ha] at hfx; cases hfx; exact h.1)
      · exact absurd (hmem x hx' hfx) (by rw [ha] at hfy; cases hfy; exact h.1)
      · exact ih h.2 hx' hy'

theorem OwnDecisions.inj (hown : OwnDecisions stream t deserialize) {shard shard' : String} {r r' : StreamRecord}
    (hr : r ∈ stream shard) (hr' : r' ∈ stream shard') (hsome : (recordId t deserialize r).isSome)
    (heq : recordId t deserialize r = recordId t deserialize r') : shard = shard' ∧ r = r' := by
  have hshard : shard = shard' := by
    by_contra hne
    exact hown.ids_apart shard shard' hne r hr r' hr' hsome heq
  obtain ⟨id, hid⟩ := Option.isSome_iff_exists.mp hsome
  subst hshard
  exact ⟨rfl, eq_of_filterMap_nodup (hown.ids_nodup shard) hr hr' hid (heq ▸ hid)⟩

theorem OwnDecisions.nodup (hown : OwnDecisions stream t deserialize) (shard : String) : (stream shard).Nodup :=
  (hown.sequence_nodup shard).of_map _

section
variable {checkpoints : Dict String String} {b : Batch}

variable (stream checkpoints) in
theorem settledRecords_append (shard : String) :
    settledRecords stream checkpoints shard ++ recordsAfter (stream shard) (checkpoints.get? shard) = stream shard :=
  recordsUpTo_append ..

theorem BatchConsistent.mem_after (hb : BatchConsistent stream t deserialize batches checkpoints b)
    {r : StreamRecord} (hr : r ∈ b.records) : r ∈ recordsAfter (stream b.shardId) (checkpoints.get? b.shardId) :=
  hb.isPrefix.subset hr

theorem BatchConsistent.mem_stream (hb : BatchConsistent stream t deserialize batches checkpoints b)
    {r : StreamRecord} (hr : r ∈ b.records) : r ∈ stream b.shardId := by
  rw [← settledRecords_append stream checkpoints]
  exact List.mem_append_right _ (hb.mem_after hr)

theorem BatchConsistent.row_of (hb : BatchConsistent stream t deserialize batches checkpoints b) {k : Option String}
    (hk : k ∈ b.rows.map decisionId) :
    ∃ r ∈ b.records, (recordId t deserialize r).isSome ∧ k = recordId t deserialize r := by
  obtain ⟨row, hrow, rfl⟩ := List.mem_map.mp hk
  obtain ⟨ingestedAt, hrows⟩ := hb.rows
  obtain ⟨r, hr, hof⟩ := rowsOf_sound hrows row hrow
  exact ⟨r, hr, hof.id⟩

/-- Settled decisions are not in the batch, which comes after the checkpoint. -/
theorem settled_notMem (hown : OwnDecisions stream t deserialize)
    (hb : BatchConsistent stream t deserialize batches checkpoints b) {shard : String} {r : StreamRecord} {row : Value}
    (hr : r ∈ settledRecords stream checkpoints shard) (hof : RowOf t deserialize r row) :
    decisionId row ∉ b.rows.map decisionId := by
  intro hk
  obtain ⟨r', hr', hsome, heq⟩ := hb.row_of hk
  rw [hof.id.2] at heq
  have hmem : r ∈ stream shard := by
    rw [← settledRecords_append stream checkpoints]
    exact List.mem_append_left _ hr
  obtain ⟨rfl, rfl⟩ := hown.inj hmem (hb.mem_stream hr') hof.id.1 heq
  have hnodup := hown.nodup b.shardId
  rw [← settledRecords_append stream checkpoints] at hnodup
  exact (List.nodup_append.mp hnodup).2.2 r hr r (hb.mem_after hr') rfl

theorem batch_ids_nodup (hown : OwnDecisions stream t deserialize)
    (hb : BatchConsistent stream t deserialize batches checkpoints b) : (b.rows.map decisionId).Nodup := by
  obtain ⟨ingestedAt, hrows⟩ := hb.rows
  rw [decisionIds_rowsOf hrows]
  refine List.Nodup.map (Option.some_injective _) ?_
  have hsub : b.records.Sublist (stream b.shardId) := by
    rw [← settledRecords_append stream checkpoints b.shardId]
    exact hb.isPrefix.sublist.trans (List.sublist_append_right _ _)
  exact (hown.ids_nodup b.shardId).sublist (hsub.filterMap _)

/-! ## Merging the batch -/

variable {rows : List Value}

theorem TableConsistent.delete (hown : OwnDecisions stream t deserialize)
    (h : TableConsistent stream t deserialize batches checkpoints rows)
    (hb : BatchConsistent stream t deserialize batches checkpoints b) :
    TableConsistent stream t deserialize batches checkpoints (deleteRows rows b.rows) := by
  rw [deleteRows_eq]
  exact {
    once := h.once.sublist (List.filter_sublist.map _)
    settled := fun shard r hr himage => by
      obtain ⟨row, hrow, hof⟩ := h.settled shard r hr himage
      refine ⟨row, List.mem_filter.mpr ⟨hrow, ?_⟩, hof⟩
      simpa using settled_notMem hown hb hr hof
    derived := fun row hrow => h.derived row (List.mem_of_mem_filter hrow) }

theorem notMem_deleteRows (rows : List Value) (b : Batch) :
    ∀ row ∈ deleteRows rows b.rows, decisionId row ∉ b.rows.map decisionId := by
  rw [deleteRows_eq]
  intro row hrow
  simpa using (List.mem_filter.mp hrow).2

theorem TableConsistent.append (hown : OwnDecisions stream t deserialize)
    (h : TableConsistent stream t deserialize batches checkpoints rows)
    (hb : BatchConsistent stream t deserialize batches checkpoints b)
    (hnew : ∀ row ∈ rows, decisionId row ∉ b.rows.map decisionId) :
    TableConsistent stream t deserialize batches checkpoints (rows ++ b.rows) where
  once := by
    rw [List.map_append]
    refine List.nodup_append.mpr ⟨h.once, batch_ids_nodup hown hb, fun k hk k' hk' heq => ?_⟩
    obtain ⟨row, hrow, rfl⟩ := List.mem_map.mp hk
    exact hnew row hrow (heq ▸ hk')
  settled := fun shard r hr himage => by
    obtain ⟨row, hrow, hof⟩ := h.settled shard r hr himage
    exact ⟨row, List.mem_append_left _ hrow, hof⟩
  derived := fun row hrow => by
    rcases List.mem_append.mp hrow with hrow | hrow
    · exact h.derived row hrow
    · obtain ⟨ingestedAt, hrows⟩ := hb.rows
      obtain ⟨r, hr, hof⟩ := rowsOf_sound hrows row hrow
      exact ⟨b.shardId, r, hb.mem_stream hr, hof, .inr ⟨b, hb.mem, rfl, hr⟩⟩

/-- Writing the checkpoint settles the batch, and nothing else. -/
theorem settledRecords_put (hown : OwnDecisions stream t deserialize)
    (hb : BatchConsistent stream t deserialize batches checkpoints b) (table : List Value) (shard : String) :
    settledRecords stream (putCheckpoint ⟨table, checkpoints⟩ b.shardId b.records) shard =
      settledRecords stream checkpoints shard ++ if shard = b.shardId then b.records else [] := by
  rcases List.eq_nil_or_concat b.records with hnil | ⟨m, r, hrecords⟩
  · exact absurd hnil hb.ne_nil
  rw [List.concat_eq_append] at hrecords
  rw [putCheckpoint, hrecords, List.getLast?_concat, settledRecords, Dict.get?_put]
  split_ifs with hshard
  · subst hshard
    obtain ⟨q, hq⟩ := hb.isPrefix
    have hsplit : stream b.shardId = (settledRecords stream checkpoints b.shardId ++ m) ++ r :: q := by
      rw [← settledRecords_append stream checkpoints b.shardId, ← hq, hrecords]
      simp
    have hnodup := hown.sequence_nodup b.shardId
    have hne := hown.sequence_ne b.shardId r (hb.mem_stream (by rw [hrecords]; simp))
    rw [hsplit] at hnodup ⊢
    rw [recordsUpTo_concat hnodup hne, List.append_assoc]
  · rw [List.append_nil]
    rfl

theorem TableConsistent.checkpoint (hown : OwnDecisions stream t deserialize)
    (h : TableConsistent stream t deserialize batches checkpoints rows)
    (hb : BatchConsistent stream t deserialize batches checkpoints b) (hrows : b.rows ⊆ rows) (table : List Value) :
    TableConsistent stream t deserialize batches (putCheckpoint ⟨table, checkpoints⟩ b.shardId b.records) rows where
  once := h.once
  settled := fun shard r hr himage => by
    rw [settledRecords_put hown hb, List.mem_append] at hr
    rcases hr with hr | hr
    · exact h.settled shard r hr himage
    · split_ifs at hr
      · obtain ⟨ingestedAt, hof⟩ := hb.rows
        obtain ⟨row, hrow, hof⟩ := rowsOf_complete hof r hr himage
        exact ⟨row, hrows hrow, hof⟩
      · exact absurd hr List.not_mem_nil
  derived := fun row hrow => by
    obtain ⟨shard, r, hr, hof, hor⟩ := h.derived row hrow
    refine ⟨shard, r, hr, hof, hor.imp_left fun hr => ?_⟩
    rw [settledRecords_put hown hb]
    exact List.mem_append_left _ hr

end

/-! ## The consumer's steps -/

theorem ConsumerConsistent.mono {batches' : List Batch} {checkpoints : Dict String String} {table : Table}
    {phase : ConsumerPhase} (h : ConsumerConsistent stream t deserialize batches checkpoints table phase)
    (hb : batches ⊆ batches') : ConsumerConsistent stream t deserialize batches' checkpoints table phase := by
  have hmono : ∀ {b}, BatchConsistent stream t deserialize batches checkpoints b →
      BatchConsistent stream t deserialize batches' checkpoints b :=
    fun h => ⟨hb h.mem, h.ne_nil, h.isPrefix, h.rows⟩
  cases phase with
  | down => trivial
  | polling handle => exact h
  | read handle b => exact ⟨h.1, hmono h.2⟩
  | deleted handle b => exact ⟨h.1, hmono h.2.1, h.2.2⟩
  | merged handle b => exact ⟨h.1, hmono h.2.1, h.2.2⟩

theorem Consistent.setConsumer (h : Consistent stream t deserialize batches s) {phase : ConsumerPhase}
    (hphase : ConsumerConsistent stream t deserialize batches s.checkpoints s.table phase) :
    Consistent stream t deserialize batches { s with consumer := phase } :=
  ⟨h.table, hphase, h.compactions, h.batches⟩

theorem Consistent.read (h : Consistent stream t deserialize batches s) {b : Batch}
    (hb : b.records <:+: stream b.shardId) : Consistent stream t deserialize (batches ++ [b]) s where
  table := {
    once := h.table.once
    settled := h.table.settled
    derived := fun row hrow => by
      obtain ⟨shard, r, hr, hof, hor⟩ := h.table.derived row hrow
      exact ⟨shard, r, hr, hof, hor.imp_right fun ⟨b, hb, hshard⟩ => ⟨b, List.mem_append_left _ hb, hshard⟩⟩ }
  consumer := h.consumer.mono (List.subset_append_left _ _)
  compactions := h.compactions
  batches := List.forall_mem_append.mpr ⟨h.batches, List.forall_mem_singleton.mpr hb⟩

theorem Consistent.commit (h : Consistent stream t deserialize batches s) {base next : Table} {rows : List Value}
    {phase : ConsumerPhase} (hc : s.table.commit base rows = some next)
    (htable : TableConsistent stream t deserialize batches s.checkpoints rows)
    (hphase : ConsumerConsistent stream t deserialize batches s.checkpoints next phase) :
    Consistent stream t deserialize batches { s with table := next, consumer := phase } where
  table := by rwa [← commit_content hc] at htable
  consumer := hphase
  compactions := fun i => (h.compactions i).commit hc
  batches := h.batches

theorem consistent_start (h : Consistent stream t deserialize batches s) :
    Consistent stream t deserialize batches (startConsumer s) := by
  unfold startConsumer
  split
  · exact h.setConsumer (Handle.refl s.table)
  · exact h

theorem consistent_read (h : Consistent stream t deserialize batches s) (shardId : String) (count : ℕ)
    (ingestedAt : Instant) :
    Consistent stream t deserialize (batches ++ (readBatch stream t deserialize s shardId count ingestedAt).2)
      (readBatch stream t deserialize s shardId count ingestedAt).1 := by
  unfold readBatch
  split
  · rename_i table hphase
    have hhandle := h.consumer
    rw [hphase] at hhandle
    dsimp only
    split_ifs with hempty
    · rwa [List.append_nil]
    · split
      · rw [List.append_nil]
        exact h.setConsumer trivial
      · rename_i rows hrows
        let records := getRecords stream ⟨table.content, s.checkpoints⟩ ⟨shardId, count, ingestedAt, none⟩
        have hprefix : records <+: recordsAfter (stream shardId) (s.checkpoints.get? shardId) :=
          List.take_prefix _ _
        have hinfix : records <:+: stream shardId := by
          rw [← settledRecords_append stream s.checkpoints shardId]
          exact hprefix.isInfix.trans (List.suffix_append _ _).isInfix
        have hread := h.read (b := ⟨shardId, records, rows⟩) hinfix
        exact hread.setConsumer ⟨hhandle, List.mem_append_right _ (List.mem_singleton_self _),
          fun hnil => hempty (List.isEmpty_iff.mpr hnil), hprefix, ingestedAt, hrows⟩
  · rwa [List.append_nil]

theorem consistent_delete (hown : OwnDecisions stream t deserialize)
    (h : Consistent stream t deserialize batches s) (skips : Bool) :
    Consistent stream t deserialize batches (deleteCommit s skips) := by
  unfold deleteCommit
  split
  · rename_i table batch hphase
    have hconsumer := h.consumer
    rw [hphase] at hconsumer
    obtain ⟨hhandle, hb⟩ := hconsumer
    split_ifs with hempty hskip
    · refine h.setConsumer ⟨hhandle, hb, ?_⟩
      rw [List.isEmpty_iff.mp hempty]
      exact List.nil_subset _
    · refine h.setConsumer ⟨hhandle, hb, fun row hrow => ?_⟩
      have hnone := List.all_eq_true.mp (Bool.and_eq_true_iff.mp hskip).2 row hrow
      simpa using hnone
    · split
      · rename_i next hc
        have hdelete := h.table.delete hown hb
        rw [← hhandle.base_eq hc] at hdelete
        refine h.commit hc hdelete ⟨Handle.refl next, hb, ?_⟩
        rw [commit_content hc]
        exact notMem_deleteRows table.content batch
      · exact h.setConsumer trivial
  · exact h

theorem consistent_append (hown : OwnDecisions stream t deserialize)
    (h : Consistent stream t deserialize batches s) : Consistent stream t deserialize batches (appendCommit s) := by
  unfold appendCommit
  split
  · rename_i table batch hphase
    have hconsumer := h.consumer
    rw [hphase] at hconsumer
    obtain ⟨hhandle, hb, hnew⟩ := hconsumer
    split
    · rename_i next hc
      have htable := h.table
      rw [← hhandle.base_eq hc] at htable
      refine h.commit hc (htable.append hown hb hnew) ⟨Handle.refl next, hb, ?_⟩
      rw [commit_content hc]
      exact List.subset_append_right _ _
    · exact h.setConsumer trivial
  · exact h

theorem consistent_checkpoint (hown : OwnDecisions stream t deserialize)
    (h : Consistent stream t deserialize batches s) : Consistent stream t deserialize batches (writeCheckpoint s) := by
  unfold writeCheckpoint
  split
  · rename_i table batch hphase
    have hconsumer := h.consumer
    rw [hphase] at hconsumer
    obtain ⟨hhandle, hb, hrows⟩ := hconsumer
    exact ⟨h.table.checkpoint hown hb hrows _, hhandle, h.compactions, h.batches⟩
  · exact h

theorem consistent_quiet {s' s'' : Lakehouse} {bs : List Batch} (h : Consistent stream t deserialize batches s'')
    (hs : (.ok (s'', []) : Except PyError (Lakehouse × List Batch)) = .ok (s', bs)) :
    Consistent stream t deserialize (batches ++ bs) s' := by
  obtain ⟨rfl, rfl⟩ := Prod.mk.inj (Except.ok.inj hs)
  rwa [List.append_nil]

theorem consistent_step (hown : OwnDecisions stream t deserialize) {s' : Lakehouse} {e : LakehouseEvent}
    {bs : List Batch} (h : Consistent stream t deserialize batches s)
    (hs : lakehouseStep stream t deserialize s e = .ok (s', bs)) :
    Consistent stream t deserialize (batches ++ bs) s' := by
  cases e with
  | start => exact consistent_quiet (consistent_start h) hs
  | read shardId count ingestedAt =>
    have hread := consistent_read h shardId count ingestedAt
    rw [Except.ok.inj hs] at hread
    exact hread
  | delete skips => exact consistent_quiet (consistent_delete hown h skips) hs
  | append => exact consistent_quiet (consistent_append hown h) hs
  | checkpoint => exact consistent_quiet (consistent_checkpoint hown h) hs
  | crash =>
    have hdown : ConsumerConsistent stream t deserialize batches s.checkpoints s.table .down := trivial
    exact consistent_quiet (h.setConsumer hdown) hs
  | load i => exact consistent_quiet (consistent_load h i) hs
  | scan i order => exact consistent_quiet (consistent_scan h i order) hs
  | overwrite i => exact consistent_quiet (consistent_overwrite h i) hs
  | crashCompaction i =>
    have hidle : CompactionConsistent s.table .idle := trivial
    exact consistent_quiet (consistent_setCompaction h hidle) hs

theorem run_consistent (hown : OwnDecisions stream t deserialize) {es : List LakehouseEvent}
    (h : run (lakehouseStep stream t deserialize) Lakehouse.empty es = .ok (s, batches)) :
    Consistent stream t deserialize batches s :=
  run_prefix (I := fun _ s batches => Consistent stream t deserialize batches s) consistent_empty
    (fun _ _ _ _ _ _ _ _ _ hi hs => consistent_step hown hi hs) h

/-! ## What is visible in every state -/

/-- A batch whose checkpoint is not yet written: its last record lies after the checkpoint. -/
def Batch.Open (stream : String → List StreamRecord) (checkpoints : Dict String String) (b : Batch) : Prop :=
  ∀ last ∈ b.records.getLast?, last ∉ settledRecords stream checkpoints b.shardId

theorem rowsWith_of_nodup {α κ : Type*} [DecidableEq κ] {key : α → κ} {rows : List α} (h : (rows.map key).Nodup)
    {row : α} (hrow : row ∈ rows) : rowsWith key (key row) rows = [row] := by
  have hlen : (rowsWith key (key row) rows).length = 1 := by
    rw [rowsWith_length]
    exact List.count_eq_one_of_mem h (List.mem_map_of_mem hrow)
  obtain ⟨x, hx⟩ := List.length_eq_one_iff.mp hlen
  have hmem : row ∈ rowsWith key (key row) rows := mem_rowsWith.mpr ⟨hrow, rfl⟩
  rw [hx] at hmem ⊢
  rw [List.mem_singleton.mp hmem]

theorem batch_open (hown : OwnDecisions stream t deserialize) {b : Batch} {checkpoints : Dict String String}
    (hb : b.records <:+: stream b.shardId) {r : StreamRecord} (hr : r ∈ b.records)
    (hafter : r ∉ settledRecords stream checkpoints b.shardId) : b.Open stream checkpoints := by
  intro last hlast hmem
  obtain ⟨m, hrecords⟩ := List.getLast?_eq_some_iff.mp hlast
  rw [hrecords] at hb hr
  have hprefix : settledRecords stream checkpoints b.shardId <+: stream b.shardId :=
    ⟨_, settledRecords_append stream checkpoints b.shardId⟩
  exact hafter (subset_of_last_mem (hown.nodup b.shardId) hprefix hb hmem hr)

/-! ## Frames -/

theorem startConsumer_checkpoints (s : Lakehouse) : (startConsumer s).checkpoints = s.checkpoints := by
  unfold startConsumer
  split <;> rfl

theorem readBatch_checkpoints (s : Lakehouse) (shardId : String) (count : ℕ) (ingestedAt : Instant) :
    (readBatch stream t deserialize s shardId count ingestedAt).1.checkpoints = s.checkpoints := by
  unfold readBatch
  split
  · dsimp only
    split_ifs
    · rfl
    · split <;> rfl
  · rfl

theorem deleteCommit_checkpoints (s : Lakehouse) (skips : Bool) :
    (deleteCommit s skips).checkpoints = s.checkpoints := by
  unfold deleteCommit
  split
  · split_ifs
    · rfl
    · rfl
    · split <;> rfl
  · rfl

theorem appendCommit_checkpoints (s : Lakehouse) : (appendCommit s).checkpoints = s.checkpoints := by
  unfold appendCommit
  split
  · split <;> rfl
  · rfl

theorem writeCheckpoint_table (s : Lakehouse) : (writeCheckpoint s).table = s.table := by
  unfold writeCheckpoint
  split <;> rfl

theorem loadTable_checkpoints (s : Lakehouse) (i : ℕ) : (loadTable s i).checkpoints = s.checkpoints := by
  unfold loadTable
  split <;> rfl

theorem scanTable_checkpoints (s : Lakehouse) (i : ℕ) (order : ScanOrder) :
    (scanTable s i order).checkpoints = s.checkpoints := by
  unfold scanTable
  split <;> rfl

theorem overwriteCommit_checkpoints (s : Lakehouse) (i : ℕ) : (overwriteCommit s i).checkpoints = s.checkpoints := by
  unfold overwriteCommit
  split
  · split_ifs
    · rfl
    · split <;> rfl
  · rfl

theorem checkpoints_or_table {s' : Lakehouse} {e : LakehouseEvent} {bs : List Batch}
    (hs : lakehouseStep stream t deserialize s e = .ok (s', bs)) :
    s'.checkpoints = s.checkpoints ∨ s'.table = s.table := by
  have hquiet : ∀ {x : Lakehouse × List Batch}, (Except.ok x : Except PyError _) = .ok (s', bs) →
      x.1.checkpoints = s.checkpoints → s'.checkpoints = s.checkpoints ∨ s'.table = s.table :=
    fun hx h => .inl (by rw [← h, Except.ok.inj hx])
  cases e with
  | start => exact hquiet hs (startConsumer_checkpoints s)
  | read shardId count ingestedAt => exact hquiet hs (readBatch_checkpoints s shardId count ingestedAt)
  | delete skips => exact hquiet hs (deleteCommit_checkpoints s skips)
  | append => exact hquiet hs (appendCommit_checkpoints s)
  | checkpoint =>
    obtain ⟨rfl, -⟩ := Prod.mk.inj (Except.ok.inj hs)
    exact .inr (writeCheckpoint_table s)
  | crash => exact hquiet hs rfl
  | load i => exact hquiet hs (loadTable_checkpoints s i)
  | scan i order => exact hquiet hs (scanTable_checkpoints s i order)
  | overwrite i => exact hquiet hs (overwriteCommit_checkpoints s i)
  | crashCompaction i => exact hquiet hs rfl

/-- Wherever the commits and the crashes of the consumer and of the compactions fall, the table holds each
settled decision once and otherwise decisions of open batches, each once at most; an overwrite only rearranges
the rows, and no checkpoint passes a record whose row is not yet in the table. -/
theorem compaction_and_ingestion_exact (hown : OwnDecisions stream t deserialize) {es : List LakehouseEvent}
    (h : run (lakehouseStep stream t deserialize) Lakehouse.empty es = .ok (s, batches)) :
    (∀ shard, ∀ r ∈ settledRecords stream s.checkpoints shard, r.newImage.isSome →
      ∃ row, RowOf t deserialize r row ∧ rowsWith decisionId (decisionId row) s.table.content = [row]) ∧
    (∀ row ∈ s.table.content, rowsWith decisionId (decisionId row) s.table.content = [row] ∧
      ∃ shard, ∃ r ∈ stream shard, RowOf t deserialize r row ∧ (r ∈ settledRecords stream s.checkpoints shard ∨
        ∃ b ∈ batches, b.shardId = shard ∧ r ∈ b.records ∧ b.Open stream s.checkpoints)) ∧
    (∀ i, (overwriteCommit s i).table.content.Perm s.table.content) ∧
    ∀ e s' bs, lakehouseStep stream t deserialize s e = .ok (s', bs) → ∀ shard,
      ∀ r ∈ settledRecords stream s'.checkpoints shard, r.newImage.isSome →
        ∃ row ∈ s.table.content, RowOf t deserialize r row := by
  have hs := run_consistent hown h
  refine ⟨?_, ?_, overwrite_perm hs, ?_⟩
  · intro shard r hr himage
    obtain ⟨row, hrow, hof⟩ := hs.table.settled shard r hr himage
    exact ⟨row, hof, rowsWith_of_nodup hs.table.once hrow⟩
  · intro row hrow
    obtain ⟨shard, r, hr, hof, hor⟩ := hs.table.derived row hrow
    refine ⟨rowsWith_of_nodup hs.table.once hrow, shard, r, hr, hof, ?_⟩
    by_cases hsettled : r ∈ settledRecords stream s.checkpoints shard
    · exact .inl hsettled
    · obtain ⟨b, hb, rfl, hmem⟩ := hor.resolve_left hsettled
      exact .inr ⟨b, hb, rfl, hmem, batch_open hown (hs.batches b hb) hmem hsettled⟩
  · intro e s' bs hstep shard r hr himage
    rcases checkpoints_or_table hstep with hcheckpoints | htable
    · rw [hcheckpoints] at hr
      exact hs.table.settled shard r hr himage
    · rw [← htable]
      exact (consistent_step hown hs hstep).table.settled shard r hr himage

/-! ## An undisturbed pass -/

/-- The commits of a batch, with nothing between them, merge its rows. -/
theorem undisturbed_merge {b : Batch} (hphase : s.consumer = .read s.table b) :
    ∃ s', writeCheckpoint (appendCommit (deleteCommit s false)) = s' ∧
      s'.table.content = mergeRows s.table.content b.rows ∧
      s'.checkpoints = putCheckpoint ⟨s.table.content, s.checkpoints⟩ b.shardId b.records ∧
      s'.consumer = .polling s'.table := by
  refine ⟨_, rfl, ?_⟩
  by_cases hnone : b.rows.isEmpty
  · have hdelete : deleteCommit s false = { s with consumer := .merged s.table b } := by
      simp only [deleteCommit, hphase, hnone, if_true]
    rw [hdelete, mergeRows, if_pos hnone]
    exact ⟨rfl, rfl, rfl⟩
  · let deleted : Table := ⟨s.table.version + 1, deleteRows s.table.content b.rows⟩
    let appended : Table := ⟨s.table.version + 2, deleted.content ++ b.rows⟩
    have hdelete : deleteCommit s false = { s with table := deleted, consumer := .deleted deleted b } := by
      simp only [deleteCommit, hphase, hnone, Bool.false_and, Bool.false_eq_true, if_false, Snapshot.commit, if_true,
        deleted]
    have happend : appendCommit { s with table := deleted, consumer := .deleted deleted b } =
        { s with table := appended, consumer := .merged appended b } := by
      simp only [appendCommit, Snapshot.commit, if_true, deleted, appended]
    rw [hdelete, happend, mergeRows, if_neg hnone]
    refine ⟨?_, rfl, rfl⟩
    simp only [writeCheckpoint, appended, deleted, deleteRows, if_neg hnone]

/-- With nothing between its steps, the consumer does what `processShardOnce` says. -/
theorem undisturbed_pass (hphase : s.consumer = .polling s.table) {shardId : String} {count : ℕ} {ingestedAt : Instant}
    {c : Consumer} {os : List Completed} (h : processShardOnce stream t deserialize ⟨s.table.content, s.checkpoints⟩
      ⟨shardId, count, ingestedAt, none⟩ = .ok (c, os)) :
    ∃ s' bs, run (lakehouseStep stream t deserialize) s
      [.read shardId count ingestedAt, .delete false, .append, .checkpoint] = .ok (s', bs) ∧
      s'.table.content = c.table ∧ s'.checkpoints = c.checkpoints ∧ s'.consumer = .polling s'.table := by
  obtain ⟨rows, hrows, h⟩ := bind_eq_ok.mp h
  obtain ⟨rfl, -⟩ := Prod.mk.inj (Except.ok.inj h)
  refine ⟨writeCheckpoint (appendCommit (deleteCommit (readBatch stream t deserialize s shardId count ingestedAt).1
    false)), _, rfl, ?_⟩
  clear h
  revert hrows
  simp only [readBatch, hphase]
  generalize getRecords stream ⟨s.table.content, s.checkpoints⟩ ⟨shardId, count, ingestedAt, none⟩ = records
  intro hrows
  cases records with
  | nil =>
    obtain rfl := Except.ok.inj hrows
    simp only [List.isEmpty_nil, if_true, deleteCommit, appendCommit, writeCheckpoint, hphase]
    exact ⟨rfl, rfl, trivial⟩
  | cons r records =>
    simp only [List.isEmpty_cons, Bool.false_eq_true, if_false, hrows]
    obtain ⟨s', rfl, hmerged⟩ := undisturbed_merge
      (s := { s with consumer := .read s.table ⟨shardId, r :: records, rows⟩ }) rfl
    exact hmerged

/-! ## Decisions ingested -/

def nightRecords : String → List StreamRecord := fun shard =>
  if shard = "shard" then
    (nightDecisions.zip [("INSERT", "1"), ("MODIFY", "2"), ("INSERT", "3")]).map fun e =>
      ⟨e.2.1, e.2.2, (toDynamodbItem ordinaryNumbers (e.1.modelDump fun _ => 120)).toOption⟩
  else []

theorem nightRecords_own : OwnDecisions nightRecords ordinaryNumbers (typeDeserializer ordinaryNumbers) where
  sequence_nodup := fun shard => by
    unfold nightRecords
    split_ifs
    · decide
    · exact List.nodup_nil
  sequence_ne := fun shard => by
    unfold nightRecords
    split_ifs
    · decide
    · exact fun r hr => absurd hr List.not_mem_nil
  ids_nodup := fun shard => by
    unfold nightRecords
    split_ifs
    · decide +kernel
    · exact List.nodup_nil
  ids_apart := fun shard shard' hne r hr r' hr' => by
    unfold nightRecords at hr hr'
    split_ifs at hr hr' with h h'
    · exact absurd (h.trans h'.symm) hne
    · exact absurd hr' List.not_mem_nil
    · exact absurd hr List.not_mem_nil
    · exact absurd hr List.not_mem_nil

def reversedScan : ScanOrder := ⟨List.reverse, List.reverse_perm⟩

/-- A crash between the append and the checkpoint; an overwrite that a delete has come before, one that turns the rows
around, and a delete that it makes fail. -/
def disturbedEvents : List LakehouseEvent :=
  [.start, .read "shard" 1 0, .delete false, .append, .crash, .load 0, .scan 0 reversedScan, .start, .read "shard" 2 0,
    .delete false, .overwrite 0, .append, .checkpoint, .load 0, .scan 0 reversedScan, .overwrite 0, .read "shard" 1 0,
    .delete false, .start, .read "shard" 1 0, .delete false, .append, .checkpoint]

theorem three_decisions_ingested : ∃ s batches,
    run (lakehouseStep nightRecords ordinaryNumbers (typeDeserializer ordinaryNumbers)) Lakehouse.empty disturbedEvents =
      .ok (s, batches) ∧ batches.length = 4 ∧ s.table.content.length = 3 ∧
    (settledRecords nightRecords s.checkpoints "shard").length = 3 ∧
    ∀ r ∈ settledRecords nightRecords s.checkpoints "shard", r.newImage.isSome →
      ∃ row, RowOf ordinaryNumbers (typeDeserializer ordinaryNumbers) r row ∧
        rowsWith decisionId (decisionId row) s.table.content = [row] := by
  have hclosed : (run (lakehouseStep nightRecords ordinaryNumbers (typeDeserializer ordinaryNumbers)) Lakehouse.empty
      disturbedEvents).toOption.map (fun r => (r.2.length, r.1.table.content.length,
        (settledRecords nightRecords r.1.checkpoints "shard").length)) = some (4, 3, 3) := by
    decide +kernel
  obtain ⟨⟨s, batches⟩, hrun, hsizes⟩ := ok_of_map hclosed
  obtain ⟨hbatches, hsizes⟩ := Prod.mk.inj hsizes
  obtain ⟨hrows, hsettled⟩ := Prod.mk.inj hsizes
  exact ⟨s, batches, hrun, hbatches, hrows, hsettled, (compaction_and_ingestion_exact nightRecords_own hrun).1 "shard"⟩

end PriceEngine
