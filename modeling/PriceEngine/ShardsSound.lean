import Mathlib.Data.Fintype.Card
import Mathlib.Data.Set.Finite.Basic
import Mathlib.Logic.Relation
import PriceEngine.Checkpoints
import PriceEngine.ConsumerSound
import PriceEngine.Shards

/-!
# Parents before children

A shard counts as drained once it is closed and read to its end, and stays so,
since a closed shard takes no records. A shard is selected only with its parent
drained or no longer listed, so none of its records is read before the last of its
parent's. Of the listed shards that are not drained, one has no such parent.
-/

namespace PriceEngine

/-! ## A first element -/

/-- In a finite collection, an acyclic relation leaves some element of every kind without a predecessor of that
kind. -/
theorem exists_no_predecessor {α : Type*} {r : α → α → Prop} (hr : ∀ a, ¬ Relation.TransGen r a a) (l : List α)
    {P : α → Prop} (h : ∃ a ∈ l, P a) : ∃ a ∈ l, P a ∧ ∀ b ∈ l, P b → ¬ r b a := by
  let below : {a // a ∈ l} → {a // a ∈ l} → Prop := fun a b => Relation.TransGen r a.1 b.1
  have hfinite : Finite {a // a ∈ l} := l.finite_toSet
  have htrans : IsTrans {a // a ∈ l} below := ⟨fun _ _ _ hab hbc => Relation.TransGen.trans hab hbc⟩
  have hirrefl : Std.Irrefl below := ⟨fun a => hr a.1⟩
  have hwf : WellFounded below := Finite.wellFounded_of_trans_of_irrefl below
  obtain ⟨a, ha, hPa⟩ := h
  obtain ⟨x, hPx, hmin⟩ := hwf.has_min {y | P y.1} ⟨⟨a, ha⟩, hPa⟩
  exact ⟨x.1, x.2, hPx, fun b hb hPb hbx => hmin ⟨b, hb⟩ hPb (.single hbx)⟩

/-! ## Selecting -/

def IsParent (shards : List Shard) (p c : Shard) : Prop :=
  p ∈ shards ∧ c ∈ shards ∧ c.parentShardId = some p.shardId

def AcyclicParents (shards : List Shard) : Prop := ∀ shard, ¬ Relation.TransGen (IsParent shards) shard shard

section
variable {shards : List Shard} {drained : Finset String} {shard : Shard}

theorem parentPending_iff : parentPending shards drained shard = true ↔
    ∃ parentId, shard.parentShardId = some parentId ∧ parentId ∈ shards.map (·.shardId) ∧ parentId ∉ drained := by
  unfold parentPending
  cases shard.parentShardId with
  | none => simp
  | some parentId => simp

theorem mem_orderShards : shard ∈ orderShardsForProcessing shards drained ↔
    shard ∈ shards ∧ parentPending shards drained shard = false := by
  rw [orderShardsForProcessing, List.mem_insertionSort, List.mem_filter, Bool.not_eq_true']

theorem parent_drained (h : shard ∈ orderShardsForProcessing shards drained) {parentId : String}
    (hparent : shard.parentShardId = some parentId) (hlisted : parentId ∈ shards.map (·.shardId)) :
    parentId ∈ drained := by
  by_contra hnot
  have hpending := parentPending_iff.mpr ⟨parentId, hparent, hlisted, hnot⟩
  rw [(mem_orderShards.mp h).2] at hpending
  cases hpending

theorem undrained_selected (hacyclic : AcyclicParents shards) (h : ∃ shard ∈ shards, shard.shardId ∉ drained) :
    ∃ shard ∈ orderShardsForProcessing shards drained, shard ∈ shards ∧ shard.shardId ∉ drained := by
  obtain ⟨shard, hmem, hdrained, hfirst⟩ := exists_no_predecessor hacyclic shards h
  refine ⟨shard, mem_orderShards.mpr ⟨hmem, ?_⟩, hmem, hdrained⟩
  by_contra hpending
  obtain ⟨parentId, hparent, hlisted, hnot⟩ := parentPending_iff.mp (Bool.not_eq_false _ ▸ hpending)
  obtain ⟨parent, hp, rfl⟩ := List.mem_map.mp hlisted
  exact hfirst parent hp hnot ⟨hp, hmem, hparent⟩

end

/-! ## The stream -/

variable {t : NumberText} {deserialize : AttributeValue → Except PyError Value} {s : Polling}

theorem arrive_closed {log : ShardLog} (h : log.closed = true) (r : StreamRecord) : log.arrive r = log := by
  rw [ShardLog.arrive, dif_neg]
  rw [h]
  exact fun hc => by cases hc.1

/-- A drained shard is closed and read to its end; the parents of what is still to read are drained. -/
structure PollingConsistent (s : Polling) : Prop where
  drained : ∀ id ∈ s.drained, (s.logs id).closed = true ∧ s.unread id = []
  pending : ∀ shard ∈ s.pending, ∀ parentId, shard.parentShardId = some parentId →
    parentId ∈ s.shards.map (·.shardId) → parentId ∈ s.drained

theorem pollingConsistent_restart (s : Polling) : PollingConsistent s.restart where
  drained := fun _ h => absurd h (Finset.notMem_empty _)
  pending := fun _ h => absurd h List.not_mem_nil

theorem pollingConsistent_setLog (h : PollingConsistent s) {shardId : String} {log : ShardLog}
    (hlog : (s.logs shardId).closed = true → log.closed = true ∧ log.records = (s.logs shardId).records) :
    PollingConsistent (s.setLog shardId log) where
  drained := fun id hid => by
    obtain ⟨hclosed, hunread⟩ := h.drained id hid
    unfold Polling.unread Polling.stream at hunread ⊢
    by_cases heq : id = shardId
    · subst heq
      obtain ⟨hclosed', hrecords⟩ := hlog hclosed
      rw [← hrecords] at hunread
      simpa only [Polling.setLog, if_true] using ⟨hclosed', hunread⟩
    · simpa only [Polling.setLog, heq, if_false] using ⟨hclosed, hunread⟩
  pending := h.pending

theorem pollingConsistent_describe (h : PollingConsistent s) (shards : List Shard) : PollingConsistent
    { s with shards := shards, pending := orderShardsForProcessing shards s.drained } where
  drained := h.drained
  pending := fun _ hshard _ hparent hlisted => parent_drained hshard hparent hlisted

/-! ## Reading a shard -/

theorem unread_of_completed {pass : Pass} {consumer : Consumer} {os : List Completed} (hcrash : pass.crash = none)
    (h : processShardOnce s.stream t deserialize s.consumer pass = .ok (consumer, os)) (id : String) :
    recordsAfter (s.stream id) (consumer.checkpoints.get? id) =
      if id = pass.shardId then (s.unread id).drop (getRecords s.stream s.consumer pass).length else s.unread id := by
  have hcheckpoints : consumer.checkpoints =
      putCheckpoint s.consumer pass.shardId (getRecords s.stream s.consumer pass) := by
    unfold processShardOnce at h
    rw [hcrash] at h
    obtain ⟨rows, -, h⟩ := bind_eq_ok.mp h
    obtain ⟨rfl, -⟩ := Prod.mk.inj (Except.ok.inj h)
    rfl
  rw [hcheckpoints, putCheckpoint]
  cases hlast : (getRecords s.stream s.consumer pass).getLast? with
  | none =>
    rw [List.getLast?_eq_none_iff.mp hlast, List.length_nil, List.drop_zero, ite_self]
    rfl
  | some r =>
    show recordsAfter (s.stream id) ((s.consumer.checkpoints.put pass.shardId r.sequenceNumber).get? id) = _
    rw [Dict.get?_put]
    split_ifs with hid
    · subst hid
      have hafter := recordsAfter_take (s.logs pass.shardId).nodup (s.logs pass.shardId).ne_empty hlast
      rw [Polling.stream, hafter, getRecords, List.length_take, List.drop_eq_drop_min]
      rfl
    · rfl

theorem pollingConsistent_read (h : PollingConsistent s) {shard : Shard} {rest : List Shard}
    (hpending : s.pending = shard :: rest) {pass : Pass} {consumer : Consumer} {os : List Completed}
    (hshard : pass.shardId = shard.shardId) (hcrash : pass.crash = none)
    (hread : processShardOnce s.stream t deserialize s.consumer pass = .ok (consumer, os)) :
    PollingConsistent { s with
      consumer := consumer
      drained := if s.noNextIterator pass then insert shard.shardId s.drained else s.drained
      pending := rest } where
  drained := fun id hid => by
    have hunread := unread_of_completed hcrash hread id
    have hor : id ∈ s.drained ∨ id = pass.shardId ∧ s.noNextIterator pass = true := by
      split_ifs at hid with hend
      · rcases Finset.mem_insert.mp hid with rfl | hid
        · exact .inr ⟨hshard.symm, hend⟩
        · exact .inl hid
      · exact .inl hid
    show (s.logs id).closed = true ∧ recordsAfter (s.stream id) (consumer.checkpoints.get? id) = []
    rw [hunread]
    rcases hor with hid | ⟨rfl, hend⟩
    · obtain ⟨hclosed, hnil⟩ := h.drained id hid
      rw [hnil, List.drop_nil, ite_self]
      exact ⟨hclosed, rfl⟩
    · obtain ⟨hclosed, hnil⟩ := Bool.and_eq_true_iff.mp hend
      rw [if_pos rfl]
      exact ⟨hclosed, List.isEmpty_iff.mp hnil⟩
  pending := fun x hx parentId hparent hlisted => by
    have hdrained := h.pending x (hpending ▸ List.mem_cons_of_mem _ hx) parentId hparent hlisted
    show parentId ∈ if s.noNextIterator pass then insert shard.shardId s.drained else s.drained
    split_ifs
    · exact Finset.mem_insert_of_mem hdrained
    · exact hdrained

theorem pollingConsistent_process (h : PollingConsistent s) (count : ℕ) (ingestedAt : Instant)
    (crash : Option CrashPoint) : PollingConsistent (processNext t deserialize s count ingestedAt crash).1 := by
  unfold processNext
  split
  · exact h
  · rename_i shard rest hpending
    dsimp only
    split
    · exact pollingConsistent_restart s
    · rename_i consumer os hread
      by_cases hcrash : crash.isSome
      · rw [if_pos hcrash]
        exact pollingConsistent_restart _
      · rw [if_neg hcrash]
        exact pollingConsistent_read h hpending rfl (Option.not_isSome_iff_eq_none.mp hcrash) hread

theorem pollingConsistent_step {s' : Polling} {e : PollingEvent} {reads : List ShardRead} (h : PollingConsistent s)
    (hs : pollingStep t deserialize s e = .ok (s', reads)) : PollingConsistent s' := by
  cases e with
  | arrive shardId record =>
    obtain ⟨rfl, -⟩ := Prod.mk.inj (Except.ok.inj hs)
    exact pollingConsistent_setLog h fun hclosed => by
      rw [arrive_closed hclosed]
      exact ⟨hclosed, rfl⟩
  | close shardId =>
    obtain ⟨rfl, -⟩ := Prod.mk.inj (Except.ok.inj hs)
    exact pollingConsistent_setLog h fun _ => ⟨rfl, rfl⟩
  | describe shards =>
    unfold pollingStep at hs
    split_ifs at hs
    · obtain ⟨rfl, -⟩ := Prod.mk.inj (Except.ok.inj hs)
      exact pollingConsistent_describe h shards
    · obtain ⟨rfl, -⟩ := Prod.mk.inj (Except.ok.inj hs)
      exact h
  | process count ingestedAt crash =>
    have hprocess : PollingConsistent (processNext t deserialize s count ingestedAt crash).1 :=
      pollingConsistent_process h count ingestedAt crash
    rw [Except.ok.inj hs] at hprocess
    exact hprocess
  | restart =>
    obtain ⟨rfl, -⟩ := Prod.mk.inj (Except.ok.inj hs)
    exact pollingConsistent_restart s

theorem run_pollingConsistent {es : List PollingEvent} {os : List ShardRead}
    (h : run (pollingStep t deserialize) Polling.start es = .ok (s, os)) : PollingConsistent s :=
  run_preserves (fun _ _ _ _ hi hs => pollingConsistent_step hi hs) (pollingConsistent_restart Polling.start) h

/-! ## What is read -/

theorem read_pending {s' : Polling} {e : PollingEvent} {reads : List ShardRead}
    (hs : pollingStep t deserialize s e = .ok (s', reads)) : ∀ read ∈ reads, read.shard ∈ s.pending := by
  intro read hread
  cases e with
  | process count ingestedAt crash =>
    have hreads := congrArg Prod.snd (Except.ok.inj hs)
    unfold processNext at hreads
    split at hreads
    · rw [← (show _ = reads from hreads)] at hread
      exact absurd hread List.not_mem_nil
    · rename_i shard rest hpending
      rw [hpending]
      dsimp only at hreads
      have hmap : reads = (getRecords s.stream s.consumer ⟨shard.shardId, count, ingestedAt, crash⟩).map
          fun r => ⟨shard, r⟩ := by
        split at hreads
        · exact hreads.symm
        · split_ifs at hreads <;> exact hreads.symm
      rw [hmap] at hread
      obtain ⟨r, -, rfl⟩ := List.mem_map.mp hread
      exact List.mem_cons_self
  | describe shards =>
    unfold pollingStep at hs
    split_ifs at hs <;>
    · rw [← (Prod.mk.inj (Except.ok.inj hs)).2] at hread
      exact absurd hread List.not_mem_nil
  | _ =>
    rw [← (Prod.mk.inj (Except.ok.inj hs)).2] at hread
    exact absurd hread List.not_mem_nil

/-- Whatever becomes of the stream and of the consumer, no record of a shard is read while its parent is listed
and has unread records; and a pass over an acyclic listing with a shard that is not drained selects one. -/
theorem parents_drained_first {es : List PollingEvent} {os : List ShardRead}
    (h : run (pollingStep t deserialize) Polling.start es = .ok (s, os)) :
    (∀ e s' reads, pollingStep t deserialize s e = .ok (s', reads) → ∀ read ∈ reads, ∀ parentId,
      read.shard.parentShardId = some parentId → parentId ∈ s.shards.map (·.shardId) → s.unread parentId = []) ∧
    ∀ shards s' reads, s.pending = [] → pollingStep t deserialize s (.describe shards) = .ok (s', reads) →
      AcyclicParents shards → (∃ shard ∈ shards, shard.shardId ∉ s.drained) →
        ∃ shard ∈ s'.pending, shard ∈ shards ∧ shard.shardId ∉ s.drained := by
  have hs := run_pollingConsistent h
  refine ⟨?_, ?_⟩
  · intro e s' reads hstep read hread parentId hparent hlisted
    exact (hs.drained parentId (hs.pending _ (read_pending hstep read hread) parentId hparent hlisted)).2
  · intro shards s' reads hpending hstep hacyclic hundrained
    have hdescribe : pollingStep t deserialize s (.describe shards) =
        .ok ({ s with shards := shards, pending := orderShardsForProcessing shards s.drained }, []) :=
      if_pos (List.isEmpty_iff.mpr hpending)
    rw [hdescribe] at hstep
    obtain ⟨rfl, -⟩ := Prod.mk.inj (Except.ok.inj hstep)
    exact undrained_selected hacyclic hundrained

/-! ## A shard that was split -/

def parentShard : Shard := ⟨"parent", none⟩

def childShard : Shard := ⟨"child", some "parent"⟩

def removal (sequenceNumber : String) : StreamRecord := ⟨"REMOVE", sequenceNumber, none⟩

def splitEvents : List PollingEvent :=
  [.arrive "parent" (removal "1"), .arrive "child" (removal "2"), .close "parent", .describe [childShard, parentShard],
    .process 1 0 none, .describe [childShard, parentShard], .process 1 0 none]

/-- The child is selected once its closed parent has been read, and read with nothing left in the parent. -/
theorem child_after_parent : ∃ s os s' reads,
    run (pollingStep ordinaryNumbers (typeDeserializer ordinaryNumbers)) Polling.start splitEvents = .ok (s, os) ∧
    pollingStep ordinaryNumbers (typeDeserializer ordinaryNumbers) s (.process 1 0 none) = .ok (s', reads) ∧
    reads = [⟨childShard, removal "2"⟩] ∧ s.unread "parent" = [] := by
  refine ⟨_, _, _, _, rfl, rfl, rfl, ?_⟩
  have hrun : run (pollingStep ordinaryNumbers (typeDeserializer ordinaryNumbers)) Polling.start splitEvents =
      .ok (_, _) := rfl
  exact (parents_drained_first hrun).1 (.process 1 0 none) _ _ rfl ⟨childShard, removal "2"⟩ List.mem_cons_self
    "parent" rfl (by decide)

end PriceEngine
