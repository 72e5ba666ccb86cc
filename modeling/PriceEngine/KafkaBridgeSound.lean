import PriceEngine.KafkaBridge

/-!
# What the bridge forwards

Over any run, restarts and crashes included, the positions of a shard that are
sent on ascend strictly: a record is sent once at most. A process that has an iterator
for a shard sends exactly what arrived since it took it. What was in a shard before, and
what lies in a shard that it did not list, it never sends.
-/

namespace PriceEngine.KinesisKafkaBridge

open MarketIngestor (KinesisRecord)

variable {topic : String} {s s' : Bridge} {shardId : String}

/-! ## Republishing -/

theorem republish_take (iterator : ℕ) (records : List KinesisRecord) (n : ℕ) :
    (republish topic shardId iterator records).take n = republish topic shardId iterator (records.take n) := by
  induction records generalizing iterator n with
  | nil => simp [republish]
  | cons r records ih =>
    cases n with
    | zero => rfl
    | succ n => exact congrArg _ (ih (iterator + 1) n)

theorem positionsOf_republish (topic shardId id : String) (iterator : ℕ) (records : List KinesisRecord) :
    positionsOf id (republish topic shardId iterator records) =
      if shardId = id then List.range' iterator records.length else [] := by
  induction records generalizing iterator with
  | nil => simp [positionsOf, republish]
  | cons r records ih =>
    have ih := ih (iterator + 1)
    by_cases h : shardId = id
    · simp [positionsOf, republish, Forwarded.placeIn, h, List.range'_succ] at ih ⊢
      exact ih
    · simp [positionsOf, republish, Forwarded.placeIn, h]

theorem mem_republish {iterator : ℕ} {records : List KinesisRecord} {f : Forwarded}
    (h : f ∈ republish topic shardId iterator records) :
    f.shardId = shardId ∧ ∃ i record, records[i]? = some record ∧ f.position = iterator + i ∧
      f.message = republishOne topic record := by
  obtain ⟨⟨record, position⟩, hmem, rfl⟩ := List.mem_map.mp h
  obtain ⟨hle, hget⟩ := List.mem_zipIdx_iff_le_and_getElem?_sub.mp hmem
  exact ⟨rfl, position - iterator, record, hget, by simp at hle ⊢; omega, rfl⟩

/-! ## A turn -/

/-- What a turn sends lies between its iterator and the end of the shard. -/
theorem turn_sent (topic : String) (s : Bridge) (shardId : String) (iterator : ℕ) (rest : List (String × Option ShardIterator))
    (count : ℕ) (ended : Bool) (crash : Option ℕ) : ∃ n,
    (turn topic s shardId iterator rest count ended crash).2 =
      republish topic shardId iterator (((s.shards shardId).records.drop iterator).take n) := by
  unfold turn pollShard
  cases crash with
  | none => exact ⟨min count 500, rfl⟩
  | some n => exact ⟨min n (min count 500), by simp only [republish_take, List.take_take]⟩

theorem pollShard_next (shard : KinesisShard) (iterator count : ℕ) (ended : Bool) :
    (pollShard shard iterator count ended).2 =
        some (iterator + (pollShard shard iterator count ended).1.length) ∨
      (pollShard shard iterator count ended).2 = none ∧ shard.closed = true ∧
        shard.records.length ≤ iterator + (pollShard shard iterator count ended).1.length := by
  unfold pollShard
  dsimp only
  split_ifs with h
  · simp only [Bool.and_eq_true, decide_eq_true_eq] at h
    exact .inr ⟨rfl, h.1.1, h.2⟩
  · exact .inl rfl

theorem pollShard_within {shard : KinesisShard} {iterator : ℕ} (h : iterator ≤ shard.records.length) (count : ℕ)
    (ended : Bool) : iterator + (pollShard shard iterator count ended).1.length ≤ shard.records.length := by
  simp only [pollShard, List.length_take, List.length_drop]
  omega

/-! ## A step -/

/-- The process ends with this event. -/
def BridgeEvent.stops : BridgeEvent → Bool
  | .stop => true
  | .poll _ _ crash => crash.isSome
  | _ => false

/-- What one step can do: the stream grows, or the loop moves on. -/
inductive Moved (topic : String) (s : Bridge) : BridgeEvent → Bridge → List Forwarded → Prop
  | stream {e : BridgeEvent} (id : String) (shard : KinesisShard)
    (hgrows : (s.shards id).records <+: shard.records)
    (hclosed : (s.shards id).closed = true → shard.closed = true ∧ shard.records = (s.shards id).records) :
    Moved topic s e (s.setShard id shard) []
  | listed (shardIds : List String) (hphase : s.phase = .stopped) :
    Moved topic s (.listShardIds shardIds) { s with iterators := Dict.empty, phase := .starting shardIds } []
  | latest (id : String) (rest : List String) (hphase : s.phase = .starting (id :: rest)) :
    Moved topic s .latestIterator (s.assign id (some (latestIterator (s.shards id))) (.starting rest)) []
  | passed {e : BridgeEvent} (turns : List (String × Option ShardIterator))
    (hphase : s.phase ≠ .stopped ∧ ∀ id rest, s.phase ≠ .starting (id :: rest))
    (hturns : turns = s.iterators.entries ∨ ∃ id, s.phase = .polling ((id, none) :: turns)) :
    Moved topic s e { s with phase := .polling turns } []
  | answered (id : String) (iterator : ShardIterator) (rest : List (String × Option ShardIterator)) (count : ℕ)
    (ended : Bool) (hphase : s.phase = .polling ((id, some iterator) :: rest)) :
    Moved topic s (.poll count ended none)
      (s.assign id (pollShard (s.shards id) iterator count ended).2 (.polling rest))
      (republish topic id iterator (pollShard (s.shards id) iterator count ended).1)
  | crashed (id : String) (iterator : ShardIterator) (rest : List (String × Option ShardIterator)) {e : BridgeEvent}
    (n : ℕ) (he : e.stops = true) (hphase : s.phase = .polling ((id, some iterator) :: rest)) :
    Moved topic s e s.stop (republish topic id iterator (((s.shards id).records.drop iterator).take n))
  | stopped : Moved topic s .stop s.stop []
  | idle {e : BridgeEvent} : Moved topic s e s []

theorem prefix_arrive (shard : KinesisShard) (record : KinesisRecord) :
    shard.records <+: (shard.arrive record).records := by
  unfold KinesisShard.arrive
  split_ifs <;> simp

theorem arrive_of_closed {shard : KinesisShard} (h : shard.closed = true) (record : KinesisRecord) :
    shard.arrive record = shard := if_pos h

theorem moved_of_step {e : BridgeEvent} {o : List Forwarded} (hs : bridgeStep topic s e = .ok (s', o)) :
    Moved topic s e s' o := by
  cases e with
  | arrive id record =>
    obtain ⟨rfl, rfl⟩ := Prod.mk.inj (Except.ok.inj hs)
    exact .stream id _ (prefix_arrive _ _) fun h => by rw [arrive_of_closed h]; exact ⟨h, rfl⟩
  | close id =>
    obtain ⟨rfl, rfl⟩ := Prod.mk.inj (Except.ok.inj hs)
    exact .stream id _ (List.prefix_refl _) fun _ => ⟨rfl, rfl⟩
  | listShardIds shardIds =>
    simp only [bridgeStep] at hs
    split at hs <;> obtain ⟨rfl, rfl⟩ := Prod.mk.inj (Except.ok.inj hs)
    · exact .listed shardIds ‹_›
    · exact .idle
  | latestIterator =>
    simp only [bridgeStep] at hs
    split at hs <;> obtain ⟨rfl, rfl⟩ := Prod.mk.inj (Except.ok.inj hs)
    · exact .latest _ _ ‹_›
    · exact .idle
  | pass =>
    simp only [bridgeStep] at hs
    split at hs <;> obtain ⟨rfl, rfl⟩ := Prod.mk.inj (Except.ok.inj hs)
    · rename_i hphase
      exact .passed _ (by simp [hphase]) (.inl rfl)
    · rename_i hphase
      exact .passed _ (by simp [hphase]) (.inl rfl)
    · exact .idle
  | poll count ended crash =>
    simp only [bridgeStep] at hs
    split at hs
    · rename_i id rest hphase
      obtain ⟨rfl, rfl⟩ := Prod.mk.inj (Except.ok.inj hs)
      exact .passed rest (by simp [hphase]) (.inr ⟨id, hphase⟩)
    · rename_i id iterator rest hphase
      have hturn := Except.ok.inj hs
      cases crash with
      | some n =>
        obtain ⟨k, hk⟩ := turn_sent topic s id iterator rest count ended (some n)
        rw [hturn] at hk
        obtain ⟨rfl, -⟩ := Prod.mk.inj hturn
        rw [show o = _ from hk]
        exact .crashed id iterator rest k rfl hphase
      | none =>
        obtain ⟨rfl, rfl⟩ := Prod.mk.inj hturn
        exact .answered id iterator rest count ended hphase
    · obtain ⟨rfl, rfl⟩ := Prod.mk.inj (Except.ok.inj hs)
      exact .idle
  | stop =>
    obtain ⟨rfl, rfl⟩ := Prod.mk.inj (Except.ok.inj hs)
    exact .stopped

/-! ## The invariant -/

/-- An iterator is within its shard, the shards read to their end are closed, and the turns that are left
are those of the iterators as they stand. -/
structure Polled (s : Bridge) : Prop where
  within : ∀ id (iterator : ℕ), s.iterators.get? id = some (some iterator) → iterator ≤ (s.shards id).records.length
  closed : ∀ id, s.iterators.get? id = some none → (s.shards id).closed = true
  turns : ∀ turns, s.phase = .polling turns →
    (∀ p ∈ turns, s.iterators.get? p.1 = some p.2) ∧ (turns.map Prod.fst).Nodup

theorem polled_empty {s : Bridge} (h : s.iterators = Dict.empty) (hphase : ∀ turns, s.phase ≠ .polling turns) :
    Polled s where
  within := fun id _ hget => by rw [h] at hget; cases hget
  closed := fun id hget => by rw [h] at hget; cases hget
  turns := fun turns ht => absurd ht (hphase turns)

theorem polled_stop (s : Bridge) : Polled s.stop := polled_empty rfl fun _ h => by cases h

theorem polled_setShard (h : Polled s) {shard : KinesisShard}
    (hlength : (s.shards shardId).records.length ≤ shard.records.length)
    (hclosed : (s.shards shardId).closed = true → shard.closed = true) : Polled (s.setShard shardId shard) where
  within := fun id iterator hget => by
    have hle := h.within id iterator hget
    by_cases hid : id = shardId
    · subst hid
      simpa [Bridge.setShard] using hle.trans hlength
    · simpa [Bridge.setShard, hid] using hle
  closed := fun id hget => by
    have hc := h.closed id hget
    by_cases hid : id = shardId
    · subst hid
      simpa [Bridge.setShard] using hclosed hc
    · simpa [Bridge.setShard, hid] using hc
  turns := h.turns

theorem polled_latest (h : Polled s) (id : String) (rest : List String) :
    Polled (s.assign id (some (latestIterator (s.shards id))) (.starting rest)) where
  within := fun id' it hget => by
    rw [Bridge.get?_assign] at hget
    split_ifs at hget with hid
    · subst hid
      obtain rfl := Option.some.inj (Option.some.inj hget)
      exact le_rfl
    · exact h.within id' it hget
  closed := fun id' hget => by
    rw [Bridge.get?_assign] at hget
    split_ifs at hget with hid
    · cases Option.some.inj hget
    · exact h.closed id' hget
  turns := fun _ ht => by cases ht

/-- An answer moves the iterator of its shard, and that of no other. -/
theorem polled_answered (h : Polled s) {iterator : ℕ} {rest : List (String × Option ShardIterator)}
    (hphase : s.phase = .polling ((shardId, some iterator) :: rest)) (count : ℕ) (ended : Bool) :
    Polled (s.assign shardId (pollShard (s.shards shardId) iterator count ended).2 (.polling rest)) where
  within := fun id it hget => by
    rw [Bridge.get?_assign] at hget
    split_ifs at hget with hid
    · subst hid
      have hle := h.within id iterator ((h.turns _ hphase).1 _ List.mem_cons_self)
      rcases pollShard_next (s.shards id) iterator count ended with hnext | ⟨hnext, -⟩
      · rw [hnext] at hget
        obtain rfl := Option.some.inj (Option.some.inj hget)
        exact pollShard_within hle count ended
      · rw [hnext] at hget
        cases Option.some.inj hget
    · exact h.within id it hget
  closed := fun id hget => by
    rw [Bridge.get?_assign] at hget
    split_ifs at hget with hid
    · subst hid
      rcases pollShard_next (s.shards id) iterator count ended with hnext | ⟨-, hclosed, -⟩
      · rw [hnext] at hget
        cases Option.some.inj hget
      · exact hclosed
    · exact h.closed id hget
  turns := fun turns ht => by
    obtain rfl : rest = turns := by simpa using ht
    obtain ⟨hall, hnodup⟩ := h.turns _ hphase
    rw [List.map_cons, List.nodup_cons] at hnodup
    refine ⟨fun p hp => ?_, hnodup.2⟩
    have hne : p.1 ≠ shardId := fun e => hnodup.1 (List.mem_map.mpr ⟨p, hp, e⟩)
    rw [Bridge.get?_assign, if_neg hne]
    exact hall p (List.mem_cons_of_mem _ hp)

theorem polled_moved {e : BridgeEvent} {o : List Forwarded} (h : Polled s) (hm : Moved topic s e s' o) :
    Polled s' := by
  cases hm with
  | stream id shard hgrows hclosed => exact polled_setShard h hgrows.length_le fun hc => (hclosed hc).1
  | listed shardIds hphase => exact polled_empty rfl fun _ ht => by cases ht
  | latest id rest hphase => exact polled_latest h id rest
  | passed turns _ hturns =>
    refine ⟨h.within, h.closed, fun turns' ht => ?_⟩
    obtain rfl : turns = turns' := by simpa using ht
    rcases hturns with rfl | ⟨id, hphase⟩
    · exact ⟨fun p hp => Dict.mem_entries.mp hp, s.iterators.keys_nodup⟩
    · obtain ⟨hall, hnodup⟩ := h.turns _ hphase
      exact ⟨fun p hp => hall p (List.mem_cons_of_mem _ hp), (List.nodup_cons.mp hnodup).2⟩
  | answered id iterator rest count ended hphase => exact polled_answered h hphase count ended
  | crashed id iterator rest n _ _ => exact polled_stop s
  | stopped => exact polled_stop s
  | idle => exact h

theorem polled_step {e : BridgeEvent} {o : List Forwarded} (h : Polled s)
    (hs : bridgeStep topic s e = .ok (s', o)) : Polled s' := polled_moved h (moved_of_step hs)

theorem polled_start : Polled Bridge.start := polled_empty rfl fun _ h => by cases h

theorem run_polled {es : List BridgeEvent} {os : List Forwarded}
    (h : run (bridgeStep topic) Bridge.start es = .ok (s, os)) : Polled s :=
  run_preserves (fun _ _ _ _ hi hs => polled_step hi hs) polled_start h

/-! ## Floors -/

theorem floor_of_iterator {id : String} {iterator : ℕ} (h : s.iterators.get? id = some (some iterator)) :
    s.floor id = iterator := by
  unfold Bridge.floor
  rw [h]

theorem floor_of_not_iterator {id : String} (h : ∀ iterator, s.iterators.get? id ≠ some (some iterator)) :
    s.floor id = (s.shards id).records.length := by
  unfold Bridge.floor
  split
  · exact absurd ‹_› (h _)
  · rfl

theorem floor_le_length (h : Polled s) (id : String) : s.floor id ≤ (s.shards id).records.length := by
  unfold Bridge.floor
  split
  · exact h.within id _ ‹_›
  · exact le_rfl

theorem floor_stop (s : Bridge) (id : String) : s.stop.floor id = (s.shards id).records.length :=
  floor_of_not_iterator fun _ h => by cases h

theorem floor_setShard_le (id : String) {shard : KinesisShard}
    (h : (s.shards shardId).records <+: shard.records) : s.floor id ≤ (s.setShard shardId shard).floor id := by
  unfold Bridge.floor Bridge.setShard
  dsimp only
  split
  · exact le_rfl
  · split_ifs with hid
    · subst hid
      exact h.length_le
    · exact le_rfl

theorem floor_put (s : Bridge) (shardId : String) (next : Option ℕ) (phase : Phase) (id : String) :
    (s.assign shardId next phase).floor id =
      if id = shardId then next.getD (s.shards id).records.length else s.floor id := by
  unfold Bridge.floor
  rw [Bridge.get?_assign]
  by_cases hid : id = shardId
  · rw [if_pos hid, if_pos hid]
    cases next <;> rfl
  · rw [if_neg hid, if_neg hid, Bridge.assign_shards]

theorem floor_answered (h : Polled s) {iterator : ℕ} {rest : List (String × Option ShardIterator)}
    (hphase : s.phase = .polling ((shardId, some iterator) :: rest)) (count : ℕ) (ended : Bool) :
    (s.assign shardId (pollShard (s.shards shardId) iterator count ended).2 (.polling rest)).floor shardId =
      iterator + (pollShard (s.shards shardId) iterator count ended).1.length := by
  have hle := h.within shardId iterator ((h.turns _ hphase).1 _ List.mem_cons_self)
  rw [floor_put, if_pos rfl]
  rcases pollShard_next (s.shards shardId) iterator count ended with hnext | ⟨hnext, -, hend⟩
  · rw [hnext]
    rfl
  · rw [hnext]
    exact le_antisymm hend (pollShard_within hle count ended)

theorem covers_answered (h : Polled s) {iterator : ℕ} {rest : List (String × Option ShardIterator)}
    (hphase : s.phase = .polling ((shardId, some iterator) :: rest)) (count : ℕ) (ended : Bool) (id : String) :
    Covers (fun t : Bridge => t.floor id) (Forwarded.placeIn id) s
      (republish topic shardId iterator (pollShard (s.shards shardId) iterator count ended).1)
      (s.assign shardId (pollShard (s.shards shardId) iterator count ended).2 (.polling rest)) := by
  have hget := (h.turns _ hphase).1 _ List.mem_cons_self
  have hpositions := positionsOf_republish topic shardId id iterator
    (pollShard (s.shards shardId) iterator count ended).1
  by_cases hid : shardId = id
  · subst hid
    rw [if_pos rfl] at hpositions
    refine ⟨_, hpositions.trans (congrArg (List.range' · _) (floor_of_iterator hget).symm), ?_⟩
    dsimp only
    rw [floor_answered h hphase, floor_of_iterator hget]
  · rw [if_neg hid] at hpositions
    refine ⟨0, hpositions, ?_⟩
    dsimp only
    rw [floor_put, if_neg (Ne.symm hid), Nat.add_zero]

theorem advances_crashed (h : Polled s) {iterator : ℕ} {rest : List (String × Option ShardIterator)}
    (hphase : s.phase = .polling ((shardId, some iterator) :: rest)) (n : ℕ) (id : String) :
    Advances (fun t : Bridge => t.floor id) (Forwarded.placeIn id) s
      (republish topic shardId iterator (((s.shards shardId).records.drop iterator).take n)) s.stop := by
  have hget := (h.turns _ hphase).1 _ List.mem_cons_self
  have hle := h.within shardId iterator hget
  have hpositions := positionsOf_republish topic shardId id iterator
    (((s.shards shardId).records.drop iterator).take n)
  by_cases hid : shardId = id
  · subst hid
    rw [if_pos rfl] at hpositions
    refine ⟨_, hpositions.trans (congrArg (List.range' · _) (floor_of_iterator hget).symm), ?_⟩
    dsimp only
    rw [floor_stop, floor_of_iterator hget, List.length_take, List.length_drop]
    omega
  · rw [if_neg hid] at hpositions
    exact ⟨0, hpositions, (floor_le_length h id).trans_eq (floor_stop s id).symm⟩

/-- A step sends what follows the floor of a shard, and never lowers it. -/
theorem advances_moved (h : Polled s) {e : BridgeEvent} {o : List Forwarded} (hm : Moved topic s e s' o)
    (id : String) : Advances (fun t : Bridge => t.floor id) (Forwarded.placeIn id) s o s' := by
  cases hm with
  | stream shardId shard hgrows _ => exact advances_nil (floor_setShard_le id hgrows)
  | listed shardIds hphase => exact advances_nil (floor_le_length h id)
  | latest shardId rest hphase =>
    refine advances_nil ?_
    rw [floor_put]
    by_cases hid : id = shardId
    · subst hid
      rw [if_pos rfl]
      exact floor_le_length h id
    · rw [if_neg hid]
  | passed turns _ _ => exact advances_nil le_rfl
  | answered shardId iterator rest count ended hphase => exact (covers_answered h hphase count ended id).advances
  | crashed shardId iterator rest n _ hphase => exact advances_crashed h hphase n id
  | stopped => exact advances_nil ((floor_le_length h id).trans_eq (floor_stop s id).symm)
  | idle => exact advances_nil le_rfl

/-! ## What is in the shards -/

theorem records_extend {e : BridgeEvent} {o : List Forwarded} (hm : Moved topic s e s' o) (id : String) :
    (s.shards id).records <+: (s'.shards id).records := by
  cases hm with
  | stream shardId shard hgrows _ =>
    by_cases hid : id = shardId
    · subst hid
      simpa [Bridge.setShard] using hgrows
    · simp [Bridge.setShard, hid]
  | _ => exact List.prefix_refl _

/-- The message is that of the record at its position. -/
def Forwarded.IsOf (topic : String) (s : Bridge) (f : Forwarded) : Prop :=
  ∃ record, (s.shards f.shardId).records[f.position]? = some record ∧ f.message = republishOne topic record

theorem isOf_republish {iterator n : ℕ} {f : Forwarded}
    (h : f ∈ republish topic shardId iterator (((s.shards shardId).records.drop iterator).take n)) :
    f.IsOf topic s := by
  obtain ⟨hid, i, record, hget, hposition, hmessage⟩ := mem_republish h
  rw [List.getElem?_take] at hget
  split_ifs at hget
  rw [List.getElem?_drop] at hget
  exact ⟨record, by rw [hid, hposition]; exact hget, hmessage⟩

theorem isOf_moved {e : BridgeEvent} {o : List Forwarded} (hm : Moved topic s e s' o) :
    ∀ f ∈ o, f.IsOf topic s := by
  intro f hf
  cases hm with
  | answered shardId iterator rest count ended hphase => exact isOf_republish hf
  | crashed shardId iterator rest n _ hphase => exact isOf_republish hf
  | _ => cases hf

theorem Forwarded.IsOf.moved {e : BridgeEvent} {o : List Forwarded} {f : Forwarded} (h : f.IsOf topic s)
    (hm : Moved topic s e s' o) : f.IsOf topic s' := by
  obtain ⟨record, hget, hmessage⟩ := h
  obtain ⟨tail, htail⟩ := records_extend hm f.shardId
  refine ⟨record, ?_, hmessage⟩
  rw [← htail, List.getElem?_append_left (List.getElem?_eq_some_iff.mp hget).1, hget]

/-! ## Whole runs -/

theorem run_isOf {es : List BridgeEvent} {os : List Forwarded}
    (h : run (bridgeStep topic) s es = .ok (s', os)) : ∀ f ∈ os, f.IsOf topic s' :=
  run_prefix (I := fun _ t os => ∀ f ∈ os, f.IsOf topic t) (fun _ hf => nomatch hf)
    (fun _ _ _ _ _ _ _ _ _ hi hs => by
      have hm := moved_of_step hs
      refine List.forall_mem_append.mpr ⟨fun f hf => (hi f hf).moved hm, fun f hf => ?_⟩
      exact (isOf_moved hm f hf).moved hm) h

theorem run_floors (hs : Polled s) {es : List BridgeEvent} {os : List Forwarded}
    (h : run (bridgeStep topic) s es = .ok (s', os)) (id : String) :
    (positionsOf id os).Pairwise (· < ·) ∧ ∀ n ∈ positionsOf id os, s.floor id ≤ n ∧ n < s'.floor id :=
  (run_ascending (I := Polled) (C := fun _ _ => True)
    (fun _ _ _ _ hi _ hs => polled_step hi hs) (fun _ _ _ _ hi _ hs => advances_moved hi (moved_of_step hs) id)
    hs (along_of_forall (fun _ _ _ => trivial) s) h).2

/-- Whatever arrives and whenever the process stops, each record is sent once at most, unchanged and in the order
of its shard; and what lies before the iterator of a shard, or where it has none before the shard's end, is not
sent any more. -/
theorem forwarded_at_most_once {es : List BridgeEvent} {os : List Forwarded}
    (h : run (bridgeStep topic) Bridge.start es = .ok (s, os)) (id : String) :
    (positionsOf id os).Pairwise (· < ·) ∧ (∀ f ∈ os, f.IsOf topic s) ∧
      ∀ fs s' os', run (bridgeStep topic) s fs = .ok (s', os') → ∀ n ∈ positionsOf id os', s.floor id ≤ n :=
  ⟨(run_floors polled_start h id).1, run_isOf h, fun _ _ _ h' n hn => ((run_floors (run_polled h) h' id).2 n hn).1⟩

def bookingRecord (n : UInt8) : KinesisRecord := ⟨[n], "Berlin/Mitte"⟩

/-- The second record arrives while the process is down, the first before it lists the shards. -/
def outageEvents : List BridgeEvent :=
  [.arrive "shard" (bookingRecord 0), .listShardIds ["shard"], .latestIterator, .arrive "shard" (bookingRecord 1),
    .arrive "shard" (bookingRecord 2), .pass, .poll 500 false (some 1), .arrive "shard" (bookingRecord 3),
    .listShardIds ["shard"], .latestIterator, .pass, .poll 500 false none]

/-- Of three records the crash in the middle of an answer and the restart let one through. -/
theorem outage_at_most_once : ∃ s os, run (bridgeStep "bookings") Bridge.start outageEvents = .ok (s, os) ∧
    positionsOf "shard" os = [1] ∧ s.floor "shard" = 4 ∧
    ∀ fs s' os', run (bridgeStep "bookings") s fs = .ok (s', os') → ∀ n ∈ positionsOf "shard" os', 4 ≤ n := by
  refine ⟨_, _, rfl, rfl, rfl, ?_⟩
  have hrun : run (bridgeStep "bookings") Bridge.start outageEvents = .ok (_, _) := rfl
  exact (forwarded_at_most_once hrun "shard").2.2

/-! ## While the process lives -/

/-- The process runs, and has taken the iterator of this shard. -/
def Bridge.Reads (s : Bridge) (id : String) : Prop :=
  s.phase ≠ .stopped ∧ (∀ shardIds, s.phase = .starting shardIds → id ∉ shardIds) ∧ id ∈ s.iterators.keys

theorem reads_covers {e : BridgeEvent} {o : List Forwarded} {id : String} (h : Polled s) (hr : s.Reads id)
    (he : e.stops = false) (hm : Moved topic s e s' o) :
    s'.Reads id ∧ Covers (fun t : Bridge => t.floor id) (Forwarded.placeIn id) s o s' := by
  obtain ⟨hphase, hstarting, hkey⟩ := hr
  cases hm with
  | stream shardId shard hgrows hclosed =>
    refine ⟨⟨hphase, hstarting, hkey⟩, covers_nil ?_⟩
    obtain ⟨next, hnext⟩ := Dict.mem_keys.mp hkey
    cases next with
    | some iterator => exact (floor_of_iterator hnext).trans (floor_of_iterator (s := s.setShard shardId shard) hnext).symm
    | none =>
      have hfloor : ∀ t : Bridge, t.iterators.get? id = some none → t.floor id = (t.shards id).records.length :=
        fun t ht => floor_of_not_iterator fun _ hc => by rw [ht] at hc; cases Option.some.inj hc
      rw [hfloor s hnext, hfloor (s.setShard shardId shard) hnext]
      by_cases hid : id = shardId
      · subst hid
        simp [Bridge.setShard, (hclosed (h.closed id hnext)).2]
      · simp [Bridge.setShard, hid]
  | listed shardIds hstopped => exact absurd hstopped hphase
  | latest shardId rest hlatest =>
    have hne := hstarting _ hlatest
    rw [List.mem_cons, not_or] at hne
    refine ⟨⟨by simp, fun ids hids => ?_, Bridge.mem_keys_assign s _ _ _ (.inr hkey)⟩, covers_nil ?_⟩
    · obtain rfl : rest = ids := by simpa using hids
      exact hne.2
    · rw [floor_put, if_neg hne.1]
  | passed turns _ _ => exact ⟨⟨by simp, by simp, hkey⟩, covers_nil rfl⟩
  | answered shardId iterator rest count ended hanswered =>
    exact ⟨⟨by simp, by simp, Bridge.mem_keys_assign s _ _ _ (.inr hkey)⟩, covers_answered h hanswered count ended id⟩
  | crashed shardId iterator rest n hstops _ => exact absurd hstops (by simp [he])
  | stopped => cases he
  | idle => exact ⟨⟨hphase, hstarting, hkey⟩, covers_nil rfl⟩

theorem run_reads {es : List BridgeEvent} {os : List Forwarded} {id : String} (h : Polled s) (hr : s.Reads id)
    (hes : ∀ e ∈ es, e.stops = false) (hrun : run (bridgeStep topic) s es = .ok (s', os)) :
    Covers (fun t : Bridge => t.floor id) (Forwarded.placeIn id) s os s' :=
  run_covers (I := fun t => Polled t ∧ t.Reads id) (C := fun _ e => e.stops = false)
    (fun _ _ _ _ hi he hs => ⟨polled_step hi.1 hs, (reads_covers hi.1 hi.2 he (moved_of_step hs)).1⟩)
    (fun _ _ _ _ hi he hs => (reads_covers hi.1 hi.2 he (moved_of_step hs)).2) ⟨h, hr⟩
    (along_of_forall (fun _ => hes) s) hrun

/-- From the moment it takes the iterator of a shard until it stops, the process sends what arrives in the shard from
then on, each position in turn up to the floor, and of a shard it has read to its end everything. -/
theorem forwarded_since_latest {p q : List BridgeEvent} {os os' : List Forwarded} {id : String} {rest : List String}
    (h : run (bridgeStep topic) Bridge.start p = .ok (s, os)) (hphase : s.phase = .starting (id :: rest))
    (hid : id ∉ rest) (hq : ∀ e ∈ q, e.stops = false)
    (h' : run (bridgeStep topic) s (.latestIterator :: q) = .ok (s', os')) :
    (∃ n, positionsOf id os' = List.range' (s.shards id).records.length n ∧
      (s.shards id).records.length + n = s'.floor id) ∧
    (s'.iterators.get? id = some none →
      (s'.shards id).closed = true ∧ s'.floor id = (s'.shards id).records.length) := by
  have hpolled := run_polled h
  refine ⟨?_, fun hend => ⟨?_, floor_of_not_iterator fun _ hc => by rw [hend] at hc; cases Option.some.inj hc⟩⟩
  · obtain ⟨s₁, o, os₁, hs, hrun, rfl⟩ := run_cons.mp h'
    have hlatest : bridgeStep topic s .latestIterator =
        .ok (s.assign id (some (latestIterator (s.shards id))) (.starting rest), []) := by
      simp only [bridgeStep, hphase]
    rw [hlatest] at hs
    obtain ⟨rfl, rfl⟩ := Prod.mk.inj (Except.ok.inj hs)
    have hreads : Bridge.Reads (s.assign id (some (latestIterator (s.shards id))) (.starting rest)) id :=
      ⟨by simp, fun ids hids => by
        obtain rfl : rest = ids := by simpa using hids
        exact hid, Bridge.mem_keys_assign s _ _ _ (.inl rfl)⟩
    obtain ⟨n, hn, hfloor⟩ := run_reads (polled_latest hpolled id rest) hreads hq hrun
    beta_reduce at hn hfloor
    rw [floor_put, if_pos rfl] at hn hfloor
    exact ⟨n, hn, hfloor⟩
  · exact (run_preserves (fun _ _ _ _ hi hs => polled_step hi hs) hpolled h').closed id hend

theorem bookings_since_latest : ∃ s os s' os',
    run (bridgeStep "bookings") Bridge.start [.arrive "shard" (bookingRecord 0), .listShardIds ["shard"]] =
      .ok (s, os) ∧
    run (bridgeStep "bookings") s [.latestIterator, .arrive "shard" (bookingRecord 1), .close "shard", .pass,
      .poll 500 true none] = .ok (s', os') ∧
    (∃ n, positionsOf "shard" os' = List.range' 1 n ∧ 1 + n = s'.floor "shard") ∧
    s'.floor "shard" = (s'.shards "shard").records.length := by
  refine ⟨_, _, _, _, rfl, rfl, ?_⟩
  have hrun : run (bridgeStep "bookings") Bridge.start
      [.arrive "shard" (bookingRecord 0), .listShardIds ["shard"]] = .ok (_, _) := rfl
  have hsent := forwarded_since_latest (q := [.arrive "shard" (bookingRecord 1), .close "shard", .pass,
    .poll 500 true none]) hrun rfl (by decide) (by decide) rfl
  exact ⟨hsent.1, (hsent.2 rfl).2⟩

/-! ## A pass -/

def BridgeEvent.isPoll : BridgeEvent → Bool
  | .poll .. => true
  | _ => false

/-- An event of the stream, or an answer that is as large as `Limit` and what is there allow. -/
def BridgeEvent.full : BridgeEvent → Bool
  | .arrive .. | .close .. => true
  | .poll count _ none => decide (500 ≤ count)
  | _ => false

theorem pollShard_full (shard : KinesisShard) (iterator : ℕ) {count : ℕ} (hcount : 500 ≤ count) (ended : Bool) :
    min shard.records.length (iterator + 500) ≤ iterator + (pollShard shard iterator count ended).1.length := by
  simp only [pollShard, List.length_take, List.length_drop]
  omega

theorem floor_mono (h : Polled s) {es : List BridgeEvent} {os : List Forwarded}
    (hrun : run (bridgeStep topic) s es = .ok (s', os)) (id : String) : s.floor id ≤ s'.floor id :=
  (run_ascending (I := Polled) (C := fun _ _ => True) (fun _ _ _ _ hi _ hs => polled_step hi hs)
    (fun _ _ _ _ hi _ hs => advances_moved hi (moved_of_step hs) id) h
    (along_of_forall (fun _ _ _ => trivial) s) hrun).1

theorem turn_progress {id : String} {iterator : ℕ} {q : List BridgeEvent} (hq : ∀ e ∈ q, e.full = true) :
    ∀ {s : Bridge} {os : List Forwarded} {turns : List (String × Option ShardIterator)}, Polled s →
      s.phase = .polling turns → (id, some iterator) ∈ turns → turns.length ≤ (q.filter BridgeEvent.isPoll).length →
      run (bridgeStep topic) s q = .ok (s', os) → min (s.shards id).records.length (iterator + 500) ≤ s'.floor id := by
  induction q with
  | nil =>
    intro s os turns _ _ hmem hlength _
    exact absurd (List.length_pos_of_mem hmem) (by simpa using hlength)
  | cons e q ih =>
    intro s os turns h hphase hmem hlength hrun
    obtain ⟨he, hq⟩ := List.forall_mem_cons.mp hq
    obtain ⟨s₁, o, os', hs, hrun', -⟩ := run_cons.mp hrun
    have h₁ : Polled s₁ := polled_step h hs
    have hlonger := (records_extend (moved_of_step hs) id).length_le
    have hrest : ∀ turns, s₁.phase = .polling turns → (id, some iterator) ∈ turns →
        turns.length ≤ (q.filter BridgeEvent.isPoll).length →
        min (s₁.shards id).records.length (iterator + 500) ≤ s'.floor id :=
      fun _ hp hm hl => ih hq h₁ hp hm hl hrun'
    cases e with
    | arrive shardId record =>
      obtain ⟨rfl, -⟩ := Prod.mk.inj (Except.ok.inj hs)
      have := hrest turns hphase hmem (by simpa [BridgeEvent.isPoll] using hlength)
      omega
    | close shardId =>
      obtain ⟨rfl, -⟩ := Prod.mk.inj (Except.ok.inj hs)
      have := hrest turns hphase hmem (by simpa [BridgeEvent.isPoll] using hlength)
      omega
    | poll count ended crash =>
      have hlength : turns.length ≤ (q.filter BridgeEvent.isPoll).length + 1 := by
        rwa [List.filter_cons_of_pos rfl] at hlength
      cases crash with
      | some n => cases he
      | none =>
        have hcount : 500 ≤ count := by simpa [BridgeEvent.full] using he
        match turns with
        | (_, none) :: rest =>
          have hskip : bridgeStep topic s (.poll count ended none) = .ok ({ s with phase := .polling rest }, []) := by
            simp only [bridgeStep, hphase]
          obtain ⟨rfl, -⟩ := Prod.mk.inj (Except.ok.inj (hskip.symm.trans hs))
          exact hrest rest rfl (by simpa using hmem) (Nat.le_of_succ_le_succ hlength)
        | (shardId, some it) :: rest =>
          have hturn : bridgeStep topic s (.poll count ended none) =
              .ok (turn topic s shardId it rest count ended none) := by
            simp only [bridgeStep, hphase]
          obtain ⟨hs₁, -⟩ := Prod.mk.inj (Except.ok.inj (hs.symm.trans hturn))
          rcases List.mem_cons.mp hmem with heq | hmem
          · -- its own turn: the floor is past what there was to read, and no later step lowers it
            obtain ⟨rfl, hit⟩ := Prod.mk.inj heq
            obtain rfl := Option.some.inj hit
            have hfloor : s₁.floor id = iterator + (pollShard (s.shards id) iterator count ended).1.length := by
              rw [hs₁]
              exact floor_answered h hphase count ended
            have hfull := pollShard_full (s.shards id) iterator hcount ended
            have hle := floor_mono h₁ hrun' id
            omega
          · have := hrest rest (by rw [hs₁]; rfl) hmem (Nat.le_of_succ_le_succ hlength)
            omega
    | _ => cases he

theorem stops_of_full {e : BridgeEvent} (h : e.full = true) : e.stops = false := by
  cases e with
  | arrive | close => rfl
  | poll count ended crash =>
    cases crash with
    | none => rfl
    | some n => cases h
  | _ => cases h

/-- A pass whose answers are full sends of every shard that it has an iterator for the records from the iterator on, each
position in turn: at least all that the shard held when the pass began, up to 500 records, whatever arrives or
closes in the meantime. -/
theorem pass_forwards {p q : List BridgeEvent} {os os' : List Forwarded} (id : String) (iterator : ℕ)
    (h : run (bridgeStep topic) Bridge.start p = .ok (s, os))
    (hphase : s.phase = .starting [] ∨ s.phase = .polling []) (hget : s.iterators.get? id = some (some iterator))
    (hq : ∀ e ∈ q, e.full = true) (hpolls : s.iterators.size ≤ (q.filter BridgeEvent.isPoll).length)
    (h' : run (bridgeStep topic) s (.pass :: q) = .ok (s', os')) :
    (∃ n, positionsOf id os' = List.range' iterator n ∧ min (s.shards id).records.length (iterator + 500) ≤ iterator + n) ∧
      ∀ f ∈ os', f.IsOf topic s' := by
  refine ⟨?_, run_isOf h'⟩
  obtain ⟨s₁, o, os₁, hs, hrun, rfl⟩ := run_cons.mp h'
  have hpass : bridgeStep topic s .pass = .ok ({ s with phase := .polling s.iterators.entries }, []) := by
    rcases hphase with hphase | hphase <;> simp only [bridgeStep, hphase]
  have hpolled := polled_step (run_polled h) hpass
  obtain ⟨rfl, rfl⟩ := Prod.mk.inj (Except.ok.inj (hpass.symm.trans hs))
  have hreads : Bridge.Reads { s with phase := .polling s.iterators.entries } id :=
    ⟨by simp, by simp, Dict.mem_keys.mpr ⟨_, hget⟩⟩
  obtain ⟨n, hn, hfloor⟩ := run_reads hpolled hreads (fun e he => stops_of_full (hq e he)) hrun
  have hprogress := turn_progress hq hpolled rfl (Dict.mem_entries.mpr hget) hpolls hrun
  beta_reduce at hn hfloor
  rw [floor_of_iterator (s := { s with phase := .polling s.iterators.entries }) hget] at hn hfloor
  exact ⟨n, hn, hfloor ▸ hprogress⟩

/-- The pass sends the record that was there when it began, although one arrives in the other shard before its turn. -/
theorem bookings_pass : ∃ s os s' os',
    run (bridgeStep "bookings") Bridge.start [.listShardIds ["left", "right"], .latestIterator, .latestIterator,
      .arrive "right" (bookingRecord 0)] = .ok (s, os) ∧
    run (bridgeStep "bookings") s [.pass, .poll 500 false none, .arrive "left" (bookingRecord 1),
      .poll 700 false none] = .ok (s', os') ∧
    ∃ n, positionsOf "right" os' = List.range' 0 n ∧ 1 ≤ 0 + n := by
  refine ⟨_, _, _, _, rfl, rfl, ?_⟩
  have hrun : run (bridgeStep "bookings") Bridge.start [.listShardIds ["left", "right"], .latestIterator,
      .latestIterator, .arrive "right" (bookingRecord 0)] = .ok (_, _) := rfl
  exact (pass_forwards (q := [.poll 500 false none, .arrive "left" (bookingRecord 1), .poll 700 false none]) "right" 0
    hrun (.inl rfl) rfl (by decide) (by decide) rfl).1

/-! ## Shards without an iterator -/

/-- The process polls, with an iterator for no other shards than before. -/
def Bridge.Within (s₀ s : Bridge) : Prop :=
  (∃ turns, s.phase = .polling turns) ∧
    ∀ id iterator, s.iterators.get? id = some (some iterator) → ∃ i, s₀.iterators.get? id = some (some i)

theorem within_moved {s₀ : Bridge} {e : BridgeEvent} {o : List Forwarded} (h : Polled s) (hw : s₀.Within s)
    (he : e.stops = false) (hm : Moved topic s e s' o) :
    s₀.Within s' ∧ ∀ f ∈ o, ∃ i, s₀.iterators.get? f.shardId = some (some i) := by
  obtain ⟨⟨turns, hphase⟩, hlive⟩ := hw
  cases hm with
  | stream shardId shard _ _ => exact ⟨⟨⟨turns, hphase⟩, hlive⟩, by simp⟩
  | listed shardIds hstopped => rw [hphase] at hstopped; cases hstopped
  | latest shardId rest hlatest => rw [hphase] at hlatest; cases hlatest
  | passed turns' _ _ => exact ⟨⟨⟨turns', rfl⟩, hlive⟩, by simp⟩
  | answered shardId iterator rest count ended hanswered =>
    have hget := hlive shardId iterator ((h.turns _ hanswered).1 _ List.mem_cons_self)
    refine ⟨⟨⟨rest, rfl⟩, fun id it hid => ?_⟩, fun f hf => ?_⟩
    · rw [Bridge.get?_assign] at hid
      split_ifs at hid with heq
      · rw [heq]
        exact hget
      · exact hlive id it hid
    · rw [(mem_republish hf).1]
      exact hget
  | crashed shardId iterator rest n hstops _ => exact absurd hstops (by simp [he])
  | stopped => cases he
  | idle => exact ⟨⟨⟨turns, hphase⟩, hlive⟩, by simp⟩

/-- Once it polls, the process sends from no shard that it has no iterator for, whatever arrives there: from none
that appeared since it listed them, and from none at all when those it listed are read to their ends. -/
theorem forwarded_only_listed {p q : List BridgeEvent} {os os' : List Forwarded}
    {turns : List (String × Option ShardIterator)} (h : run (bridgeStep topic) Bridge.start p = .ok (s, os))
    (hphase : s.phase = .polling turns) (hq : ∀ e ∈ q, e.stops = false)
    (h' : run (bridgeStep topic) s q = .ok (s', os')) :
    (∀ f ∈ os', ∃ iterator, s.iterators.get? f.shardId = some (some iterator)) ∧
      ((∀ next ∈ s.iterators.values, next = none) → os' = []) := by
  have hlisted : ∀ f ∈ os', ∃ iterator, s.iterators.get? f.shardId = some (some iterator) :=
    run_outputs (I := fun t => Polled t ∧ s.Within t) (C := fun _ e => e.stops = false)
      (fun _ _ _ _ hi he hs => ⟨polled_step hi.1 hs, (within_moved hi.1 hi.2 he (moved_of_step hs)).1⟩)
      (fun _ _ _ _ hi he hs => (within_moved hi.1 hi.2 he (moved_of_step hs)).2)
      ⟨run_polled h, ⟨turns, hphase⟩, fun _ iterator hi => ⟨iterator, hi⟩⟩ (along_of_forall (fun _ => hq) s) h'
  refine ⟨hlisted, fun hended => List.eq_nil_iff_forall_not_mem.mpr fun f hf => ?_⟩
  obtain ⟨iterator, hget⟩ := hlisted f hf
  cases hended _ (Dict.mem_values.mpr ⟨f.shardId, hget⟩)

/-- After its one shard was split nothing of the children is sent. -/
theorem split_not_forwarded : ∃ s os s' os',
    run (bridgeStep "bookings") Bridge.start
      [.listShardIds ["shard"], .latestIterator, .close "shard", .pass, .poll 500 true none] = .ok (s, os) ∧
    run (bridgeStep "bookings") s
      [.arrive "child" (bookingRecord 1), .pass, .poll 500 false none, .pass] = .ok (s', os') ∧ os' = [] := by
  refine ⟨_, _, _, _, rfl, rfl, ?_⟩
  have hrun : run (bridgeStep "bookings") Bridge.start
      [.listShardIds ["shard"], .latestIterator, .close "shard", .pass, .poll 500 true none] = .ok (_, _) := rfl
  exact (forwarded_only_listed (q := [.arrive "child" (bookingRecord 1), .pass, .poll 500 false none, .pass]) hrun
    rfl (by decide) rfl).2 (by decide)

end PriceEngine.KinesisKafkaBridge
