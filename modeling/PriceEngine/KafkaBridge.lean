import PriceEngine.Cursors
import PriceEngine.Dict
import PriceEngine.PublishBatch
import PriceEngine.Value

/-!
# The bridge from Kinesis to Kafka

`run_forever` lists the shards of the stream once, takes for each a LATEST
iterator and then polls them in turn, sending on what each answer holds. An
iterator is kept nowhere but in memory: an error or a crash loses all of them,
and the process that starts again takes new ones. Records arrive, shards close
and new ones appear at any time.
-/

namespace PriceEngine.KinesisKafkaBridge

open MarketIngestor (KinesisRecord)

structure KinesisShard where
  records : List KinesisRecord
  closed : Bool

def KinesisShard.empty : KinesisShard := ⟨[], false⟩

def KinesisShard.arrive (shard : KinesisShard) (record : KinesisRecord) : KinesisShard :=
  if shard.closed then shard else { shard with records := shard.records ++ [record] }

def KinesisShard.close (shard : KinesisShard) : KinesisShard := { shard with closed := true }

/-- The number of records before the next one to be read. -/
abbrev ShardIterator := ℕ

/-- What `producer.send` is given. -/
structure KafkaMessage where
  topic : String
  key : List UInt8
  value : List UInt8
  deriving DecidableEq

/-- A message sent, with the shard and the position its record was read from. -/
structure Forwarded where
  shardId : String
  position : ℕ
  message : KafkaMessage
  deriving DecidableEq

/-! ## The calls -/

def latestIterator (shard : KinesisShard) : ShardIterator := shard.records.length

/-- The service answers with `count` records at most, and never with more than `Limit`. At the end of a closed
shard it gives no next iterator, at once or in a later answer: `ended` is its choice. -/
def pollShard (shard : KinesisShard) (iterator : ShardIterator) (count : ℕ) (ended : Bool) :
    List KinesisRecord × Option ShardIterator :=
  let records := (shard.records.drop iterator).take (min count 500)
  (records,
    if shard.closed && ended && decide (shard.records.length ≤ iterator + records.length) then none
    else some (iterator + records.length))

def republishOne (topic : String) (record : KinesisRecord) : KafkaMessage :=
  ⟨topic, record.partitionKey.toUTF8.data.toList, record.data⟩

def republish (topic shardId : String) (iterator : ShardIterator) (records : List KinesisRecord) :
    List Forwarded :=
  (records.zipIdx iterator).map fun (record, position) => ⟨shardId, position, republishOne topic record⟩

/-! ## The loop -/

/-- Where `run_forever` is: the shards that have no iterator yet, or the turns of a pass that are left. -/
inductive Phase
  | stopped
  | starting (shardIds : List String)
  | polling (turns : List (String × Option ShardIterator))

structure Bridge where
  shards : String → KinesisShard
  iterators : Dict String (Option ShardIterator)
  phase : Phase

def Bridge.start : Bridge := ⟨fun _ => .empty, Dict.empty, .stopped⟩

def Bridge.stop (s : Bridge) : Bridge := { s with iterators := Dict.empty, phase := .stopped }

def Bridge.setShard (s : Bridge) (shardId : String) (shard : KinesisShard) : Bridge :=
  { s with shards := fun id => if id = shardId then shard else s.shards id }

/-- `iterators[shard_id] = next`, on the way to `phase`. -/
def Bridge.assign (s : Bridge) (shardId : String) (next : Option ShardIterator) (phase : Phase) : Bridge :=
  { s with iterators := s.iterators.put shardId next, phase := phase }

section
variable (s : Bridge) (shardId : String) (next : Option ShardIterator) (phase : Phase)

@[simp] theorem Bridge.assign_shards : (s.assign shardId next phase).shards = s.shards := rfl

@[simp] theorem Bridge.assign_phase : (s.assign shardId next phase).phase = phase := rfl

theorem Bridge.get?_assign (id : String) :
    (s.assign shardId next phase).iterators.get? id = if id = shardId then some next else s.iterators.get? id :=
  Dict.get?_put ..

theorem Bridge.mem_keys_assign {id : String} (h : id = shardId ∨ id ∈ s.iterators.keys) :
    id ∈ (s.assign shardId next phase).iterators.keys := Dict.mem_keys_put.mpr h

end

inductive BridgeEvent
  | arrive (shardId : String) (record : KinesisRecord)
  | close (shardId : String)
  | listShardIds (shardIds : List String)
  | latestIterator
  | pass
  | poll (count : ℕ) (ended : Bool) (crash : Option ℕ)
  | stop

variable (topic : String)

/-- The turn of one shard. A crash ends the process after as many of its messages were sent. -/
def turn (s : Bridge) (shardId : String) (iterator : ShardIterator) (rest : List (String × Option ShardIterator))
    (count : ℕ) (ended : Bool) (crash : Option ℕ) : Bridge × List Forwarded :=
  let (records, next) := pollShard (s.shards shardId) iterator count ended
  let sent := republish topic shardId iterator records
  match crash with
  | some n => (s.stop, sent.take n)
  | none => (s.assign shardId next (.polling rest), sent)

/-- One step of the stream or of `run_forever`, and what it sends; an event that is not due changes nothing. -/
def bridgeStep (s : Bridge) : BridgeEvent → Except PyError (Bridge × List Forwarded)
  | .arrive shardId record => .ok (s.setShard shardId ((s.shards shardId).arrive record), [])
  | .close shardId => .ok (s.setShard shardId (s.shards shardId).close, [])
  | .listShardIds shardIds =>
    match s.phase with
    | .stopped => .ok ({ s with iterators := Dict.empty, phase := .starting shardIds }, [])
    | _ => .ok (s, [])
  | .latestIterator =>
    match s.phase with
    | .starting (shardId :: rest) =>
      .ok (s.assign shardId (some (latestIterator (s.shards shardId))) (.starting rest), [])
    | _ => .ok (s, [])
  | .pass =>
    match s.phase with
    | .starting [] | .polling [] => .ok ({ s with phase := .polling s.iterators.entries }, [])
    | _ => .ok (s, [])
  | .poll count ended crash =>
    match s.phase with
    | .polling ((_, none) :: rest) => .ok ({ s with phase := .polling rest }, [])
    | .polling ((shardId, some iterator) :: rest) =>
      .ok (turn topic s shardId iterator rest count ended crash)
    | _ => .ok (s, [])
  | .stop => .ok (s.stop, [])

/-! ## Places -/

def Forwarded.placeIn (shardId : String) (f : Forwarded) : Option ℕ :=
  if f.shardId = shardId then some f.position else none

/-- The positions of a shard that were sent on, in the order they were. -/
def positionsOf (shardId : String) (sent : List Forwarded) : List ℕ :=
  sent.filterMap (Forwarded.placeIn shardId)

/-- The first position of a shard that can still be sent on: that of its iterator, or the end of the shard. -/
def Bridge.floor (s : Bridge) (shardId : String) : ℕ :=
  match s.iterators.get? shardId with
  | some (some iterator) => iterator
  | _ => (s.shards shardId).records.length

end PriceEngine.KinesisKafkaBridge
