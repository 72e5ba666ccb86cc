import Mathlib.Data.Finset.Basic
import Mathlib.Data.List.Sort
import PriceEngine.Consumer

/-!
# The shards of the stream

`run_forever` describes the stream, selects the shards that are safe to read
(`orderShardsForProcessing`), reads each of them once and starts again. What it
knows of the shards it has drained it forgets when it restarts; the checkpoints
stay. Records arrive and shards close at any time.
-/

namespace PriceEngine

structure Shard where
  shardId : String
  parentShardId : Option String

/-- The records of a shard, each under its own sequence number. -/
structure ShardLog where
  records : List StreamRecord
  closed : Bool
  nodup : (records.map (·.sequenceNumber)).Nodup
  ne_empty : ∀ r ∈ records, r.sequenceNumber ≠ ""

def ShardLog.empty : ShardLog := ⟨[], false, List.nodup_nil, fun _ h => absurd h List.not_mem_nil⟩

def ShardLog.arrive (log : ShardLog) (r : StreamRecord) : ShardLog :=
  if h : log.closed = false ∧ r.sequenceNumber ≠ "" ∧ r.sequenceNumber ∉ log.records.map (·.sequenceNumber) then
    { log with
      records := log.records ++ [r]
      nodup := by
        rw [List.map_append, List.map_singleton]
        exact List.nodup_append.mpr ⟨log.nodup, List.nodup_singleton _, fun a ha b hb e => by
          rw [List.mem_singleton] at hb
          exact h.2.2 (hb ▸ e ▸ ha)⟩
      ne_empty := List.forall_mem_append.mpr ⟨log.ne_empty, List.forall_mem_singleton.mpr h.2.1⟩ }
  else log

def ShardLog.close (log : ShardLog) : ShardLog := { log with closed := true }

/-! ## Selecting -/

def parentPending (shards : List Shard) (drained : Finset String) (shard : Shard) : Bool :=
  match shard.parentShardId with
  | none => false
  | some parentId => decide (parentId ∈ shards.map (·.shardId)) && decide (parentId ∉ drained)

/-- `(s.get("ParentShardId") is not None, s["ShardId"])`, in the order of pairs. -/
def Shard.sortsBefore (a b : Shard) : Bool :=
  if a.parentShardId.isSome = b.parentShardId.isSome then decide (a.shardId ≤ b.shardId)
  else a.parentShardId.isNone

def orderShardsForProcessing (shards : List Shard) (drained : Finset String) : List Shard :=
  (shards.filter fun shard => !parentPending shards drained shard).insertionSort fun a b => a.sortsBefore b = true

/-! ## Reading -/

/-- The stream and the consumer in the middle of a pass: the shards it was told of, those it knows to be
drained, and those selected that it has still to read. -/
structure Polling where
  logs : String → ShardLog
  consumer : Consumer
  shards : List Shard
  drained : Finset String
  pending : List Shard

def Polling.start : Polling where
  logs := fun _ => .empty
  consumer := ⟨[], Dict.empty⟩
  shards := []
  drained := ∅
  pending := []

def Polling.stream (s : Polling) (shardId : String) : List StreamRecord := (s.logs shardId).records

def Polling.unread (s : Polling) (shardId : String) : List StreamRecord :=
  recordsAfter (s.stream shardId) (s.consumer.checkpoints.get? shardId)

/-- `resp.get("NextShardIterator") is None`: the shard is closed and the read has reached its end. -/
def Polling.noNextIterator (s : Polling) (pass : Pass) : Bool :=
  (s.logs pass.shardId).closed &&
    ((s.unread pass.shardId).drop (getRecords s.stream s.consumer pass).length).isEmpty

def Polling.restart (s : Polling) : Polling := { s with shards := [], drained := ∅, pending := [] }

structure ShardRead where
  shard : Shard
  record : StreamRecord

variable (t : NumberText) (deserialize : AttributeValue → Except PyError Value)

/-- One turn of the loop over the selected shards. An error or a crash ends the process, which restarts. -/
def processNext (s : Polling) (count : ℕ) (ingestedAt : Instant) (crash : Option CrashPoint) :
    Polling × List ShardRead :=
  match s.pending with
  | [] => (s, [])
  | shard :: rest =>
    let pass : Pass := ⟨shard.shardId, count, ingestedAt, crash⟩
    let reads := (getRecords s.stream s.consumer pass).map fun r => ⟨shard, r⟩
    match processShardOnce s.stream t deserialize s.consumer pass with
    | .error _ => (s.restart, reads)
    | .ok (consumer, _) =>
      if crash.isSome then ({ s with consumer := consumer }.restart, reads)
      else
        ({ s with
            consumer := consumer
            drained := if s.noNextIterator pass then insert shard.shardId s.drained else s.drained
            pending := rest }, reads)

def Polling.setLog (s : Polling) (shardId : String) (log : ShardLog) : Polling :=
  { s with logs := fun id => if id = shardId then log else s.logs id }

inductive PollingEvent
  | arrive (shardId : String) (record : StreamRecord)
  | close (shardId : String)
  | describe (shards : List Shard)
  | process (count : ℕ) (ingestedAt : Instant) (crash : Option CrashPoint)
  | restart

/-- One step of the stream or of `run_forever`, and the records it reads; a pass begins when the last is over. -/
def pollingStep (s : Polling) : PollingEvent → Except PyError (Polling × List ShardRead)
  | .arrive shardId record => .ok (s.setLog shardId ((s.logs shardId).arrive record), [])
  | .close shardId => .ok (s.setLog shardId (s.logs shardId).close, [])
  | .describe shards =>
    if s.pending.isEmpty then
      .ok ({ s with shards := shards, pending := orderShardsForProcessing shards s.drained }, [])
    else .ok (s, [])
  | .process count ingestedAt crash => .ok (processNext t deserialize s count ingestedAt crash)
  | .restart => .ok (s.restart, [])

end PriceEngine
