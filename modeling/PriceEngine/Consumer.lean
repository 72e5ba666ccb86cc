import PriceEngine.Dict
import PriceEngine.LakehouseRow
import PriceEngine.Upsert

/-!
# The consumer of the stream

`processShardOnce` reads what a shard has after its checkpoint, merges the rows
into the table and writes the checkpoint. The deletion, the append and the
checkpoint are commits of their own, and a pass may crash before each of them.
-/

namespace PriceEngine

structure StreamRecord where
  eventName : String
  sequenceNumber : String
  newImage : Option (List (String × AttributeValue))

structure ParsedRecord where
  eventName : String
  sequenceNumber : String
  newImage : Value

/-- What a crash comes before. -/
inductive CrashPoint
  | delete | append | checkpoint
  deriving DecidableEq

/-- One pass over a shard: how many records it is handed, when, and whether it crashes. -/
structure Pass where
  shardId : String
  count : ℕ
  ingestedAt : Instant
  crash : Option CrashPoint := none

/-- The table and the checkpoints, by shard. -/
structure Consumer where
  table : List Value
  checkpoints : Dict String String

/-- A completed pass: the records it read, their rows, and the table it leaves. -/
structure Completed where
  records : List StreamRecord
  rows : List Value
  table : List Value

/-! ## Reading -/

/-- Strictly after the checkpoint, or from the start of the shard. -/
def recordsAfter (records : List StreamRecord) : Option String → List StreamRecord
  | none => records
  | some checkpoint =>
    if checkpoint = "" then records
    else (records.dropWhile fun r => r.sequenceNumber != checkpoint).tail

variable (stream : String → List StreamRecord)

/-- `Limit=1000`. -/
def getRecords (s : Consumer) (pass : Pass) : List StreamRecord :=
  (recordsAfter (stream pass.shardId) (s.checkpoints.get? pass.shardId)).take (min 1000 pass.count)

variable (t : NumberText) (deserialize : AttributeValue → Except PyError Value)

def parseStreamRecord (r : StreamRecord) : Except PyError ParsedRecord := do
  .ok { eventName := r.eventName
        sequenceNumber := r.sequenceNumber
        newImage := ← deserializeImage deserialize r.newImage }

/-- Records without an image make no row. -/
def rowsOf (records : List StreamRecord) (ingestedAt : Instant) : Except PyError (List Value) := do
  let parsed ← records.mapM (parseStreamRecord deserialize)
  (parsed.filter fun p => !p.newImage.isNull).mapM fun p => rowFromNewImage t p.newImage p.eventName ingestedAt

/-! ## Writing -/

def decisionId (row : Value) : Option String :=
  match row.item "decision_id" with
  | .ok (.str id) => some id
  | _ => none

/-- `table.delete(In("decision_id", …))`, the first commit of `merge_rows`. -/
def deleteRows (table rows : List Value) : List Value :=
  if rows.isEmpty then table else discard decisionId (rows.map decisionId) table

def mergeRows (table rows : List Value) : List Value :=
  if rows.isEmpty then table else discard decisionId (rows.map decisionId) table ++ rows

def putCheckpoint (s : Consumer) (shardId : String) (records : List StreamRecord) : Dict String String :=
  match records.getLast? with
  | some r => s.checkpoints.put shardId r.sequenceNumber
  | none => s.checkpoints

def processShardOnce (s : Consumer) (pass : Pass) : Except PyError (Consumer × List Completed) :=
  let records := getRecords stream s pass
  match pass.crash with
  | some .delete => .ok (s, [])
  | some .append => do
    let rows ← rowsOf t deserialize records pass.ingestedAt
    .ok ({ s with table := deleteRows s.table rows }, [])
  | some .checkpoint => do
    let rows ← rowsOf t deserialize records pass.ingestedAt
    .ok ({ s with table := mergeRows s.table rows }, [])
  | none => do
    let rows ← rowsOf t deserialize records pass.ingestedAt
    let table := mergeRows s.table rows
    .ok ({ table := table, checkpoints := putCheckpoint s pass.shardId records },
      [{ records := records, rows := rows, table := table }])

end PriceEngine
