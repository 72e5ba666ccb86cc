import PriceEngine.Consumer
import PriceEngine.Snapshots

/-!
# The consumer beside the compaction

The consumer merges a batch by two commits and writes the checkpoint after them;
`compact_once` loads the table, scans it and commits what it has scanned over the
whole table. Any number of compactions may be going on. A rejected commit fails
its process, and either process may crash before each of its steps.
-/

namespace PriceEngine

abbrev Table := Snapshot (List Value)

structure Batch where
  shardId : String
  records : List StreamRecord
  rows : List Value

/-- Where the consumer is in `process_shard_once`, with the table as it has it. -/
inductive ConsumerPhase
  | down
  | polling (table : Table)
  | read (table : Table) (batch : Batch)
  | deleted (table : Table) (batch : Batch)
  | merged (table : Table) (batch : Batch)

inductive CompactionPhase
  | idle
  | loaded (table : Table)
  | scanned (table : Table) (fullData : List Value)

structure Lakehouse where
  table : Table
  checkpoints : Dict String String
  consumer : ConsumerPhase
  compactions : ℕ → CompactionPhase

/-- A table that does not exist yet holds no rows. -/
def Lakehouse.empty : Lakehouse where
  table := ⟨0, []⟩
  checkpoints := Dict.empty
  consumer := .down
  compactions := fun _ => .idle

/-- The order in which a scan returns the rows of the data files. -/
structure ScanOrder where
  arrange : List Value → List Value
  perm : ∀ rows, (arrange rows).Perm rows

inductive LakehouseEvent
  | start
  | read (shardId : String) (count : ℕ) (ingestedAt : Instant)
  | delete (skips : Bool)
  | append
  | checkpoint
  | crash
  | load (i : ℕ)
  | scan (i : ℕ) (order : ScanOrder)
  | overwrite (i : ℕ)
  | crashCompaction (i : ℕ)

/-! ## The consumer -/

/-- `ensure_table`, which leaves the rows alone. -/
def startConsumer (s : Lakehouse) : Lakehouse :=
  match s.consumer with
  | .down => { s with consumer := .polling s.table }
  | _ => s

variable (stream : String → List StreamRecord) (t : NumberText)
  (deserialize : AttributeValue → Except PyError Value)

def readBatch (s : Lakehouse) (shardId : String) (count : ℕ) (ingestedAt : Instant) : Lakehouse × List Batch :=
  match s.consumer with
  | .polling table =>
    let records := getRecords stream ⟨table.content, s.checkpoints⟩ ⟨shardId, count, ingestedAt, none⟩
    if records.isEmpty then (s, [])
    else
      match rowsOf t deserialize records ingestedAt with
      | .error _ => ({ s with consumer := .down }, [])
      | .ok rows => ({ s with consumer := .read table ⟨shardId, records, rows⟩ }, [⟨shardId, records, rows⟩])
  | _ => (s, [])

/-- Whether `table.delete` finds a row to delete; where it finds none it need not commit. -/
def deletesNone (table : Table) (rows : List Value) : Bool :=
  table.content.all fun row => !(rows.map decisionId).contains (decisionId row)

def deleteCommit (s : Lakehouse) (skips : Bool) : Lakehouse :=
  match s.consumer with
  | .read table batch =>
    -- `merge_rows` does nothing with no rows
    if batch.rows.isEmpty then { s with consumer := .merged table batch }
    else if skips && deletesNone table batch.rows then { s with consumer := .deleted table batch }
    else
      match s.table.commit table (deleteRows table.content batch.rows) with
      | some table' => { s with table := table', consumer := .deleted table' batch }
      | none => { s with consumer := .down }
  | _ => s

def appendCommit (s : Lakehouse) : Lakehouse :=
  match s.consumer with
  | .deleted table batch =>
    match s.table.commit table (table.content ++ batch.rows) with
    | some table' => { s with table := table', consumer := .merged table' batch }
    | none => { s with consumer := .down }
  | _ => s

def writeCheckpoint (s : Lakehouse) : Lakehouse :=
  match s.consumer with
  | .merged table batch =>
    { s with
      checkpoints := putCheckpoint ⟨table.content, s.checkpoints⟩ batch.shardId batch.records
      consumer := .polling table }
  | _ => s

/-! ## The compaction -/

def Lakehouse.setCompaction (s : Lakehouse) (i : ℕ) (phase : CompactionPhase) : Lakehouse :=
  { s with compactions := fun j => if j = i then phase else s.compactions j }

def loadTable (s : Lakehouse) (i : ℕ) : Lakehouse :=
  match s.compactions i with
  | .idle => s.setCompaction i (.loaded s.table)
  | _ => s

def scanTable (s : Lakehouse) (i : ℕ) (order : ScanOrder) : Lakehouse :=
  match s.compactions i with
  | .loaded table => s.setCompaction i (.scanned table (order.arrange table.content))
  | _ => s

def overwriteCommit (s : Lakehouse) (i : ℕ) : Lakehouse :=
  match s.compactions i with
  | .scanned table fullData =>
    if fullData.isEmpty then s.setCompaction i .idle
    else
      match s.table.commit table fullData with
      | some table' => { s with table := table' }.setCompaction i .idle
      | none => s.setCompaction i .idle
  | _ => s

/-! ## Steps -/

/-- One step of either process, and the batch it reads, if it reads one. -/
def lakehouseStep (s : Lakehouse) : LakehouseEvent → Except PyError (Lakehouse × List Batch)
  | .start => .ok (startConsumer s, [])
  | .read shardId count ingestedAt => .ok (readBatch stream t deserialize s shardId count ingestedAt)
  | .delete skips => .ok (deleteCommit s skips, [])
  | .append => .ok (appendCommit s, [])
  | .checkpoint => .ok (writeCheckpoint s, [])
  | .crash => .ok ({ s with consumer := .down }, [])
  | .load i => .ok (loadTable s i, [])
  | .scan i order => .ok (scanTable s i order, [])
  | .overwrite i => .ok (overwriteCommit s i, [])
  | .crashCompaction i => .ok (s.setCompaction i .idle, [])

end PriceEngine
