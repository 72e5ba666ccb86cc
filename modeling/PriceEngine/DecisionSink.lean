import PriceEngine.Consumer
import PriceEngine.Dashboard
import PriceEngine.RetriedWrites

/-!
# The decision table

`DynamoDbSinkFunction` puts each decision into a table keyed by apartment and
night, and tries again when the call raises. Each subtask of the job writes the
decisions of its apartments, one after another; a call that raises in the end
fails the job, whose restart begins all of them again. The table's stream has a
record for each put that changes an item. The dashboard's hot path asks the table
for the item of each apartment with the greatest `target_date`.
-/

namespace PriceEngine

/-! ## Items -/

mutual

def AttributeValue.same : AttributeValue → AttributeValue → Bool
  | .S s, .S s' => s = s'
  | .N text, .N text' => text = text'
  | .BOOL b, .BOOL b' => b = b'
  | .NULL, .NULL => true
  | .L items, .L items' => sameItems items items'
  | .M attributes, .M attributes' => sameAttributes attributes attributes'
  | _, _ => false

def sameItems : List AttributeValue → List AttributeValue → Bool
  | [], [] => true
  | a :: as, b :: bs => a.same b && sameItems as bs
  | _, _ => false

def sameAttributes : List (String × AttributeValue) → List (String × AttributeValue) → Bool
  | [], [] => true
  | (key, a) :: as, (key', b) :: bs => decide (key = key') && a.same b && sameAttributes as bs
  | _, _ => false

end

mutual

theorem same_iff : ∀ a b : AttributeValue, a.same b = true ↔ a = b
  | .S _, b => by cases b <;> simp [AttributeValue.same]
  | .N _, b => by cases b <;> simp [AttributeValue.same]
  | .BOOL _, b => by cases b <;> simp [AttributeValue.same]
  | .NULL, b => by cases b <;> simp [AttributeValue.same]
  | .L items, b => by cases b <;> simp [AttributeValue.same, sameItems_iff items]
  | .M attributes, b => by cases b <;> simp [AttributeValue.same, sameAttributes_iff attributes]

theorem sameItems_iff : ∀ as bs : List AttributeValue, sameItems as bs = true ↔ as = bs
  | [], bs => by cases bs <;> simp [sameItems]
  | a :: as, bs => by cases bs <;> simp [sameItems, same_iff a, sameItems_iff as]

theorem sameAttributes_iff : ∀ as bs : List (String × AttributeValue), sameAttributes as bs = true ↔ as = bs
  | [], bs => by cases bs <;> simp [sameAttributes]
  | (key, a) :: as, bs => by
    cases bs with
    | nil => simp [sameAttributes]
    | cons b bs => simp [sameAttributes, same_iff a, sameAttributes_iff as, Prod.ext_iff]

end

/-- An item of the table: attributes that have the two keys. -/
structure DecisionItem where
  attributes : List (String × AttributeValue)
  apartmentId : String
  targetDate : String
  apartment_key : attributes.lookup "apartment_id" = some (.S apartmentId)
  date_key : attributes.lookup "target_date" = some (.S targetDate)

theorem DecisionItem.ext_attributes {x y : DecisionItem} (h : x.attributes = y.attributes) : x = y := by
  obtain ⟨attributes, a, d, ha, hd⟩ := x
  obtain ⟨attributes', a', d', ha', hd'⟩ := y
  obtain rfl : attributes = attributes' := h
  obtain rfl := AttributeValue.S.inj (Option.some.inj (ha.symm.trans ha'))
  obtain rfl := AttributeValue.S.inj (Option.some.inj (hd.symm.trans hd'))
  rfl

instance : DecidableEq DecisionItem := fun x y =>
  decidable_of_iff (sameAttributes x.attributes y.attributes = true)
    ⟨fun h => DecisionItem.ext_attributes ((sameAttributes_iff _ _).mp h),
      fun h => (sameAttributes_iff _ _).mpr (congrArg _ h)⟩

/-- An item without its keys is refused. -/
def DecisionItem.ofAttributes (attributes : List (String × AttributeValue)) : Except PyError DecisionItem :=
  match ha : attributes.lookup "apartment_id", hd : attributes.lookup "target_date" with
  | some (.S apartmentId), some (.S targetDate) => .ok ⟨attributes, apartmentId, targetDate, ha, hd⟩
  | _, _ => .error .valueError

section
variable (t : NumberText) (clock : Instant → ℤ)

def decisionItem (d : PriceDecision) : Except PyError DecisionItem := do
  DecisionItem.ofAttributes (← toDynamodbItem t (d.modelDump clock))

/-! ## The sink -/

/-- The subtasks of the job, `assign` giving the one that has an apartment. -/
def sinkWriters (assign : String → ℕ) : Writers DecisionItem (String × String) where
  key x := (x.apartmentId, x.targetDate)
  assign k := assign k.1
  maxRetries := 3
  backoff attempt := 1 / 2 * 2 ^ attempt

abbrev DecisionTable := Writing DecisionItem (String × String)

inductive SinkEvent
  | map (d : PriceDecision)
  | attempt (subtask : ℕ) (outcome : Attempt)
  | stop

/-- A call of `map` begins, an attempt of `put_item` ends, or the job stops; a call that cannot build its item fails
the job. -/
def sinkStep (assign : String → ℕ) (s : DecisionTable) :
    SinkEvent → Except PyError (DecisionTable × List (Written DecisionItem))
  | .map d =>
    match decisionItem t clock d with
    | .ok item => (sinkWriters assign).writeStep s (.submit item)
    | .error _ => (sinkWriters assign).writeStep s .stop
  | .attempt subtask outcome => (sinkWriters assign).writeStep s (.attempt subtask outcome)
  | .stop => (sinkWriters assign).writeStep s .stop

end

/-! ## The stream of the table -/

def Change.eventName (c : Change DecisionItem) : String := if c.previous.isNone then "INSERT" else "MODIFY"

/-- The `i`-th record is in the shard `place i`, under the sequence number `sequenceNumber i`. -/
def streamOf (place : ℕ → String) (sequenceNumber : ℕ → String) (log : List (Change DecisionItem)) (shardId : String) :
    List StreamRecord :=
  (log.zipIdx.filter fun e => place e.2 = shardId).map fun e =>
    ⟨e.1.eventName, sequenceNumber e.2, some e.1.item.attributes⟩

/-! ## The hot path -/

section
variable (deserialize : AttributeValue → Except PyError Value)

/-- `ScanIndexForward=False`, `Limit=1`. -/
def queryLatestDecision (table : Dict (String × String) DecisionItem) (apartmentId : String) :
    Except PyError (Option Value) :=
  match (table.entries.filter fun e => e.1.1 = apartmentId).maxOn? (·.1.2) with
  | none => .ok none
  | some (_, item) => (deserializeImage deserialize (some item.attributes)).map some

/-- The entry of one apartment, where it has one. -/
def addPrice (table : Dict (String × String) DecisionItem) (prices : Dict String Value) (apartmentId : String) :
    Except PyError (Dict String Value) := do
  match ← queryLatestDecision deserialize table apartmentId with
  | none => .ok prices
  | some item => .ok (prices.put apartmentId item)

def currentPrices (table : Dict (String × String) DecisionItem) (apartmentIds : List String) :
    Except PyError (Dict String Value) := apartmentIds.foldlM (addPrice deserialize table) Dict.empty

/-- The rows of the table of current prices. -/
def priceRows (t : NumberText) (table : Dict (String × String) DecisionItem) (apartmentIds : List String) :
    Except PyError (List DisplayRow) := do
  let prices ← currentPrices deserialize table apartmentIds
  prices.entries.mapM fun e => toDisplayRow t e.1 e.2

end

end PriceEngine
