import PriceEngine.Components
import PriceEngine.Value

/-!
# The typed attribute format

DynamoDB stores a value with its type and a number as text. `pythonToDynamodb`
writes the format, and the reader of the stream is a parameter of which
`Deserializes` says what its documentation promises. A JSON value whose numbers
survive their text arrives as it was, with decimals for numbers (`received`).
-/

namespace PriceEngine

inductive AttributeValue
  | S (s : String)
  | N (text : String)
  | BOOL (b : Bool)
  | NULL
  | L (items : List AttributeValue)
  | M (attributes : List (String × AttributeValue))

/-- How numbers are written as texts and read: `str` of a float, `Decimal` of a text, `float` of a decimal;
and what `float`, `int` and `str` make of texts and of values that are none. -/
structure NumberText where
  strFloat : ℚ → String
  decimal : String → Option ℚ
  float : ℚ → ℚ
  floatOfText : String → Option ℚ
  intOfText : String → Option ℤ
  strOther : Value → String

variable (t : NumberText)

/-! ## Writing -/

mutual

def pythonToDynamodb : Value → Except PyError AttributeValue
  | .str s => .ok (.S s)
  | .bool b => .ok (.BOOL b)
  | .int n => .ok (.N (toString n))
  | .float x => .ok (.N (t.strFloat x))
  | .dict entries => (entriesToDynamodb entries).map .M
  | .list items => (listToDynamodb items).map .L
  | .null => .ok .NULL
  | .decimal _ | .date _ | .datetime _ => .error .typeError

def listToDynamodb : List Value → Except PyError (List AttributeValue)
  | [] => .ok []
  | v :: vs => do
    let a ← pythonToDynamodb v
    let as ← listToDynamodb vs
    .ok (a :: as)

def entriesToDynamodb : List (String × Value) → Except PyError (List (String × AttributeValue))
  | [] => .ok []
  | (key, v) :: es => do
    let a ← pythonToDynamodb v
    let as ← entriesToDynamodb es
    .ok ((key, a) :: as)

end

/-- The attributes of an item: the bare map. -/
def toDynamodbItem (data : Value) : Except PyError (List (String × AttributeValue)) := do
  match ← pythonToDynamodb t data with
  | .M attributes => .ok attributes
  | _ => .error (.keyError "M")

theorem lookup_entriesToDynamodb {t : NumberText} {entries : List (String × Value)} {item : List (String × AttributeValue)}
    (h : entriesToDynamodb t entries = .ok item) {key : String} {v : Value} (hv : entries.lookup key = some v) :
    ∃ a, pythonToDynamodb t v = .ok a ∧ item.lookup key = some a := by
  induction entries generalizing item with
  | nil => cases hv
  | cons e entries ih =>
    obtain ⟨a, ha, h⟩ := bind_eq_ok.mp h
    obtain ⟨as, has, h⟩ := bind_eq_ok.mp h
    cases h
    rw [List.lookup_cons] at hv ⊢
    cases hk : key == e.1 with
    | true =>
      rw [hk] at hv
      exact ⟨a, Option.some.inj hv ▸ ha, rfl⟩
    | false =>
      rw [hk] at hv
      exact ih has hv

/-! ## Reading -/

/-- The reader inverts the format; the text of a number becomes an exact decimal. -/
structure Deserializes (deserialize : AttributeValue → Except PyError Value) : Prop where
  text : ∀ s, deserialize (.S s) = .ok (.str s)
  number : ∀ s x, t.decimal s = some x → deserialize (.N s) = .ok (.decimal x)
  truth : ∀ b, deserialize (.BOOL b) = .ok (.bool b)
  null : deserialize .NULL = .ok .null
  items : ∀ items, deserialize (.L items) = (items.mapM deserialize).map .list
  attributes : ∀ attributes, deserialize (.M attributes) =
    Value.entries (attributes.map fun a => (a.1, deserialize a.2))

def deserializeImage (deserialize : AttributeValue → Except PyError Value) :
    Option (List (String × AttributeValue)) → Except PyError Value
  | none => .ok .null
  | some image => Value.entries (image.map fun a => (a.1, deserialize a.2))

/-! ## A reader -/

/-- Digits, or digits with a decimal point between them. -/
def readUnsigned (cs : List Char) : Option ℚ :=
  let whole := cs.takeWhile Char.isDigit
  match cs.dropWhile Char.isDigit with
  | [] => if whole.isEmpty then none else some (Nat.ofDigitChars 10 whole 0)
  | '.' :: places =>
    if !places.isEmpty && places.all Char.isDigit then
      some ((Nat.ofDigitChars 10 (whole ++ places) 0 : ℕ) / 10 ^ places.length)
    else none
  | _ => none

def readDecimal (s : String) : Option ℚ :=
  match s.toList with
  | '-' :: cs => (readUnsigned cs).map (-·)
  | cs => readUnsigned cs

/-- Numbers of ordinary size. -/
def ordinaryNumbers : NumberText where
  strFloat := fmtFloat
  decimal := readDecimal
  float := id
  floatOfText := readDecimal
  intOfText := fun s => (readDecimal s).bind fun x => if x.den = 1 ∧ '.' ∉ s.toList then some x.num else none
  strOther := fun v => if v.truth then "True" else "False"

mutual

def typeDeserializer (t : NumberText) : AttributeValue → Except PyError Value
  | .S s => .ok (.str s)
  | .N text =>
    match t.decimal text with
    | some x => .ok (.decimal x)
    | none => .error .valueError
  | .BOOL b => .ok (.bool b)
  | .NULL => .ok .null
  | .L items => (deserializeItems t items).map .list
  | .M attributes => (deserializeAttributes t attributes).map .dict

def deserializeItems (t : NumberText) : List AttributeValue → Except PyError (List Value)
  | [] => .ok []
  | a :: as => do
    let v ← typeDeserializer t a
    let vs ← deserializeItems t as
    .ok (v :: vs)

def deserializeAttributes (t : NumberText) : List (String × AttributeValue) → Except PyError (List (String × Value))
  | [] => .ok []
  | (key, a) :: as => do
    let v ← typeDeserializer t a
    let vs ← deserializeAttributes t as
    .ok ((key, v) :: vs)

end

theorem deserializeItems_eq (t : NumberText) (items : List AttributeValue) :
    deserializeItems t items = items.mapM (typeDeserializer t) := by
  induction items with
  | nil => rfl
  | cons a as ih => rw [deserializeItems, List.mapM_cons, ih]; rfl

theorem deserializeAttributes_eq (t : NumberText) (attributes : List (String × AttributeValue)) :
    deserializeAttributes t attributes =
      (attributes.map fun a => (a.1, typeDeserializer t a.2)).mapM Value.entry := by
  induction attributes with
  | nil => rfl
  | cons a as ih =>
    obtain ⟨key, a⟩ := a
    rw [deserializeAttributes, List.map_cons, List.mapM_cons, ih, Value.entry]
    cases typeDeserializer t a <;> rfl

theorem typeDeserializer_deserializes (t : NumberText) : Deserializes t (typeDeserializer t) where
  text _ := rfl
  number s x h := by rw [typeDeserializer, h]
  truth _ := rfl
  null := rfl
  items items := by rw [typeDeserializer, deserializeItems_eq]
  attributes attributes := by rw [typeDeserializer, deserializeAttributes_eq]; rfl

/-! ## What arrives -/

/-- What JSON has: no decimals, dates or instants. -/
def Value.IsJson : Value → Prop
  | .decimal _ | .date _ | .datetime _ => False
  | _ => True

def NumberText.readFloat (x : ℚ) : ℚ := (t.decimal (t.strFloat x)).getD 0

/-- A number reads back: its text is that of a decimal, which is read as the number. -/
def NumberText.ReadsBack : Value → Prop
  | .int n => t.decimal (toString n) = some (n : ℚ)
  | .float x => t.decimal (t.strFloat x) = some (t.readFloat x) ∧ t.float (t.readFloat x) = x
  | _ => True

instance : DecidablePred t.ReadsBack
  | .int _ => inferInstanceAs (Decidable (_ = _))
  | .float _ => inferInstanceAs (Decidable (_ ∧ _))
  | .null | .bool _ | .decimal _ | .str _ | .date _ | .datetime _ | .list _ | .dict _ => isTrue trivial

/-- Every number inside survives its text. -/
def NumberText.Survives : Value → Prop := Value.Leaves t.ReadsBack

mutual

def Value.received : Value → Value
  | .int n => .decimal n
  | .float x => .decimal (t.readFloat x)
  | .list items => .list (receivedList items)
  | .dict entries => .dict (receivedEntries entries)
  | v => v

def receivedList : List Value → List Value
  | [] => []
  | v :: vs => v.received :: receivedList vs

def receivedEntries : List (String × Value) → List (String × Value)
  | [] => []
  | (key, v) :: es => (key, v.received) :: receivedEntries es

end

theorem receivedList_eq (items : List Value) : receivedList t items = items.map (·.received t) := by
  induction items with
  | nil => rfl
  | cons v vs ih => rw [receivedList, ih, List.map_cons]

theorem receivedEntries_eq (entries : List (String × Value)) :
    receivedEntries t entries = entries.map fun e => (e.1, e.2.received t) := by
  induction entries with
  | nil => rfl
  | cons e es ih => rw [receivedEntries, ih, List.map_cons]

section
variable {t} {deserialize : AttributeValue → Except PyError Value}

mutual

theorem received_of_leaves (hdes : Deserializes t deserialize) : ∀ v : Value,
    (∀ w ∈ v.leaves, w.IsJson ∧ t.ReadsBack w) →
    ∃ a, pythonToDynamodb t v = .ok a ∧ deserialize a = .ok (v.received t)
  | .str s, _ => ⟨_, rfl, hdes.text s⟩
  | .bool b, _ => ⟨_, rfl, hdes.truth b⟩
  | .null, _ => ⟨_, rfl, hdes.null⟩
  | .int n, h => ⟨_, rfl, hdes.number _ _ (h _ (List.mem_singleton_self _)).2⟩
  | .float x, h => ⟨_, rfl, hdes.number _ _ (h _ (List.mem_singleton_self _)).2.1⟩
  | .decimal _, h => (h _ (List.mem_singleton_self _)).1.elim
  | .date _, h => (h _ (List.mem_singleton_self _)).1.elim
  | .datetime _, h => (h _ (List.mem_singleton_self _)).1.elim
  | .list items, h => by
    obtain ⟨as, hwrite, hread⟩ := receivedList_of_leaves hdes items h
    refine ⟨.L as, by rw [pythonToDynamodb, hwrite]; rfl, ?_⟩
    rw [hdes.items, hread]
    rfl
  | .dict entries, h => by
    obtain ⟨as, hwrite, hread⟩ := receivedEntries_of_leaves hdes entries h
    refine ⟨.M as, by rw [pythonToDynamodb, hwrite]; rfl, ?_⟩
    rw [hdes.attributes, Value.entries_eq_ok hread]
    rfl

theorem receivedList_of_leaves (hdes : Deserializes t deserialize) : ∀ items : List Value,
    (∀ w ∈ Value.leavesOfList items, w.IsJson ∧ t.ReadsBack w) →
    ∃ as, listToDynamodb t items = .ok as ∧ as.mapM deserialize = .ok (receivedList t items)
  | [], _ => ⟨[], rfl, rfl⟩
  | v :: vs, h => by
    rw [Value.leavesOfList, List.forall_mem_append] at h
    obtain ⟨a, hwrite, hread⟩ := received_of_leaves hdes v h.1
    obtain ⟨as, hwrites, hreads⟩ := receivedList_of_leaves hdes vs h.2
    refine ⟨a :: as, by rw [listToDynamodb, hwrite, hwrites]; rfl, ?_⟩
    rw [List.mapM_cons, hread, hreads]
    rfl

theorem receivedEntries_of_leaves (hdes : Deserializes t deserialize) : ∀ entries : List (String × Value),
    (∀ w ∈ Value.leavesOfEntries entries, w.IsJson ∧ t.ReadsBack w) →
    ∃ as, entriesToDynamodb t entries = .ok as ∧
      (as.map fun a => (a.1, deserialize a.2)) = (receivedEntries t entries).map fun e => (e.1, .ok e.2)
  | [], _ => ⟨[], rfl, rfl⟩
  | (key, v) :: es, h => by
    rw [Value.leavesOfEntries, List.forall_mem_append] at h
    obtain ⟨a, hwrite, hread⟩ := received_of_leaves hdes v h.1
    obtain ⟨as, hwrites, hreads⟩ := receivedEntries_of_leaves hdes es h.2
    refine ⟨(key, a) :: as, by rw [entriesToDynamodb, hwrite, hwrites]; rfl, ?_⟩
    rw [List.map_cons, hread, hreads]
    rfl

end

/-- A JSON object whose numbers survive arrives as an image, with decimals for its numbers. -/
theorem image_of_item (hdes : Deserializes t deserialize) {entries : List (String × Value)}
    (hjson : Value.Leaves Value.IsJson (.dict entries)) (h : t.Survives (.dict entries)) :
    (do deserializeImage deserialize (some (← toDynamodbItem t (.dict entries)))) =
      .ok ((Value.dict entries).received t) := by
  obtain ⟨as, hwrites, hreads⟩ := receivedEntries_of_leaves hdes entries fun w hw => ⟨hjson w hw, h w hw⟩
  have hitem : toDynamodbItem t (.dict entries) = .ok as := by
    rw [toDynamodbItem, pythonToDynamodb, hwrites]
    rfl
  rw [hitem]
  exact Value.entries_eq_ok hreads

end

end PriceEngine
