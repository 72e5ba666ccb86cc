import PriceEngine.Calendar
import PriceEngine.Run
import Mathlib.Data.Rat.Defs

/-!
# Python values

The values that events, images and rows are made of, and what Python does with
them: subscripts and `get`, iteration, truth, `+`. Each may raise. A dictionary
is a list of entries; `entries` builds one from fields that may raise, in order.
-/

namespace PriceEngine

inductive PyError
  | keyError (key : String)
  | typeError | attributeError | valueError
  deriving DecidableEq

inductive Value
  | null
  | bool (b : Bool)
  | int (n : ℤ)
  | float (x : ℚ)
  | decimal (x : ℚ)
  | str (s : String)
  | date (d : Date)
  | datetime (t : Instant)
  | list (items : List Value)
  | dict (entries : List (String × Value))

namespace Value

/-! ## Access -/

/-- `v[key]`. -/
def item : Value → String → Except PyError Value
  | dict entries, key =>
    match entries.lookup key with
    | some v => .ok v
    | none => .error (.keyError key)
  | _, _ => .error .typeError

/-- `v.get(key, default)`. -/
def get (v : Value) (key : String) (default : Value := null) : Except PyError Value :=
  match v with
  | dict entries => .ok ((entries.lookup key).getD default)
  | _ => .error .attributeError

/-- What `for` runs over: a dictionary's keys, a text's characters. -/
def elements : Value → Except PyError (List Value)
  | list items => .ok items
  | dict entries => .ok (entries.map fun e => str e.1)
  | str s => .ok (s.toList.map fun c => str (String.singleton c))
  | _ => .error .typeError

def isNull : Value → Bool
  | null => true
  | _ => false

def truth : Value → Bool
  | null => false
  | bool b => b
  | int n => n ≠ 0
  | float x | decimal x => x ≠ 0
  | str s => s ≠ ""
  | date _ | datetime _ => true
  | list items => !items.isEmpty
  | dict entries => !entries.isEmpty

/-- `v or w`: `w` is evaluated only where `v` is falsy. -/
def orElse (v : Value) (w : Unit → Except PyError Value) : Except PyError Value :=
  if v.truth then .ok v else w ()

/-! ## Numbers -/

/-- A truth value counts as a number. -/
def unbool : Value → Value
  | bool b => int (if b then 1 else 0)
  | v => v

def addNumbers : Value → Value → Except PyError Value
  | int m, int n => .ok (int (m + n))
  | float x, float y => .ok (float (x + y))
  | float x, int n => .ok (float (x + n))
  | int m, float y => .ok (float (m + y))
  | decimal x, decimal y => .ok (decimal (x + y))
  | decimal x, int n => .ok (decimal (x + n))
  | int m, decimal y => .ok (decimal (m + y))
  | _, _ => .error .typeError

/-- `v + w`. -/
def add : Value → Value → Except PyError Value
  | str s, str t => .ok (str (s ++ t))
  | list xs, list ys => .ok (list (xs ++ ys))
  | v, w => addNumbers v.unbool w.unbool

/-- `v == 0`. -/
def isZero (v : Value) : Bool :=
  match v.unbool with
  | int n => n = 0
  | float x | decimal x => x = 0
  | _ => false

/-! ## Building -/

def entry (field : String × Except PyError Value) : Except PyError (String × Value) :=
  field.2.map fun v => (field.1, v)

/-- A dictionary display: its fields are evaluated in order, and the first that raises is the error. -/
def entries (fields : List (String × Except PyError Value)) : Except PyError Value :=
  (fields.mapM entry).map dict

theorem entries_eq_ok {fields : List (String × Except PyError Value)} {es : List (String × Value)}
    (h : fields = es.map fun e => (e.1, .ok e.2)) : entries fields = .ok (dict es) := by
  have hall : fields.mapM entry = .ok es := by
    rw [mapM_eq_ok, h, List.forall₂_map_left_iff]
    exact List.forall₂_same.mpr fun _ _ => rfl
  rw [entries, hall]
  rfl

/-! ## Leaves -/

mutual

/-- The values inside that hold no others. -/
def leaves : Value → List Value
  | list items => leavesOfList items
  | dict entries => leavesOfEntries entries
  | v => [v]

def leavesOfList : List Value → List Value
  | [] => []
  | v :: vs => v.leaves ++ leavesOfList vs

def leavesOfEntries : List (String × Value) → List Value
  | [] => []
  | (_, v) :: es => v.leaves ++ leavesOfEntries es

end

theorem leavesOfList_eq (items : List Value) : leavesOfList items = items.flatMap leaves := by
  induction items with
  | nil => rfl
  | cons v vs ih => rw [leavesOfList, ih, List.flatMap_cons]

theorem leavesOfEntries_eq (entries : List (String × Value)) :
    leavesOfEntries entries = entries.flatMap fun e => e.2.leaves := by
  induction entries with
  | nil => rfl
  | cons e es ih => rw [leavesOfEntries, ih, List.flatMap_cons]

def Leaves (P : Value → Prop) (v : Value) : Prop := ∀ w ∈ v.leaves, P w

variable {P : Value → Prop}

@[simp] theorem leaves_null : Leaves P null ↔ P null := List.forall_mem_singleton

@[simp] theorem leaves_int {n : ℤ} : Leaves P (int n) ↔ P (int n) := List.forall_mem_singleton

@[simp] theorem leaves_float {x : ℚ} : Leaves P (float x) ↔ P (float x) := List.forall_mem_singleton

@[simp] theorem leaves_str {s : String} : Leaves P (str s) ↔ P (str s) := List.forall_mem_singleton

theorem leaves_list {α : Type*} {f : α → Value} {xs : List α} :
    Leaves P (list (xs.map f)) ↔ ∀ x ∈ xs, Leaves P (f x) := by
  simp only [Leaves, leaves, leavesOfList_eq, List.mem_flatMap, List.mem_map]
  exact ⟨fun h x hx v hv => h v ⟨_, ⟨x, hx, rfl⟩, hv⟩, fun h v ⟨_, ⟨x, hx, e⟩, hv⟩ => h x hx v (e ▸ hv)⟩

theorem leaves_dict {entries : List (String × Value)} :
    Leaves P (dict entries) ↔ ∀ e ∈ entries, Leaves P e.2 := by
  simp only [Leaves, leaves, leavesOfEntries_eq, List.mem_flatMap]
  exact ⟨fun h w hw v hv => h v ⟨w, hw, hv⟩, fun h v ⟨w, hw, hv⟩ => h w hw v hv⟩

end Value

end PriceEngine
