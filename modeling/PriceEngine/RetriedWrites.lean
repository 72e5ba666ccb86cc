import Mathlib.Data.List.Nodup
import Mathlib.Data.Rat.Defs
import PriceEngine.Dict
import PriceEngine.Run

/-!
# Writers that try again

A store holds one item for each key and records in a log every change of what it
holds; to put what it holds already is no change. Each key has its writer, which
takes one item at a time and tries to put it until an attempt is answered or too
many have failed. An attempt that is not answered may have had its effect. All
writers stop when one gives up, and may be stopped at any time.

Whatever fails, the items a writer takes are recorded in the order in which it
takes them, each at most once, and what was answered is recorded (`Recorded`).
-/

namespace PriceEngine

/-- How an attempt ends: answered, with its effect but no answer, or with neither. -/
inductive Attempt
  | answered | lost | failed
  deriving DecidableEq

/-- An entry of the log: the new item and what it replaces. -/
structure Change (ι : Type*) where
  previous : Option ι
  item : ι
  deriving DecidableEq

inductive WriteEvent (ι : Type*)
  | submit (x : ι)
  | attempt (i : ℕ) (outcome : Attempt)
  | stop

def WriteEvent.submitted {ι : Type*} : WriteEvent ι → List ι
  | submit x => [x]
  | _ => []

inductive Written (ι : Type*)
  | taken (x : ι)
  | slept (seconds : ℚ)
  | returned (x : ι)
  | raised (x : ι)
  deriving DecidableEq

def Written.taken? {ι : Type*} : Written ι → Option ι
  | taken x => some x
  | _ => none

/-- The store, its log, and the item each writer is at with the number of attempts that failed. -/
structure Writing (ι K : Type*) where
  store : Dict K ι
  log : List (Change ι)
  current : Dict ℕ (ι × ℕ)

structure Writers (ι K : Type*) where
  key : ι → K
  assign : K → ℕ
  maxRetries : ℕ
  backoff : ℕ → ℚ

variable {ι K κ : Type*}

def takenItems (os : List (Written ι)) : List ι := os.filterMap Written.taken?

def Writing.start : Writing ι K := ⟨Dict.empty, [], Dict.empty⟩

def Writing.recorded (s : Writing ι K) : List ι := s.log.map (·.item)

namespace Writers

section
variable (w : Writers ι K)

def writer (x : ι) : ℕ := w.assign (w.key x)

/-- The items of one writer. -/
def items (i : ℕ) (l : List ι) : List ι := l.filter fun x => w.writer x = i

variable [DecidableEq ι] [DecidableEq K]

/-- The items under one key. -/
def under (k : K) (l : List ι) : List ι := l.filter fun x => w.key x = k

def put (s : Writing ι K) (x : ι) : Writing ι K :=
  if s.store.get? (w.key x) = some x then s
  else { s with store := s.store.put (w.key x) x, log := s.log ++ [⟨s.store.get? (w.key x), x⟩] }

/-- The attempt has failed, as far as the writer knows: it waits, or gives up and everything stops. -/
def fail (s : Writing ι K) (i : ℕ) (x : ι) (attempt : ℕ) : Writing ι K × List (Written ι) :=
  if w.maxRetries < attempt then ({ s with current := Dict.empty }, [.raised x])
  else ({ s with current := s.current.put i (x, attempt) }, [.slept (w.backoff attempt)])

def writeStep (s : Writing ι K) : WriteEvent ι → Except κ (Writing ι K × List (Written ι))
  | .submit x =>
    match s.current.get? (w.writer x) with
    | some _ => .ok (s, [])
    | none => .ok ({ s with current := s.current.put (w.writer x) (x, 0) }, [.taken x])
  | .attempt i outcome =>
    match s.current.get? i, outcome with
    | none, _ => .ok (s, [])
    | some (x, _), .answered =>
      .ok ({ w.put s x with current := s.current.remove i }, [.returned x])
    | some (x, attempt), .lost => .ok (w.fail (w.put s x) i x (attempt + 1))
    | some (x, attempt), .failed => .ok (w.fail s i x (attempt + 1))
  | .stop => .ok ({ s with current := Dict.empty }, [])

/-! ## The invariant -/

/-- The last item a writer has taken is its current one, and is the last recorded if it is recorded. -/
def AtItem (given recorded : List ι) (x : ι) : Prop :=
  ∃ before, given = before ++ [x] ∧
    (recorded.Sublist before ∨ ∃ done, recorded = done ++ [x] ∧ done.Sublist before)

structure Recorded (given : List ι) (s : Writing ι K) : Prop where
  stored : ∀ k, s.store.get? k = (w.under k s.recorded).getLast?
  chained : ∀ before c after, s.log = before ++ c :: after →
    c.previous = (w.under (w.key c.item) (before.map (·.item))).getLast?
  ordered : ∀ i, (w.items i s.recorded).Sublist (w.items i given)
  current : ∀ i x n, s.current.get? i = some (x, n) →
    w.writer x = i ∧ AtItem (w.items i given) (w.items i s.recorded) x ∧ n ≤ w.maxRetries

end

variable {w : Writers ι K}

@[simp] theorem fail_recorded (s : Writing ι K) (i : ℕ) (x : ι) (n : ℕ) :
    (w.fail s i x n).1.recorded = s.recorded := by
  unfold Writers.fail
  split <;> rfl

theorem fail_quiet (s : Writing ι K) (i : ℕ) (x : ι) (n : ℕ) :
    takenItems (w.fail s i x n).2 = [] ∧ ∀ y, .returned y ∉ (w.fail s i x n).2 := by
  unfold Writers.fail
  split <;> simp [takenItems, Written.taken?]

@[simp] theorem items_concat (i : ℕ) (l : List ι) (x : ι) :
    w.items i (l ++ [x]) = if w.writer x = i then w.items i l ++ [x] else w.items i l := by
  by_cases h : w.writer x = i <;> simp [items, h]

theorem AtItem.recorded {x : ι} {before recorded : List ι} (h : recorded.Sublist before) :
    AtItem (before ++ [x]) (recorded ++ [x]) x :=
  ⟨before, rfl, .inr ⟨recorded, rfl, h⟩⟩

variable [DecidableEq K] {s s' : Writing ι K} {given : List ι} {x : ι} {i : ℕ}

@[simp] theorem under_concat (k : K) (l : List ι) (x : ι) :
    w.under k (l ++ [x]) = if w.key x = k then w.under k l ++ [x] else w.under k l := by
  by_cases h : w.key x = k <;> simp [under, h]

theorem under_items (k : K) (l : List ι) : w.under k (w.items (w.assign k) l) = w.under k l := by
  unfold under items
  rw [List.filter_filter]
  refine List.filter_congr fun x _ => ?_
  by_cases h : w.key x = k <;> simp [writer, h]

theorem recorded_start : w.Recorded [] (Writing.start : Writing ι K) where
  stored := fun _ => rfl
  chained := fun before c after h => by cases before <;> cases h
  ordered := fun _ => List.Sublist.refl []
  current := fun _ _ _ h => by cases h

/-- A writer that stops or goes on with its item changes nothing else. -/
theorem Recorded.setCurrent (h : w.Recorded given s) {current : Dict ℕ (ι × ℕ)}
    (hcurrent : ∀ i x n, current.get? i = some (x, n) →
      w.writer x = i ∧ AtItem (w.items i given) (w.items i s.recorded) x ∧ n ≤ w.maxRetries) :
    w.Recorded given { s with current := current } :=
  ⟨h.stored, h.chained, h.ordered, hcurrent⟩

theorem Recorded.stop (h : w.Recorded given s) : w.Recorded given { s with current := Dict.empty } :=
  h.setCurrent fun _ _ _ hi => by simp at hi

theorem Recorded.submit (h : w.Recorded given s) (x : ι) :
    w.Recorded (given ++ [x]) { s with current := s.current.put (w.writer x) (x, 0) } where
  stored := h.stored
  chained := h.chained
  ordered := fun i => by
    refine (h.ordered i).trans ?_
    by_cases hx : w.writer x = i
    · simp [hx]
    · simp [hx]
  current := fun i y n hi => by
    rw [Dict.get?_put] at hi
    by_cases hx : i = w.writer x
    · rw [if_pos hx] at hi
      obtain ⟨rfl, rfl⟩ := Prod.mk.inj (Option.some.inj hi)
      refine ⟨hx.symm, ⟨w.items i given, ?_, .inl (h.ordered i)⟩, Nat.zero_le _⟩
      simp [hx]
    · rw [if_neg hx] at hi
      obtain ⟨hwriter, hat, hn⟩ := h.current i y n hi
      refine ⟨hwriter, ?_, hn⟩
      rw [items_concat, if_neg (Ne.symm hx)]
      exact hat

/-- What is recorded last for a writer is what the store holds. -/
theorem Recorded.stored_of_last (h : w.Recorded given s) {done : List ι}
    (hlast : w.items (w.writer x) s.recorded = done ++ [x]) : s.store.get? (w.key x) = some x := by
  rw [h.stored, ← under_items, show w.items (w.assign (w.key x)) s.recorded = done ++ [x] from hlast]
  simp

theorem Recorded.fail (h : w.Recorded given s) {n : ℕ} (hi : s.current.get? i = some (x, n)) :
    w.Recorded given (w.fail s i x (n + 1)).1 := by
  unfold Writers.fail
  split_ifs with hn
  · exact h.stop
  · refine h.setCurrent fun j y m hj => ?_
    rw [Dict.get?_put] at hj
    by_cases hij : j = i
    · rw [if_pos hij] at hj
      obtain ⟨rfl, rfl⟩ := Prod.mk.inj (Option.some.inj hj)
      subst hij
      exact ⟨(h.current j x n hi).1, (h.current j x n hi).2.1, Nat.le_of_not_lt hn⟩
    · rw [if_neg hij] at hj
      exact h.current j y m hj

theorem Recorded.mem_given (h : w.Recorded given s) (hx : x ∈ s.recorded) : x ∈ given := by
  have hitems : x ∈ w.items (w.writer x) s.recorded := by simp [items, hx]
  exact List.mem_of_mem_filter ((h.ordered _).subset hitems)

/-- The items of a part of a writer's keys are recorded in the order in which they were taken. -/
theorem Recorded.filter_sublist (h : w.Recorded given s) (i : ℕ) {q : ι → Bool} (hq : ∀ x, q x → w.writer x = i) :
    (s.recorded.filter q).Sublist (given.filter q) := by
  have hpart : ∀ l : List ι, (w.items i l).filter q = l.filter q := fun l => by
    rw [items, List.filter_filter]
    refine List.filter_congr fun x _ => ?_
    by_cases hx : q x = true <;> simp [hx, hq]
  rw [← hpart s.recorded, ← hpart given]
  exact (h.ordered i).filter q

/-- What holds after any run: the items taken are recorded as `Recorded` says, and the answered ones are among
those recorded. -/
structure Kept (w : Writers ι K) (os : List (Written ι)) (s : Writing ι K) : Prop where
  recorded : w.Recorded (takenItems os) s
  returned : ∀ x, .returned x ∈ os → x ∈ s.recorded

theorem kept_start : w.Kept [] (Writing.start : Writing ι K) := ⟨recorded_start, fun _ hx => by cases hx⟩

theorem kept_fail {os : List (Written ι)} (h : w.Kept os s) (hs : s.recorded ⊆ s'.recorded)
    (hs' : w.Recorded (takenItems os) s') {n : ℕ} (hi : s'.current.get? i = some (x, n)) :
    w.Kept (os ++ (w.fail s' i x (n + 1)).2) (w.fail s' i x (n + 1)).1 := by
  obtain ⟨htaken, hreturned⟩ := fail_quiet (w := w) s' i x (n + 1)
  refine ⟨?_, fun y hy => ?_⟩
  · rw [takenItems, List.filterMap_append, ← takenItems, ← takenItems, htaken, List.append_nil]
    exact hs'.fail hi
  · rw [fail_recorded]
    rcases List.mem_append.mp hy with hy | hy
    · exact hs (h.returned y hy)
    · exact absurd hy (hreturned y)

variable [DecidableEq ι]

@[simp] theorem put_current (s : Writing ι K) (x : ι) : (w.put s x).current = s.current := by
  unfold put
  split <;> rfl

/-- Where no item is taken twice, none is recorded twice. -/
theorem Recorded.nodup (h : w.Recorded given s) (hgiven : given.Nodup) : s.recorded.Nodup := by
  refine List.nodup_iff_count_le_one.mpr fun x => ?_
  have hcount : s.recorded.count x = (w.items (w.writer x) s.recorded).count x := by
    rw [items, List.count_filter (by simp)]
  rw [hcount]
  exact List.nodup_iff_count_le_one.mp ((hgiven.filter _).sublist (h.ordered (w.writer x))) x

/-- An attempt with an effect: afterwards the item is the last one recorded for its writer. -/
theorem Recorded.put (h : w.Recorded given s) {n : ℕ} (hi : s.current.get? i = some (x, n)) :
    w.Recorded given (w.put s x) ∧ x ∈ (w.put s x).recorded := by
  obtain ⟨rfl, ⟨before, hgiven, hat⟩, hn⟩ := h.current i x n hi
  rcases hat with hnew | ⟨done, hdone, -⟩
  · unfold Writers.put
    by_cases hstored : s.store.get? (w.key x) = some x
    · -- the item would be recorded already, for an equal item taken before
      rw [if_pos hstored]
      refine ⟨h, ?_⟩
      have hmem := List.mem_of_getLast? ((h.stored (w.key x)).symm.trans hstored)
      exact List.mem_of_mem_filter hmem
    · rw [if_neg hstored]
      refine ⟨⟨fun k => ?_, fun pre c post hsplit => ?_, fun j => ?_, fun j y m hj => ?_⟩, ?_⟩
      · rw [Dict.get?_put, Writing.recorded, List.map_append, List.map_singleton, under_concat]
        by_cases hk : w.key x = k
        · simp [hk]
        · rw [if_neg (Ne.symm hk), if_neg hk]
          exact h.stored k
      · rcases List.eq_nil_or_concat post with rfl | ⟨post, last, rfl⟩
        · obtain ⟨rfl, hc⟩ := List.append_inj' hsplit rfl
          obtain rfl := (List.cons.inj hc).1
          exact h.stored _
        · rw [List.concat_eq_append, ← List.cons_append, ← List.append_assoc] at hsplit
          exact h.chained pre c post (List.append_inj' hsplit rfl).1
      · rw [Writing.recorded, List.map_append, List.map_singleton, items_concat]
        by_cases hj : w.writer x = j
        · subst hj
          rw [if_pos rfl, hgiven]
          exact hnew.append (List.Sublist.refl [x])
        · rw [if_neg hj]
          exact h.ordered j
      · obtain ⟨rfl, hat, hm⟩ := h.current j y m hj
        refine ⟨rfl, ?_, hm⟩
        rw [Writing.recorded, List.map_append, List.map_singleton, items_concat]
        by_cases hy : w.writer x = w.writer y
        · rw [if_pos hy]
          rw [← hy] at hj hat ⊢
          obtain ⟨rfl, -⟩ := Prod.mk.inj (Option.some.inj (hi.symm.trans hj))
          rw [hgiven]
          exact AtItem.recorded hnew
        · rw [if_neg hy]
          exact hat
      · simp [Writing.recorded]
  · have hstored := h.stored_of_last hdone
    unfold Writers.put
    rw [if_pos hstored]
    refine ⟨h, ?_⟩
    have hmem : x ∈ w.items (w.writer x) s.recorded := by rw [hdone]; simp
    exact List.mem_of_mem_filter hmem

/-! ## Runs -/

theorem recorded_put_subset (s : Writing ι K) (x : ι) : s.recorded ⊆ (w.put s x).recorded := by
  unfold Writers.put
  split
  · exact List.Subset.refl _
  · simp [Writing.recorded]

theorem kept_step {os o : List (Written ι)} {e : WriteEvent ι} (h : w.Kept os s)
    (hs : w.writeStep (κ := κ) s e = .ok (s', o)) : w.Kept (os ++ o) s' := by
  have hsame : w.Kept (os ++ []) s := by rwa [List.append_nil]
  cases e with
  | submit x =>
    simp only [writeStep] at hs
    split at hs
    · obtain ⟨rfl, rfl⟩ := Prod.mk.inj (Except.ok.inj hs)
      exact hsame
    · obtain ⟨rfl, rfl⟩ := Prod.mk.inj (Except.ok.inj hs)
      refine ⟨?_, fun y hy => ?_⟩
      · rw [takenItems, List.filterMap_append]
        exact h.recorded.submit x
      · rcases List.mem_append.mp hy with hy | hy
        · exact h.returned y hy
        · simp at hy
  | attempt i outcome =>
    simp only [writeStep] at hs
    split at hs
    · obtain ⟨rfl, rfl⟩ := Prod.mk.inj (Except.ok.inj hs)
      exact hsame
    · rename_i x n hi
      obtain ⟨rfl, rfl⟩ := Prod.mk.inj (Except.ok.inj hs)
      obtain ⟨hput, hx⟩ := h.recorded.put hi
      refine ⟨?_, fun y hy => ?_⟩
      · rw [takenItems, List.filterMap_append]
        simp only [List.filterMap_cons, Written.taken?, List.filterMap_nil, List.append_nil]
        refine hput.setCurrent fun j y m hj => ?_
        rw [Dict.get?_remove] at hj
        split_ifs at hj
        exact hput.current j y m (by rwa [put_current])
      · rcases List.mem_append.mp hy with hy | hy
        · exact recorded_put_subset s x (h.returned y hy)
        · obtain rfl : y = x := by simpa using hy
          exact hx
    · rename_i x n hi
      obtain ⟨rfl, rfl⟩ := Prod.mk.inj (Except.ok.inj hs)
      exact kept_fail h (recorded_put_subset s x) (h.recorded.put hi).1 (by rwa [put_current])
    · rename_i x n hi
      obtain ⟨rfl, rfl⟩ := Prod.mk.inj (Except.ok.inj hs)
      exact kept_fail h (List.Subset.refl _) h.recorded hi
  | stop =>
    obtain ⟨rfl, rfl⟩ := Prod.mk.inj (Except.ok.inj hs)
    rw [List.append_nil]
    exact ⟨h.recorded.stop, h.returned⟩

/-- A step takes no item but the one submitted. -/
theorem taken_step {o : List (Written ι)} {e : WriteEvent ι} (hs : w.writeStep (κ := κ) s e = .ok (s', o)) :
    (takenItems o).Sublist e.submitted := by
  cases e with
  | submit x =>
    simp only [writeStep] at hs
    split at hs <;> obtain ⟨-, rfl⟩ := Prod.mk.inj (Except.ok.inj hs)
    · exact List.nil_sublist _
    · exact List.Sublist.refl _
  | attempt i outcome =>
    have hnone : takenItems o = [] := by
      simp only [writeStep] at hs
      split at hs <;> obtain ⟨-, rfl⟩ := Prod.mk.inj (Except.ok.inj hs)
      · rfl
      · rfl
      · exact (fail_quiet _ _ _ _).1
      · exact (fail_quiet _ _ _ _).1
    rw [hnone]
    exact List.nil_sublist _
  | stop =>
    obtain ⟨-, rfl⟩ := Prod.mk.inj (Except.ok.inj hs)
    exact List.nil_sublist _

end Writers

end PriceEngine
