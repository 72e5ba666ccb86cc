import Mathlib.Data.Int.Basic
import PriceEngine.Dict
import PriceEngine.Run

/-!
# A table of versions under concurrent sessions

A session reads the row of the highest version of a key and inserts the next
one, in a transaction of its own; a unique constraint on key and version is all
that keeps two sessions apart. A row is refused when the one it would follow is
no longer the last, so the rows of each key are numbered from 1 without a gap
(`Consistent.numbered`), each made from the one before it, and every
interleaving leaves the rows that its completed calls leave one after another
(`serializable`).
-/

namespace PriceEngine

/-- How the rows of a table are numbered; `first` and `next` give the row of an insertion, or `none` where a
constraint on its columns refuses it. -/
structure Versioning (K ρ δ α : Type*) where
  key : ρ → K
  version : ρ → ℤ
  first : α → Option ρ
  next : ρ → δ → Option ρ
  first_version : ∀ {a r}, first a = some r → version r = 1
  next_key : ∀ {r d r'}, next r d = some r' → key r' = key r
  next_version : ∀ {r d r'}, next r d = some r' → version r' = version r + 1

/-- A transaction that is not over: it has read a row, or inserted one after it. -/
inductive Session (ρ δ : Type*)
  | reading (base : ρ)
  | inserted (base : ρ) (changes : δ) (row : ρ)
  deriving DecidableEq

structure VersionedTable (ρ δ : Type*) where
  rows : List ρ
  sessions : Dict ℕ (Session ρ δ)
  deriving DecidableEq

def VersionedTable.start {ρ δ : Type*} : VersionedTable ρ δ := ⟨[], Dict.empty⟩

inductive TableEvent (K δ α : Type*)
  | first (a : α)
  | select (session : ℕ) (k : K)
  | insert (session : ℕ) (changes : δ)
  | commit (session : ℕ)
  | rollback (session : ℕ)

/-- A call that was completed, with the row it added. -/
inductive Call (K ρ δ α : Type*)
  | first (a : α) (row : ρ)
  | next (k : K) (changes : δ) (row : ρ)
  deriving DecidableEq

variable {K ρ δ α κ : Type*} [DecidableEq K]

namespace Versioning
variable (v : Versioning K ρ δ α)

def rowsOf (rows : List ρ) (k : K) : List ρ := rows.filter fun r => v.key r = k

/-- `ORDER BY version DESC LIMIT 1`. -/
def latest (rows : List ρ) (k : K) : Option ρ := (v.rowsOf rows k).maxOn? v.version

def taken (rows : List ρ) (row : ρ) : Bool := rows.any fun r => v.key r = v.key row ∧ v.version r = v.version row

/-- Another session has inserted a row of this key and version and is not over. -/
def waits (sessions : Dict ℕ (Session ρ δ)) (i : ℕ) (row : ρ) : Bool :=
  sessions.entries.any fun e => e.1 ≠ i && match e.2 with
    | .inserted _ _ r => decide (v.key r = v.key row ∧ v.version r = v.version row)
    | .reading _ => false

/-- One statement of one session. An insertion that conflicts with a committed row, or breaks another constraint,
ends its transaction; one that conflicts with a row not committed yet waits. -/
def tableStep (s : VersionedTable ρ δ) : TableEvent K δ α → Except κ (VersionedTable ρ δ × List (Call K ρ δ α))
  | .first a =>
    match v.first a with
    | none => .ok (s, [])
    | some row =>
      if v.taken s.rows row then .ok (s, []) else .ok ({ s with rows := s.rows ++ [row] }, [.first a row])
  | .select i k =>
    match s.sessions.get? i, v.latest s.rows k with
    | none, some base => .ok ({ s with sessions := s.sessions.put i (.reading base) }, [])
    | _, _ => .ok (s, [])
  | .insert i changes =>
    match s.sessions.get? i with
    | some (.reading base) =>
      match v.next base changes with
      | none => .ok ({ s with sessions := s.sessions.remove i }, [])
      | some row =>
        if v.taken s.rows row then .ok ({ s with sessions := s.sessions.remove i }, [])
        else if v.waits s.sessions i row then .ok (s, [])
        else .ok ({ s with sessions := s.sessions.put i (.inserted base changes row) }, [])
    | _ => .ok (s, [])
  | .commit i =>
    match s.sessions.get? i with
    | some (.inserted _ changes row) =>
      .ok ({ rows := s.rows ++ [row], sessions := s.sessions.remove i }, [.next (v.key row) changes row])
    | _ => .ok ({ s with sessions := s.sessions.remove i }, [])
  | .rollback i => .ok ({ s with sessions := s.sessions.remove i }, [])

end Versioning

/-- The statements of the call, with no other session beside it. -/
def Call.events : Call K ρ δ α → List (TableEvent K δ α)
  | .first a _ => [.first a]
  | .next k changes _ => [.select 0 k, .insert 0 changes, .commit 0]

def Call.row : Call K ρ δ α → ρ
  | .first _ row => row
  | .next _ _ row => row

/-! ## Numbered rows -/

/-- Versions 1, 2, … in this order. -/
def Numbered (f : ρ → ℤ) (l : List ρ) : Prop := l.map f = (List.range l.length).map fun i : ℕ => (i : ℤ) + 1

section
variable {f : ρ → ℤ} {l : List ρ} {a : ρ}

theorem numbered_concat : Numbered f (l ++ [a]) ↔ Numbered f l ∧ f a = l.length + 1 := by
  unfold Numbered
  rw [List.length_append, List.length_singleton, List.range_succ, List.map_append, List.map_append]
  refine ⟨fun h => ?_, fun h => by rw [h.1]; simp [h.2]⟩
  obtain ⟨hl, ha⟩ := List.append_inj h (by simp)
  exact ⟨hl, by simpa using ha⟩

theorem Numbered.maxOn?_eq : ∀ {l : List ρ}, Numbered f l → l.maxOn? f = l.getLast? := by
  intro l
  induction l using List.reverseRecOn with
  | nil => exact fun _ => rfl
  | append_singleton l a ih =>
    intro h
    obtain ⟨hl, ha⟩ := numbered_concat.mp h
    rw [List.maxOn?_append, ih hl, List.maxOn?_singleton, List.getLast?_concat]
    cases hlast : l.getLast? with
    | none => rfl
    | some c =>
      have hne : l ≠ [] := fun e => by rw [e] at hlast; cases hlast
      obtain ⟨l', rfl⟩ : ∃ l', l = l' ++ [c] :=
        ⟨l.dropLast, (List.dropLast_append_getLast? c hlast).symm⟩
      have hc := (numbered_concat.mp hl).2
      rw [List.length_append, List.length_singleton] at ha
      exact congrArg some (maxOn_eq_right (by rw [hc, ha]; push_cast; omega))

theorem Numbered.mem_bounds (h : Numbered f l) (ha : a ∈ l) : 1 ≤ f a ∧ f a ≤ l.length := by
  have hmem : f a ∈ (List.range l.length).map fun i : ℕ => (i : ℤ) + 1 := h ▸ List.mem_map_of_mem ha
  obtain ⟨i, hi, heq⟩ := List.mem_map.mp hmem
  have := List.mem_range.mp hi
  omega

theorem Numbered.exists_version (h : Numbered f l) {n : ℤ} (h₁ : 1 ≤ n) (h₂ : n ≤ l.length) : ∃ a ∈ l, f a = n := by
  have hmem : n ∈ (List.range l.length).map fun i : ℕ => (i : ℤ) + 1 :=
    List.mem_map.mpr ⟨(n - 1).toNat, List.mem_range.mpr (by omega), by omega⟩
  rw [← h] at hmem
  exact List.mem_map.mp hmem

/-- The only row whose version has no successor is the last. -/
theorem Numbered.last_of_no_next (h : Numbered f l) (ha : a ∈ l) (hnext : ∀ b ∈ l, f b ≠ f a + 1) :
    l.getLast? = some a := by
  obtain ⟨h₁, h₂⟩ := h.mem_bounds ha
  have hlast : f a = l.length := by
    by_contra hne
    obtain ⟨b, hb, hfb⟩ := h.exists_version (n := f a + 1) (by omega) (by omega)
    exact hnext b hb hfb
  rcases List.eq_nil_or_concat l with rfl | ⟨l', b, rfl⟩
  · cases ha
  · rw [List.concat_eq_append] at h ha hlast ⊢
    rw [List.getLast?_concat]
    rcases List.mem_append.mp ha with ha | ha
    · have := ((numbered_concat.mp h).1.mem_bounds ha).2
      simp at hlast
      omega
    · rw [List.mem_singleton.mp ha]

end

/-! ## The invariant -/

namespace Versioning
variable {v : Versioning K ρ δ α} {rows : List ρ} {row : ρ} {k : K}

theorem rowsOf_concat (rows : List ρ) (row : ρ) (k : K) :
    v.rowsOf (rows ++ [row]) k = v.rowsOf rows k ++ if v.key row = k then [row] else [] := by
  unfold rowsOf
  rw [List.filter_append]
  by_cases h : v.key row = k <;> simp [h]

theorem mem_rowsOf {r : ρ} : r ∈ v.rowsOf rows k ↔ r ∈ rows ∧ v.key r = k := by
  simp [rowsOf]

theorem taken_iff : v.taken rows row = true ↔ ∃ r ∈ rows, v.key r = v.key row ∧ v.version r = v.version row := by
  simp [taken]

theorem waits_iff {sessions : Dict ℕ (Session ρ δ)} {i : ℕ} : v.waits sessions i row = true ↔
    ∃ j base changes r, j ≠ i ∧ sessions.get? j = some (.inserted base changes r) ∧ v.key r = v.key row ∧
      v.version r = v.version row := by
  unfold waits
  simp only [List.any_eq_true, Bool.and_eq_true, decide_eq_true_eq]
  refine ⟨?_, ?_⟩
  · intro h
    obtain ⟨⟨j, session⟩, hmem, hne, hmatch⟩ := h
    cases session with
    | reading base => cases hmatch
    | inserted base changes r =>
      exact ⟨j, base, changes, r, hne, Dict.mem_entries.mp hmem, of_decide_eq_true hmatch⟩
  · intro h
    obtain ⟨j, base, changes, r, hne, hget, hr⟩ := h
    exact ⟨(j, .inserted base changes r), Dict.mem_entries.mpr hget, hne, decide_eq_true hr⟩

/-- Each key is numbered without a gap; a session has read a committed row; the row it inserted follows the last row
of its key, and no other session has inserted one for that key. -/
structure Consistent (v : Versioning K ρ δ α) (s : VersionedTable ρ δ) : Prop where
  numbered : ∀ k, Numbered v.version (v.rowsOf s.rows k)
  reading : ∀ i base, s.sessions.get? i = some (.reading base) → base ∈ s.rows
  inserted : ∀ i base changes row, s.sessions.get? i = some (.inserted base changes row) →
    v.latest s.rows (v.key row) = some base ∧ v.next base changes = some row
  apart : ∀ i j base changes row base' changes' row', s.sessions.get? i = some (.inserted base changes row) →
    s.sessions.get? j = some (.inserted base' changes' row') → v.key row = v.key row' → i = j

theorem consistent_start : v.Consistent (VersionedTable.start : VersionedTable ρ δ) where
  numbered := fun _ => rfl
  reading := fun _ _ h => by cases h
  inserted := fun _ _ _ _ h => by cases h
  apart := fun _ _ _ _ _ _ _ _ h => by cases h

theorem latest_eq (h : Numbered v.version (v.rowsOf rows k)) : v.latest rows k = (v.rowsOf rows k).getLast? :=
  h.maxOn?_eq

theorem latest_mem {base : ρ} (h : v.latest rows k = some base) : base ∈ rows ∧ v.key base = k :=
  mem_rowsOf.mp (List.maxOn?_mem h)

/-- A row can be inserted only after the last one of its key. -/
theorem latest_of_not_taken (h : Numbered v.version (v.rowsOf rows (v.key row))) {base : ρ} {changes : δ}
    (hbase : base ∈ rows) (hnext : v.next base changes = some row) (hnot : v.taken rows row = false) :
    v.latest rows (v.key row) = some base := by
  rw [latest_eq h]
  refine h.last_of_no_next (mem_rowsOf.mpr ⟨hbase, (v.next_key hnext).symm⟩) fun r hr hversion => ?_
  obtain ⟨hr, hkey⟩ := mem_rowsOf.mp hr
  have htaken : v.taken rows row = true := taken_iff.mpr ⟨r, hr, hkey, hversion.trans (v.next_version hnext).symm⟩
  rw [hnot] at htaken
  cases htaken

theorem latest_not_taken (h : Numbered v.version (v.rowsOf rows (v.key row))) {base : ρ} {changes : δ}
    (hlatest : v.latest rows (v.key row) = some base) (hnext : v.next base changes = some row) :
    v.taken rows row = false := by
  refine Bool.eq_false_iff.mpr fun htaken => ?_
  obtain ⟨r, hr, hkey, hversion⟩ := taken_iff.mp htaken
  rw [latest_eq h] at hlatest
  obtain ⟨l, hl⟩ : ∃ l, v.rowsOf rows (v.key row) = l ++ [base] :=
    ⟨_, (List.dropLast_append_getLast? base hlatest).symm⟩
  have hbase := (numbered_concat.mp (hl ▸ h)).2
  have hbound := (h.mem_bounds (mem_rowsOf.mpr ⟨hr, hkey⟩)).2
  rw [hversion, v.next_version hnext, hbase, hl, List.length_append, List.length_singleton] at hbound
  omega

/-- A row after the last one keeps the numbering. -/
theorem numbered_next (h : ∀ k, Numbered v.version (v.rowsOf rows k)) {base : ρ} {changes : δ}
    (hlatest : v.latest rows (v.key row) = some base) (hnext : v.next base changes = some row) (k : K) :
    Numbered v.version (v.rowsOf (rows ++ [row]) k) := by
  rw [rowsOf_concat]
  by_cases hk : v.key row = k
  · subst hk
    rw [if_pos rfl]
    refine numbered_concat.mpr ⟨h _, ?_⟩
    rw [latest_eq (h _)] at hlatest
    obtain ⟨l, hl⟩ : ∃ l, v.rowsOf rows (v.key row) = l ++ [base] :=
      ⟨_, (List.dropLast_append_getLast? base hlatest).symm⟩
    have hlast := (numbered_concat.mp (hl ▸ h (v.key row))).2
    rw [hl, v.next_version hnext, hlast]
    simp
  · rw [if_neg hk, List.append_nil]
    exact h k

theorem numbered_first (h : ∀ k, Numbered v.version (v.rowsOf rows k)) (hversion : v.version row = 1)
    (hnot : v.taken rows row = false) : v.rowsOf rows (v.key row) = [] ∧
      ∀ k, Numbered v.version (v.rowsOf (rows ++ [row]) k) := by
  have hnil : v.rowsOf rows (v.key row) = [] := by
    by_contra hne
    obtain ⟨r, hr, hr1⟩ := (h (v.key row)).exists_version (Int.le_refl 1) (by
      have := List.length_pos_iff.mpr hne
      omega)
    obtain ⟨hr, hkey⟩ := mem_rowsOf.mp hr
    have htaken : v.taken rows row = true := taken_iff.mpr ⟨r, hr, hkey, hr1.trans hversion.symm⟩
    rw [hnot] at htaken
    cases htaken
  refine ⟨hnil, fun k => ?_⟩
  rw [rowsOf_concat]
  by_cases hk : v.key row = k
  · subst hk
    rw [if_pos rfl, hnil]
    exact numbered_concat.mpr ⟨rfl, hversion⟩
  · rw [if_neg hk, List.append_nil]
    exact h k

theorem latest_concat_ne (rows : List ρ) {row : ρ} (h : v.key row ≠ k) :
    v.latest (rows ++ [row]) k = v.latest rows k := by
  rw [latest, latest, rowsOf_concat, if_neg h, List.append_nil]

/-! ## Steps -/

variable {s s' : VersionedTable ρ δ}

/-- Sessions that have inserted nothing new. -/
theorem Consistent.of_fewer (h : v.Consistent s) {sessions : Dict ℕ (Session ρ δ)}
    (hreading : ∀ i base, sessions.get? i = some (.reading base) → base ∈ s.rows)
    (hinserted : ∀ i base changes row, sessions.get? i = some (.inserted base changes row) →
      s.sessions.get? i = some (.inserted base changes row)) :
    v.Consistent { s with sessions := sessions } where
  numbered := h.numbered
  reading := hreading
  inserted := fun i base changes row hi => h.inserted i base changes row (hinserted i base changes row hi)
  apart := fun i j _ _ _ _ _ _ hi hj => h.apart i j _ _ _ _ _ _ (hinserted i _ _ _ hi) (hinserted j _ _ _ hj)

theorem get?_of_remove {d : Dict ℕ (Session ρ δ)} {i j : ℕ} {session : Session ρ δ}
    (h : (d.remove i).get? j = some session) : d.get? j = some session ∧ j ≠ i := by
  rw [Dict.get?_remove] at h
  split_ifs at h with hne
  exact ⟨h, hne⟩

theorem consistent_remove (h : v.Consistent s) (i : ℕ) :
    v.Consistent { s with sessions := s.sessions.remove i } :=
  h.of_fewer (fun j base hj => h.reading j base (get?_of_remove hj).1) fun _ _ _ _ hj => (get?_of_remove hj).1

theorem consistent_reading (h : v.Consistent s) (i : ℕ) {base : ρ} (hbase : base ∈ s.rows) :
    v.Consistent { s with sessions := s.sessions.put i (.reading base) } := by
  refine h.of_fewer (fun j b hj => ?_) fun j b c r hj => ?_
  · rw [Dict.get?_put] at hj
    by_cases hji : j = i
    · rw [if_pos hji] at hj
      cases hj
      exact hbase
    · rw [if_neg hji] at hj
      exact h.reading j b hj
  · rw [Dict.get?_put] at hj
    by_cases hji : j = i
    · rw [if_pos hji] at hj
      cases hj
    · rwa [if_neg hji] at hj

theorem consistent_inserted (h : v.Consistent s) {i : ℕ} {base row : ρ} {changes : δ}
    (hreading : s.sessions.get? i = some (.reading base)) (hnext : v.next base changes = some row)
    (hnot : v.taken s.rows row = false) (hwaits : v.waits s.sessions i row = false) :
    v.Consistent { s with sessions := s.sessions.put i (.inserted base changes row) } := by
  have hlatest : v.latest s.rows (v.key row) = some base :=
    latest_of_not_taken (h.numbered _) (h.reading i base hreading) hnext hnot
  -- another inserted row of this key would follow the same last row, and this one would wait for it
  have hfree : ∀ j base' changes' row', s.sessions.get? j = some (.inserted base' changes' row') → j ≠ i →
      v.key row ≠ v.key row' := by
    intro j base' changes' row' hj hne hkey
    obtain ⟨hlatest', hnext'⟩ := h.inserted j base' changes' row' hj
    rw [← hkey, hlatest] at hlatest'
    obtain rfl := Option.some.inj hlatest'
    have hw : v.waits s.sessions i row = true := waits_iff.mpr ⟨j, _, _, row', hne, hj, hkey.symm,
      (v.next_version hnext').trans (v.next_version hnext).symm⟩
    rw [hwaits] at hw
    cases hw
  refine ⟨h.numbered, fun j b hj => ?_, fun j b c r hj => ?_, fun j j' b c r b' c' r' hj hj' hkey => ?_⟩
  · rw [Dict.get?_put] at hj
    by_cases hji : j = i
    · rw [if_pos hji] at hj
      cases hj
    · rw [if_neg hji] at hj
      exact h.reading j b hj
  · rw [Dict.get?_put] at hj
    by_cases hji : j = i
    · rw [if_pos hji] at hj
      cases hj
      exact ⟨hlatest, hnext⟩
    · rw [if_neg hji] at hj
      exact h.inserted j b c r hj
  · rw [Dict.get?_put] at hj hj'
    by_cases hji : j = i <;> by_cases hji' : j' = i
    · rw [hji, hji']
    · rw [if_pos hji] at hj
      rw [if_neg hji'] at hj'
      cases hj
      exact absurd hkey (hfree j' _ _ _ hj' hji')
    · rw [if_neg hji] at hj
      rw [if_pos hji'] at hj'
      cases hj'
      exact absurd hkey.symm (hfree j _ _ _ hj hji)
    · rw [if_neg hji] at hj
      rw [if_neg hji'] at hj'
      exact h.apart j j' _ _ _ _ _ _ hj hj' hkey

theorem consistent_commit (h : v.Consistent s) {i : ℕ} {base row : ρ} {changes : δ}
    (hi : s.sessions.get? i = some (.inserted base changes row)) :
    v.Consistent { rows := s.rows ++ [row], sessions := s.sessions.remove i } := by
  obtain ⟨hlatest, hnext⟩ := h.inserted i base changes row hi
  refine ⟨numbered_next h.numbered hlatest hnext, fun j b hj => ?_, fun j b c r hj => ?_,
    (consistent_remove h i).apart⟩
  · exact List.mem_append_left _ (h.reading j b (get?_of_remove hj).1)
  · obtain ⟨hj, hji⟩ := get?_of_remove hj
    obtain ⟨hl, hn⟩ := h.inserted j b c r hj
    refine ⟨?_, hn⟩
    rw [latest_concat_ne]
    · exact hl
    · exact fun hkey => hji (h.apart i j _ _ _ _ _ _ hi hj hkey).symm

theorem consistent_first (h : v.Consistent s) {row : ρ} (hversion : v.version row = 1)
    (hnot : v.taken s.rows row = false) : v.Consistent { s with rows := s.rows ++ [row] } := by
  obtain ⟨hnil, hnumbered⟩ := numbered_first h.numbered hversion hnot
  refine ⟨hnumbered, fun j b hj => List.mem_append_left _ (h.reading j b hj), fun j b c r hj => ?_, h.apart⟩
  obtain ⟨hl, hn⟩ := h.inserted j b c r hj
  refine ⟨?_, hn⟩
  rw [latest_concat_ne]
  · exact hl
  · intro hkey
    rw [latest, ← hkey, hnil] at hl
    cases hl

/-- What one statement can do to the rows: nothing, or one completed call adds its row at the end. -/
theorem step_cases (h : v.Consistent s) {e : TableEvent K δ α} {o : List (Call K ρ δ α)}
    (hs : v.tableStep (κ := κ) s e = .ok (s', o)) : v.Consistent s' ∧
      (o = [] ∧ s'.rows = s.rows ∨
      (∃ a row, o = [.first a row] ∧ v.first a = some row ∧ v.taken s.rows row = false ∧ s'.rows = s.rows ++ [row]) ∨
      ∃ base changes row, o = [.next (v.key row) changes row] ∧ v.latest s.rows (v.key row) = some base ∧
        v.next base changes = some row ∧ s'.rows = s.rows ++ [row]) := by
  cases e with
  | first a =>
    simp only [tableStep] at hs
    split at hs
    · obtain ⟨rfl, rfl⟩ := Prod.mk.inj (Except.ok.inj hs)
      exact ⟨h, .inl ⟨rfl, rfl⟩⟩
    · rename_i row hrow
      by_cases htaken : v.taken s.rows row = true
      · rw [if_pos htaken] at hs
        obtain ⟨rfl, rfl⟩ := Prod.mk.inj (Except.ok.inj hs)
        exact ⟨h, .inl ⟨rfl, rfl⟩⟩
      · rw [if_neg htaken] at hs
        obtain ⟨rfl, rfl⟩ := Prod.mk.inj (Except.ok.inj hs)
        have hnot := Bool.eq_false_iff.mpr htaken
        exact ⟨consistent_first h (v.first_version hrow) hnot, .inr (.inl ⟨a, row, rfl, hrow, hnot, rfl⟩)⟩
  | select i k =>
    simp only [tableStep] at hs
    split at hs
    · rename_i hlatest
      obtain ⟨rfl, rfl⟩ := Prod.mk.inj (Except.ok.inj hs)
      exact ⟨consistent_reading h i (latest_mem hlatest).1, .inl ⟨rfl, rfl⟩⟩
    · obtain ⟨rfl, rfl⟩ := Prod.mk.inj (Except.ok.inj hs)
      exact ⟨h, .inl ⟨rfl, rfl⟩⟩
  | insert i changes =>
    simp only [tableStep] at hs
    split at hs
    · rename_i base hreading
      split at hs
      · obtain ⟨rfl, rfl⟩ := Prod.mk.inj (Except.ok.inj hs)
        exact ⟨consistent_remove h i, .inl ⟨rfl, rfl⟩⟩
      · rename_i row hnext
        split_ifs at hs with htaken hwaits <;> obtain ⟨rfl, rfl⟩ := Prod.mk.inj (Except.ok.inj hs)
        · exact ⟨consistent_remove h i, .inl ⟨rfl, rfl⟩⟩
        · exact ⟨h, .inl ⟨rfl, rfl⟩⟩
        · exact ⟨consistent_inserted h hreading hnext (Bool.eq_false_iff.mpr htaken)
            (Bool.eq_false_iff.mpr hwaits), .inl ⟨rfl, rfl⟩⟩
    · obtain ⟨rfl, rfl⟩ := Prod.mk.inj (Except.ok.inj hs)
      exact ⟨h, .inl ⟨rfl, rfl⟩⟩
  | commit i =>
    simp only [tableStep] at hs
    split at hs
    · rename_i base changes row hi
      obtain ⟨rfl, rfl⟩ := Prod.mk.inj (Except.ok.inj hs)
      obtain ⟨hlatest, hnext⟩ := h.inserted i base changes row hi
      exact ⟨consistent_commit h hi, .inr (.inr ⟨base, changes, row, rfl, hlatest, hnext, rfl⟩)⟩
    · obtain ⟨rfl, rfl⟩ := Prod.mk.inj (Except.ok.inj hs)
      exact ⟨consistent_remove h i, .inl ⟨rfl, rfl⟩⟩
  | rollback i =>
    obtain ⟨rfl, rfl⟩ := Prod.mk.inj (Except.ok.inj hs)
    exact ⟨consistent_remove h i, .inl ⟨rfl, rfl⟩⟩

/-- Where an insertion that its columns allow ends the transaction, it conflicts with a committed row. -/
theorem insert_refused {i : ℕ} {base : ρ} {changes : δ} (hreading : s.sessions.get? i = some (.reading base))
    (hnext : v.next base changes = some row)
    (hs : v.tableStep (κ := κ) s (.insert i changes) = .ok ({ s with sessions := s.sessions.remove i }, [])) :
    v.taken s.rows row = true := by
  by_contra hnot
  simp only [tableStep, hreading, hnext, if_neg hnot] at hs
  by_cases hwaits : v.waits s.sessions i row = true
  · rw [if_pos hwaits] at hs
    have hget := congrArg (fun t : VersionedTable ρ δ => t.sessions.get? i) (Prod.mk.inj (Except.ok.inj hs)).1
    simp [hreading] at hget
  · rw [if_neg hwaits] at hs
    have hget := congrArg (fun t : VersionedTable ρ δ => t.sessions.get? i) (Prod.mk.inj (Except.ok.inj hs)).1
    simp at hget

/-! ## Runs -/

theorem run_consistent {es : List (TableEvent K δ α)} {os : List (Call K ρ δ α)}
    (h : run (v.tableStep (κ := κ)) VersionedTable.start es = .ok (s, os)) : v.Consistent s :=
  run_preserves (fun _ _ _ _ hi hs => (step_cases hi hs).1) consistent_start h

/-- The call alone, where nobody else has a transaction open. -/
theorem serial_first {a : α} (hrow : v.first a = some row) (hnot : v.taken rows row = false) :
    run (v.tableStep (κ := κ)) ⟨rows, Dict.empty⟩ (Call.first a row).events =
      .ok (⟨rows ++ [row], Dict.empty⟩, [.first a row]) := by
  refine run_singleton.mpr ?_
  simp only [tableStep, hrow, hnot]
  rfl

theorem serial_next (hnumbered : Numbered v.version (v.rowsOf rows (v.key row))) {base : ρ} {changes : δ}
    (hlatest : v.latest rows (v.key row) = some base) (hnext : v.next base changes = some row) :
    run (v.tableStep (κ := κ)) ⟨rows, Dict.empty⟩ (Call.next (v.key row) changes row).events =
      .ok (⟨rows ++ [row], Dict.empty⟩, [.next (v.key row) changes row]) := by
  have hnot := latest_not_taken hnumbered hlatest hnext
  refine run_cons.mpr ⟨⟨rows, Dict.empty.put 0 (.reading base)⟩, [], _, ?_, ?_, rfl⟩
  · simp only [tableStep, hlatest]
    rfl
  refine run_cons.mpr ⟨⟨rows, Dict.empty.put 0 (.inserted base changes row)⟩, [], _, ?_, ?_, rfl⟩
  · have hwaits : v.waits (Dict.empty.put 0 (.reading base)) 0 row = false := rfl
    simp only [tableStep, Dict.get?_put_self, hnext, hnot, hwaits]
    rfl
  · refine run_singleton.mpr ?_
    simp only [tableStep, Dict.get?_put_self]
    rfl

/-- Whatever the sessions do, the completed calls in the order of their commits, one after another, leave the same
rows and the same results. -/
theorem serializable {es : List (TableEvent K δ α)} {os : List (Call K ρ δ α)}
    (h : run (v.tableStep (κ := κ)) VersionedTable.start es = .ok (s, os)) :
    run (v.tableStep (κ := κ)) VersionedTable.start (os.flatMap Call.events) = .ok (⟨s.rows, Dict.empty⟩, os) := by
  refine And.right <| run_prefix (I := fun _ t os => v.Consistent t ∧ run (v.tableStep (κ := κ)) VersionedTable.start
    (os.flatMap Call.events) = .ok (⟨t.rows, Dict.empty⟩, os)) ⟨consistent_start, rfl⟩ ?_ h
  intro p e q t ot t' o _ _ hi hs
  obtain ⟨hconsistent, hserial⟩ := hi
  obtain ⟨hconsistent', hcases⟩ := step_cases hconsistent hs
  refine ⟨hconsistent', ?_⟩
  rw [List.flatMap_append]
  refine run_append.mpr ⟨_, ot, o, hserial, ?_, rfl⟩
  rcases hcases with ⟨rfl, hrows⟩ | ⟨a, row, rfl, hrow, hnot, hrows⟩ |
    ⟨base, changes, row, rfl, hlatest, hnext, hrows⟩
  · rw [hrows]
    rfl
  · rw [hrows, List.flatMap_singleton]
    exact serial_first hrow hnot
  · rw [hrows, List.flatMap_singleton]
    exact serial_next (hconsistent.numbered _) hlatest hnext

/-- A run's calls are what it added to the rows. -/
theorem run_rows (hs : v.Consistent s) {es : List (TableEvent K δ α)} {os : List (Call K ρ δ α)}
    (h : run (v.tableStep (κ := κ)) s es = .ok (s', os)) : s'.rows = s.rows ++ os.map Call.row := by
  refine And.right <| run_prefix (I := fun _ t os => v.Consistent t ∧ t.rows = s.rows ++ os.map Call.row)
    ⟨hs, (List.append_nil _).symm⟩ ?_ h
  intro p e q t ot t' o _ _ hi hstep
  obtain ⟨hconsistent, hcases⟩ := step_cases hi.1 hstep
  refine ⟨hconsistent, ?_⟩
  rw [List.map_append, ← List.append_assoc, ← hi.2]
  rcases hcases with ⟨rfl, hrows⟩ | ⟨a, row, rfl, -, -, hrows⟩ | ⟨base, changes, row, rfl, -, -, hrows⟩
  · rw [hrows, List.map_nil, List.append_nil]
  · exact hrows
  · exact hrows

theorem run_forall {P : ρ → Prop} (hfirst : ∀ a r, v.first a = some r → P r)
    (hnext : ∀ b d r, v.next b d = some r → P r) {es : List (TableEvent K δ α)} {os : List (Call K ρ δ α)}
    (h : run (v.tableStep (κ := κ)) VersionedTable.start es = .ok (s, os)) : ∀ r ∈ s.rows, P r := by
  refine (run_preserves (I := fun t : VersionedTable ρ δ => v.Consistent t ∧ ∀ r ∈ t.rows, P r) ?_
    ⟨consistent_start, fun _ hr => nomatch hr⟩ h).2
  intro t e t' o hi hs
  obtain ⟨hconsistent, hcases⟩ := step_cases hi.1 hs
  refine ⟨hconsistent, ?_⟩
  rcases hcases with ⟨-, hrows⟩ | ⟨a, row, -, hrow, -, hrows⟩ | ⟨base, changes, row, -, -, hrow, hrows⟩
  · rw [hrows]
    exact hi.2
  · rw [hrows]
    exact List.forall_mem_append.mpr ⟨hi.2, List.forall_mem_singleton.mpr (hfirst a row hrow)⟩
  · rw [hrows]
    exact List.forall_mem_append.mpr ⟨hi.2, List.forall_mem_singleton.mpr (hnext base changes row hrow)⟩

/-- Each completed call was made from a row of its key, the one before its own. -/
theorem run_calls {es : List (TableEvent K δ α)} {os : List (Call K ρ δ α)}
    (h : run (v.tableStep (κ := κ)) VersionedTable.start es = .ok (s, os)) :
    ∀ k changes row, Call.next k changes row ∈ os → v.key row = k ∧
      ∃ base ∈ s.rows, v.key base = k ∧ v.next base changes = some row := by
  refine And.right <| run_prefix (I := fun _ t os => v.Consistent t ∧ ∀ k changes row, Call.next k changes row ∈ os →
    v.key row = k ∧ ∃ base ∈ t.rows, v.key base = k ∧ v.next base changes = some row)
    ⟨consistent_start, fun _ _ _ hm => nomatch hm⟩ ?_ h
  intro p e q t ot t' o _ _ hi hs
  obtain ⟨hconsistent, hcalls⟩ := hi
  obtain ⟨hconsistent', hcases⟩ := step_cases hconsistent hs
  have hgrows : ∀ b ∈ t.rows, b ∈ t'.rows := fun b hb => by
    rw [run_rows hconsistent (run_singleton.mpr hs)]
    exact List.mem_append_left _ hb
  refine ⟨hconsistent', fun k changes row hm => ?_⟩
  rcases List.mem_append.mp hm with hm | hm
  · obtain ⟨hkey, base, hbase, hrest⟩ := hcalls k changes row hm
    exact ⟨hkey, base, hgrows base hbase, hrest⟩
  · rcases hcases with ⟨rfl, -⟩ | ⟨a, r, rfl, -⟩ | ⟨base, c, r, rfl, hlatest, hnext, -⟩
    · cases hm
    · cases List.mem_singleton.mp hm
    · cases List.mem_singleton.mp hm
      obtain ⟨hbase, hkey⟩ := latest_mem hlatest
      exact ⟨rfl, base, hgrows base hbase, hkey, hnext⟩

/-- A call whose insertion conflicts was overtaken: since it read the last row of its key, another call added the
next one. -/
theorem overtaken {q : List (TableEvent K δ α)} {os : List (Call K ρ δ α)} (hs : v.Consistent s) {base : ρ}
    {changes : δ} (hlatest : v.latest s.rows k = some base) (h : run (v.tableStep (κ := κ)) s q = .ok (s', os))
    (hnext : v.next base changes = some row) (htaken : v.taken s'.rows row = true) :
    ∃ call ∈ os, v.key call.row = k ∧ v.version call.row = v.version row := by
  obtain ⟨r, hr, hkey, hversion⟩ := taken_iff.mp htaken
  obtain ⟨hbase, rfl⟩ := latest_mem hlatest
  rw [run_rows hs h] at hr
  rcases List.mem_append.mp hr with hr | hr
  · have hlatest' : v.latest s.rows (v.key row) = some base := by rw [v.next_key hnext]; exact hlatest
    have hnot := latest_not_taken (hs.numbered _) hlatest' hnext
    rw [taken_iff.mpr ⟨r, hr, hkey, hversion⟩] at hnot
    cases hnot
  · obtain ⟨call, hcall, rfl⟩ := List.mem_map.mp hr
    exact ⟨call, hcall, hkey.trans (v.next_key hnext), hversion⟩

end Versioning

end PriceEngine
