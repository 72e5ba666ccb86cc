import Mathlib.Data.List.Forall2
import Mathlib.Order.Basic

/-!
# Runs of a machine that may fail

A step takes a state and an event to a new state and a list of outputs, or to
an error. `run` folds a step over a list of events and collects the outputs.
An invariant of one step is an invariant of every run (`run_invariant`); where
each step succeeds under an invariant, so does every run (`run_ok`). `Along`
says that a condition on state and event is met at every step of a run;
`observed` is a history kept beside a run, for statements about its past.
-/

namespace PriceEngine

universe u

variable {σ ε ω κ α : Type*} {β γ : Type u}

/-! ## Results -/

@[simp] theorem ok_bind (a : β) (f : β → Except κ γ) : (Except.ok a >>= f) = f a := rfl

theorem bind_eq_ok {x : Except κ β} {f : β → Except κ γ} {b : γ} :
    (x >>= f) = .ok b ↔ ∃ a, x = .ok a ∧ f a = .ok b := by
  cases x with
  | error e => exact ⟨fun h => (nomatch h), fun ⟨_, h, _⟩ => (nomatch h)⟩
  | ok a => exact ⟨fun h => ⟨a, rfl, h⟩, fun ⟨_, h, hf⟩ => by cases h; exact hf⟩

theorem toOption_eq_some {x : Except κ β} {b : β} : x.toOption = some b ↔ x = .ok b := by
  cases x with
  | error e => exact ⟨fun h => (nomatch h), fun h => (nomatch h)⟩
  | ok a => exact ⟨fun h => congrArg _ (Option.some.inj h), fun h => congrArg _ (Except.ok.inj h)⟩

/-- What a closed computation was found to end with, read off it. -/
theorem ok_of_map {x : Except κ β} {f : β → γ} {c : γ} (h : x.toOption.map f = some c) :
    ∃ b, x = .ok b ∧ f b = c := by
  obtain ⟨b, hb, hf⟩ := Option.map_eq_some_iff.mp h
  exact ⟨b, toOption_eq_some.mp hb, hf⟩

theorem ok_of_bind {x : Except κ β} {f : β → Option γ} {c : γ} (h : x.toOption.bind f = some c) :
    ∃ b, x = .ok b ∧ f b = some c := by
  obtain ⟨b, hb, hf⟩ := Option.bind_eq_some_iff.mp h
  exact ⟨b, toOption_eq_some.mp hb, hf⟩

theorem mapM_eq_ok {f : α → Except κ β} : ∀ {xs : List α} {ys : List β},
    xs.mapM f = .ok ys ↔ List.Forall₂ (fun x y => f x = .ok y) xs ys
  | [], ys => by
    rw [List.mapM_nil, List.forall₂_nil_left_iff]
    exact ⟨fun h => (Except.ok.inj h).symm, fun h => by rw [h]; rfl⟩
  | x :: xs, ys => by
    rw [List.mapM_cons, bind_eq_ok, List.forall₂_cons_left_iff]
    refine ⟨fun ⟨y, hy, h⟩ => ?_, fun ⟨y, ys', hy, h, e⟩ => ⟨y, hy, ?_⟩⟩
    · obtain ⟨ys', hys, e⟩ := bind_eq_ok.mp h
      exact ⟨y, ys', hy, mapM_eq_ok.mp hys, (Except.ok.inj e).symm⟩
    · exact bind_eq_ok.mpr ⟨ys', mapM_eq_ok.mpr h, by rw [e]; rfl⟩

theorem mapM_isOk {f : α → Except κ β} {xs : List α} :
    (∃ ys, xs.mapM f = .ok ys) ↔ ∀ x ∈ xs, ∃ y, f x = .ok y := by
  induction xs with
  | nil => exact ⟨fun _ x hx => (nomatch hx), fun _ => ⟨[], mapM_eq_ok.mpr .nil⟩⟩
  | cons x xs ih =>
    rw [List.forall_mem_cons, ← ih]
    refine ⟨fun ⟨ys, h⟩ => ?_, fun ⟨⟨y, hy⟩, ys, h⟩ => ⟨y :: ys, ?_⟩⟩
    · obtain ⟨y, ys', hy, h', -⟩ := List.forall₂_cons_left_iff.mp (mapM_eq_ok.mp h)
      exact ⟨⟨y, hy⟩, ys', mapM_eq_ok.mpr h'⟩
    · exact mapM_eq_ok.mpr (.cons hy (mapM_eq_ok.mp h))

theorem mem_mapM {f : α → Except κ β} {xs : List α} {ys : List β} (h : xs.mapM f = .ok ys) {y : β} :
    y ∈ ys ↔ ∃ x ∈ xs, f x = .ok y := by
  have hall := mapM_eq_ok.mp h
  clear h
  induction hall with
  | nil => simp
  | cons hy _ ih =>
    simp only [List.mem_cons, ih, exists_eq_or_imp, hy]
    exact or_congr_left ⟨fun h => by rw [h], fun h => (Except.ok.inj h).symm⟩

theorem exists_of_forall₂ {δ : Type*} {R : α → δ → Prop} {xs : List α} {ys : List δ}
    (h : List.Forall₂ R xs ys) : ∀ y ∈ ys, ∃ x ∈ xs, R x y := by
  induction h with
  | nil => exact fun _ hy => nomatch hy
  | cons hxy _ ih =>
    refine List.forall_mem_cons.mpr ⟨⟨_, List.mem_cons_self .., hxy⟩, fun y hy => ?_⟩
    obtain ⟨x, hx, hr⟩ := ih y hy
    exact ⟨x, List.mem_cons_of_mem _ hx, hr⟩

theorem forall_mem_iff_of_forall₂ {δ : Type*} {R : α → δ → Prop} {P : α → Prop} {Q : δ → Prop}
    {xs : List α} {ys : List δ} (h : List.Forall₂ R xs ys) (hPQ : ∀ x y, R x y → (P x ↔ Q y)) :
    (∀ x ∈ xs, P x) ↔ ∀ y ∈ ys, Q y := by
  induction h with
  | nil => simp
  | cons hxy _ ih => rw [List.forall_mem_cons, List.forall_mem_cons, hPQ _ _ hxy, ih]

/-! ## Runs -/

def run (step : σ → ε → Except κ (σ × List ω)) : σ → List ε → Except κ (σ × List ω)
  | s, [] => .ok (s, [])
  | s, e :: es => do
    let (s', o) ← step s e
    let (s'', os) ← run step s' es
    .ok (s'', o ++ os)

/-- The condition `C` holds at every step, in the state the step starts from. -/
def Along (step : σ → ε → Except κ (σ × List ω)) (C : σ → ε → Prop) : σ → List ε → Prop
  | _, [] => True
  | s, e :: es => C s e ∧ ∀ s' o, step s e = .ok (s', o) → Along step C s' es

section
variable {step : σ → ε → Except κ (σ × List ω)}

theorem run_nil {s s' : σ} {os : List ω} : run step s [] = .ok (s', os) ↔ s' = s ∧ os = [] := by
  simp only [run, Except.ok.injEq, Prod.mk.injEq]
  exact ⟨fun h => ⟨h.1.symm, h.2.symm⟩, fun h => ⟨h.1.symm, h.2.symm⟩⟩

theorem run_cons {s t : σ} {e : ε} {es : List ε} {os : List ω} :
    run step s (e :: es) = .ok (t, os) ↔
      ∃ s' o os', step s e = .ok (s', o) ∧ run step s' es = .ok (t, os') ∧ os = o ++ os' := by
  simp only [run]
  rw [bind_eq_ok]
  refine ⟨?_, ?_⟩
  · intro ⟨⟨s', o⟩, h, h'⟩
    obtain ⟨⟨t', os'⟩, hr, e'⟩ := bind_eq_ok.mp h'
    obtain ⟨rfl, rfl⟩ := Prod.mk.inj (Except.ok.inj e')
    exact ⟨s', o, os', h, hr, rfl⟩
  · intro hex
    obtain ⟨s', o, os', h, hr, rfl⟩ := hex
    exact ⟨(s', o), h, bind_eq_ok.mpr ⟨(t, os'), hr, rfl⟩⟩

theorem run_append {es fs : List ε} {s t : σ} {os : List ω} :
    run step s (es ++ fs) = .ok (t, os) ↔
      ∃ s' o o', run step s es = .ok (s', o) ∧ run step s' fs = .ok (t, o') ∧ os = o ++ o' := by
  induction es generalizing s os with
  | nil => exact ⟨fun h => ⟨s, [], os, rfl, h, rfl⟩, fun ⟨s', o, o', h, hr, e⟩ => by
      obtain ⟨rfl, rfl⟩ := run_nil.mp h; rw [e]; exact hr⟩
  | cons e es ih =>
    rw [List.cons_append, run_cons]
    refine ⟨?_, ?_⟩
    · intro hex
      obtain ⟨s₁, o₁, os', h, hr, rfl⟩ := hex
      obtain ⟨s', o, o', hes, hfs, rfl⟩ := ih.mp hr
      exact ⟨s', o₁ ++ o, o', run_cons.mpr ⟨s₁, o₁, o, h, hes, rfl⟩, hfs, by rw [List.append_assoc]⟩
    · intro hex
      obtain ⟨s', o, o', h, hfs, rfl⟩ := hex
      obtain ⟨s₁, o₁, os', hs, hes, rfl⟩ := run_cons.mp h
      exact ⟨s₁, o₁, os' ++ o', hs, ih.mpr ⟨s', os', o', hes, hfs, rfl⟩, by rw [List.append_assoc]⟩

theorem run_singleton {s t : σ} {e : ε} {os : List ω} :
    run step s [e] = .ok (t, os) ↔ step s e = .ok (t, os) := by
  rw [run_cons]
  refine ⟨?_, ?_⟩
  · intro hex
    obtain ⟨s', o, os', h, hr, rfl⟩ := hex
    obtain ⟨rfl, rfl⟩ := run_nil.mp hr
    rw [List.append_nil]; exact h
  · intro h
    exact ⟨t, os, [], h, rfl, by rw [List.append_nil]⟩

theorem along_cons_iff {C : σ → ε → Prop} {s s' : σ} {e : ε} {es : List ε} {o : List ω}
    (h : step s e = .ok (s', o)) : Along step C s (e :: es) ↔ C s e ∧ Along step C s' es := by
  refine and_congr_right fun _ => ⟨fun hall => hall s' o h, fun hall s₂ o₂ h₂ => ?_⟩
  obtain ⟨rfl, -⟩ := Prod.mk.inj (Except.ok.inj (h.symm.trans h₂))
  exact hall

/-- On a closed run a decidable condition can be tested. -/
instance decidableAlong {C : σ → ε → Prop} [∀ s e, Decidable (C s e)] :
    ∀ s es, Decidable (Along step C s es)
  | _, [] => isTrue trivial
  | s, e :: es =>
    match hs : step s e with
    | .error _ => decidable_of_iff (C s e) ⟨fun h => ⟨h, fun _ _ hok => by rw [hs] at hok; cases hok⟩, And.left⟩
    | .ok (s', _) =>
      have := decidableAlong (C := C) s' es
      decidable_of_iff (C s e ∧ Along step C s' es) (along_cons_iff hs).symm

theorem along_imp {C D : σ → ε → Prop} {es : List ε} (h : ∀ s, ∀ e ∈ es, C s e → D s e) :
    ∀ {s}, Along step C s es → Along step D s es := by
  induction es with
  | nil => exact fun _ => trivial
  | cons e es ih =>
    exact fun {s} hc => ⟨h s e (List.mem_cons_self ..) hc.1, fun s' o hs =>
      ih (fun t f hf => h t f (List.mem_cons_of_mem _ hf)) (hc.2 s' o hs)⟩

theorem along_of_forall {C : σ → ε → Prop} {es : List ε} (h : ∀ s, ∀ e ∈ es, C s e) :
    ∀ s, Along step C s es := by
  induction es with
  | nil => exact fun _ => trivial
  | cons e es ih =>
    exact fun s => ⟨h s e (List.mem_cons_self ..), fun s' _ _ =>
      ih (fun t f hf => h t f (List.mem_cons_of_mem _ hf)) s'⟩

/-- A condition on what has come before a step holds along a run if it holds at every place in it. -/
theorem along_of_splits {C : σ → ε → Prop} {es : List ε} : ∀ {s},
    (∀ p e q t os, es = p ++ e :: q → run step s p = .ok (t, os) → C t e) → Along step C s es := by
  induction es with
  | nil => exact fun _ => trivial
  | cons e es ih =>
    refine fun {s} h => ⟨h [] e es s [] rfl rfl, fun s' o hs => ih fun p e' q t os hsplit hp => ?_⟩
    exact h (e :: p) e' q t (o ++ os) (by rw [hsplit, List.cons_append]) (run_cons.mpr ⟨s', o, os, hs, hp, rfl⟩)

theorem along_split {C : σ → ε → Prop} {es : List ε} : ∀ {s}, Along step C s es → ∀ p e q t os, es = p ++ e :: q →
    run step s p = .ok (t, os) → C t e := by
  induction es with
  | nil => exact fun _ p e q _ _ hsplit => absurd hsplit (by simp)
  | cons f es ih =>
    intro s hall p e q t os hsplit hp
    cases p with
    | nil =>
      obtain ⟨rfl, -⟩ := List.cons.inj hsplit
      rw [(run_nil.mp hp).1]
      exact hall.1
    | cons g p =>
      obtain ⟨rfl, hrest⟩ := List.cons.inj hsplit
      obtain ⟨s', o, os', hs, hp', -⟩ := run_cons.mp hp
      exact ih (hall.2 s' o hs) p e q t os' hrest hp'

/-! ## Invariants -/

variable {I : σ → Prop} {C : σ → ε → Prop} {Q : ω → Prop}

theorem run_invariant (hstep : ∀ s e s' o, I s → C s e → step s e = .ok (s', o) → I s') :
    ∀ {es s s' os}, I s → Along step C s es → run step s es = .ok (s', os) → I s' := by
  intro es
  induction es with
  | nil =>
    intro s s' os hi _ hr
    rw [(run_nil.mp hr).1]; exact hi
  | cons e es ih =>
    intro s s' os hi hc hr
    obtain ⟨s₁, o, os', hs, hr', -⟩ := run_cons.mp hr
    exact ih (hstep s e s₁ o hi hc.1 hs) (hc.2 s₁ o hs) hr'

theorem run_preserves (hstep : ∀ s e s' o, I s → step s e = .ok (s', o) → I s') {es : List ε} {s s' : σ}
    {os : List ω} (hi : I s) (h : run step s es = .ok (s', os)) : I s' :=
  run_invariant (C := fun _ _ => True) (fun s e s' o hi _ hs => hstep s e s' o hi hs) hi
    (along_of_forall (fun _ _ _ => trivial) s) h

theorem run_outputs (hstep : ∀ s e s' o, I s → C s e → step s e = .ok (s', o) → I s')
    (hout : ∀ s e s' o, I s → C s e → step s e = .ok (s', o) → ∀ d ∈ o, Q d) :
    ∀ {es s s' os}, I s → Along step C s es → run step s es = .ok (s', os) → ∀ d ∈ os, Q d := by
  intro es
  induction es with
  | nil =>
    intro s s' os _ _ hr d hd
    rw [(run_nil.mp hr).2] at hd; cases hd
  | cons e es ih =>
    intro s s' os hi hc hr d hd
    obtain ⟨s₁, o, os', hs, hr', rfl⟩ := run_cons.mp hr
    rcases List.mem_append.mp hd with hd | hd
    · exact hout s e s₁ o hi hc.1 hs d hd
    · exact ih (hstep s e s₁ o hi hc.1 hs) (hc.2 s₁ o hs) hr' d hd

/-- Where each step's outputs are right exactly under its condition, so are those of a whole run. -/
theorem run_outputs_iff (hstep : ∀ s e s' o, step s e = .ok (s', o) → ((∀ d ∈ o, Q d) ↔ C s e)) :
    ∀ {es s s' os}, run step s es = .ok (s', os) → ((∀ d ∈ os, Q d) ↔ Along step C s es) := by
  intro es
  induction es with
  | nil =>
    intro s s' os hr
    rw [(run_nil.mp hr).2]
    exact iff_of_true (fun d hd => nomatch hd) trivial
  | cons e es ih =>
    intro s s' os hr
    obtain ⟨s₁, o, os', hs, hr', rfl⟩ := run_cons.mp hr
    rw [List.forall_mem_append, hstep s e s₁ o hs, ih hr', along_cons_iff hs]

theorem run_ok (hstep : ∀ s e s' o, I s → C s e → step s e = .ok (s', o) → I s')
    (hok : ∀ s e, I s → C s e → ∃ r, step s e = .ok r) :
    ∀ {es s}, I s → Along step C s es → ∃ r, run step s es = .ok r := by
  intro es
  induction es with
  | nil => exact fun {s} _ _ => ⟨(s, []), rfl⟩
  | cons e es ih =>
    intro s hi hc
    obtain ⟨⟨s₁, o⟩, hs⟩ := hok s e hi hc.1
    obtain ⟨⟨t, os⟩, hr⟩ := ih (hstep s e s₁ o hi hc.1 hs) (hc.2 s₁ o hs)
    exact ⟨(t, o ++ os), run_cons.mpr ⟨s₁, o, os, hs, hr, rfl⟩⟩

/-- A run and the same run without some of its events stay related where each kept step is matched and
each dropped one goes unnoticed; `Q` relates their outputs. -/
theorem run_filter {R : σ → σ → Prop} {keep : ε → Bool} {Q : List ω → List ω → Prop} (hnil : Q [] [])
    (happend : ∀ o p os ps, Q o p → Q os ps → Q (o ++ os) (p ++ ps))
    (hkeep : ∀ s t e s' o, R s t → C s e → keep e = true → step s e = .ok (s', o) →
      ∃ t' p, step t e = .ok (t', p) ∧ R s' t' ∧ Q o p)
    (hdrop : ∀ s t e s' o, R s t → C s e → keep e = false → step s e = .ok (s', o) → R s' t ∧ Q o []) :
    ∀ {es s t s' os}, R s t → Along step C s es → run step s es = .ok (s', os) →
      ∃ t' ps, run step t (es.filter keep) = .ok (t', ps) ∧ R s' t' ∧ Q os ps := by
  intro es
  induction es with
  | nil =>
    intro s t s' os hr _ h
    obtain ⟨rfl, rfl⟩ := run_nil.mp h
    exact ⟨t, [], rfl, hr, hnil⟩
  | cons e es ih =>
    intro s t s' os hr hc h
    obtain ⟨s₁, o, os', hs, hrun, rfl⟩ := run_cons.mp h
    have hc' := hc.2 s₁ o hs
    cases he : keep e with
    | true =>
      obtain ⟨t₁, p, ht, hr₁, hq⟩ := hkeep s t e s₁ o hr hc.1 he hs
      obtain ⟨t', ps, hrun', hr', hqs⟩ := ih hr₁ hc' hrun
      rw [List.filter_cons_of_pos he]
      exact ⟨t', p ++ ps, run_cons.mpr ⟨t₁, p, ps, ht, hrun', rfl⟩, hr', happend _ _ _ _ hq hqs⟩
    | false =>
      obtain ⟨hr₁, hq⟩ := hdrop s t e s₁ o hr hc.1 he hs
      obtain ⟨t', ps, hrun', hr', hqs⟩ := ih hr₁ hc' hrun
      rw [List.filter_cons_of_neg (by simp [he])]
      exact ⟨t', ps, hrun', hr', happend _ _ _ _ hq hqs⟩

/-- Where both runs succeed, with and without the dropped events, the relation alone is to be kept. -/
theorem run_filter_of_ok {R : σ → σ → Prop} {keep : ε → Bool} {D : ε → Prop}
    (hkeep : ∀ s t e s' o t' p, R s t → D e → keep e = true → step s e = .ok (s', o) →
      step t e = .ok (t', p) → R s' t')
    (hdrop : ∀ s t e s' o, R s t → D e → keep e = false → step s e = .ok (s', o) → R s' t) :
    ∀ {es s t s' os t' ps}, R s t → (∀ e ∈ es, D e) → run step s es = .ok (s', os) →
      run step t (es.filter keep) = .ok (t', ps) → R s' t' := by
  intro es
  induction es with
  | nil =>
    intro s t s' os t' ps hr _ h h'
    rw [(run_nil.mp h).1, (run_nil.mp h').1]
    exact hr
  | cons e es ih =>
    intro s t s' os t' ps hr hd h h'
    obtain ⟨hde, hd⟩ := List.forall_mem_cons.mp hd
    obtain ⟨s₁, o, os', hs, hrun, -⟩ := run_cons.mp h
    cases he : keep e with
    | true =>
      rw [List.filter_cons_of_pos he] at h'
      obtain ⟨t₁, p, ps', ht, hrun', -⟩ := run_cons.mp h'
      exact ih (hkeep s t e s₁ o t₁ p hr hde he hs ht) hd hrun hrun'
    | false =>
      rw [List.filter_cons_of_neg (by simp [he])] at h'
      exact ih (hdrop s t e s₁ o hr hde he hs) hd hrun h'

/-- A quantity that no step lowers while it is present is not lowered by a run along which it stays. -/
theorem run_mono {τ : Type*} [Preorder τ] {f : σ → Option τ}
    (hstep : ∀ s e s' o x y, step s e = .ok (s', o) → f s = some x → f s' = some y → x ≤ y) :
    ∀ {es s s' os x y}, Along step (fun t _ => (f t).isSome) s es → run step s es = .ok (s', os) →
      f s = some x → f s' = some y → x ≤ y := by
  intro es
  induction es with
  | nil =>
    intro s s' os x y _ hr hx hy
    rw [(run_nil.mp hr).1, hx] at hy
    exact (Option.some.inj hy).le
  | cons e es ih =>
    intro s s' os x y hc hr hx hy
    obtain ⟨s₁, o, os', hs, hr', -⟩ := run_cons.mp hr
    have hc' := hc.2 s₁ o hs
    have hmid : (f s₁).isSome := by
      cases es with
      | nil =>
        rw [← (run_nil.mp hr').1, hy]
        rfl
      | cons e' es => exact hc'.1
    obtain ⟨z, hz⟩ := Option.isSome_iff_exists.mp hmid
    exact (hstep s e s₁ o x z hs hx hz).trans (ih hc' hr' hz hy)

/-! ## Observers -/

/-- What an observer has noted at the end of a run: `note` sees each step's state, event and outputs. -/
def observed {ν : Type*} (step : σ → ε → Except κ (σ × List ω)) (note : σ → ε → List ω → ν → ν) :
    σ → ν → List ε → ν
  | _, n, [] => n
  | s, n, e :: es =>
    match step s e with
    | .error _ => n
    | .ok (s', o) => observed step note s' (note s e o n) es

theorem observed_concat {ν : Type*} {note : σ → ε → List ω → ν → ν} {es : List ε} {e : ε} {s s₁ s₂ : σ}
    {os o : List ω} {n : ν} (h : run step s es = .ok (s₁, os)) (he : step s₁ e = .ok (s₂, o)) :
    observed step note s n (es ++ [e]) = note s₁ e o (observed step note s n es) := by
  induction es generalizing s os n with
  | nil =>
    obtain ⟨rfl, -⟩ := run_nil.mp h
    simp only [List.nil_append, observed, he]
  | cons e' es ih =>
    obtain ⟨s', o', os', hs, hr, -⟩ := run_cons.mp h
    simp only [List.cons_append, observed, hs]
    exact ih hr

/-- Induction on the events handled so far: what holds before the first one and is kept by each next
step holds of the whole run. -/
theorem run_prefix {I : List ε → σ → List ω → Prop} {s₀ : σ} {es : List ε} (h₀ : I [] s₀ [])
    (hstep : ∀ p e q s os s' o, es = p ++ e :: q → run step s₀ p = .ok (s, os) → I p s os →
      step s e = .ok (s', o) → I (p ++ [e]) s' (os ++ o))
    {s : σ} {os : List ω} (h : run step s₀ es = .ok (s, os)) : I es s os := by
  suffices hall : ∀ q p t ot, p ++ q = es → run step s₀ p = .ok (t, ot) → I p t ot →
      ∀ ou, run step t q = .ok (s, ou) → I es s (ot ++ ou) from hall es [] s₀ [] rfl rfl h₀ os h
  intro q
  induction q with
  | nil =>
    intro p t ot hp _ hi ou hr
    obtain ⟨rfl, rfl⟩ := run_nil.mp hr
    rw [List.append_nil, ← hp, List.append_nil]
    exact hi
  | cons e q ih =>
    intro p t ot hp hr hi ou hq
    obtain ⟨t', o, ou', he, hq', rfl⟩ := run_cons.mp hq
    rw [← List.append_assoc]
    refine ih (p ++ [e]) t' (ot ++ o) (by rw [← hp, List.append_assoc, List.singleton_append]) ?_ ?_ ou' hq'
    · exact run_append.mpr ⟨t, ot, o, hr, run_singleton.mpr he, rfl⟩
    · exact hstep p e q t ot t' o hp.symm hr hi he

end

end PriceEngine
