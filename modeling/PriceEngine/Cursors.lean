import Mathlib.Data.List.Chain
import PriceEngine.Run

/-!
# Readers that keep their place

A machine reads a sequence from a place that it moves forward: `floor` is the
place, `place` the position of an output, where it comes from the sequence. If each step
outputs the positions from its floor on and never passes one that it did not
count (`Advances`), a run outputs positions in strictly ascending order, none
below the floor it starts from. If a step passes only what it outputs
(`Covers`), a run outputs exactly the positions between its two floors.
-/

namespace PriceEngine

variable {σ ε ω κ : Type*}

/-- What a step outputs begins at its floor and ends at the new floor or before it. -/
def Advances (floor : σ → ℕ) (place : ω → Option ℕ) (s : σ) (o : List ω) (s' : σ) : Prop :=
  ∃ n, o.filterMap place = List.range' (floor s) n ∧ floor s + n ≤ floor s'

def Covers (floor : σ → ℕ) (place : ω → Option ℕ) (s : σ) (o : List ω) (s' : σ) : Prop :=
  ∃ n, o.filterMap place = List.range' (floor s) n ∧ floor s + n = floor s'

section
variable {floor : σ → ℕ} {place : ω → Option ℕ} {s s' : σ} {o : List ω}

theorem Covers.advances (h : Covers floor place s o s') : Advances floor place s o s' :=
  h.imp fun _ hn => ⟨hn.1, hn.2.le⟩

theorem advances_nil (h : floor s ≤ floor s') : Advances floor place s ([] : List ω) s' := ⟨0, rfl, h⟩

theorem covers_nil (h : floor s = floor s') : Covers floor place s ([] : List ω) s' := ⟨0, rfl, h⟩

theorem Advances.mem (h : Advances floor place s o s') {n : ℕ} (hn : n ∈ o.filterMap place) :
    floor s ≤ n ∧ n < floor s' := by
  obtain ⟨k, heq, hk⟩ := h
  rw [heq, List.mem_range'_1] at hn
  exact ⟨hn.1, hn.2.trans_le hk⟩

theorem Advances.le (h : Advances floor place s o s') : floor s ≤ floor s' :=
  h.elim fun _ hn => (Nat.le_add_right _ _).trans hn.2

theorem Advances.ascending (h : Advances floor place s o s') : (o.filterMap place).Pairwise (· < ·) := by
  obtain ⟨k, heq, -⟩ := h
  rw [heq]
  exact List.pairwise_lt_range'

end

variable {step : σ → ε → Except κ (σ × List ω)} {I : σ → Prop} {C : σ → ε → Prop} {floor : σ → ℕ}
  {place : ω → Option ℕ}

theorem run_ascending (hinv : ∀ s e s' o, I s → C s e → step s e = .ok (s', o) → I s')
    (hstep : ∀ s e s' o, I s → C s e → step s e = .ok (s', o) → Advances floor place s o s') :
    ∀ {es s s' os}, I s → Along step C s es → run step s es = .ok (s', os) →
      floor s ≤ floor s' ∧ (os.filterMap place).Pairwise (· < ·) ∧
        ∀ n ∈ os.filterMap place, floor s ≤ n ∧ n < floor s' := by
  intro es
  induction es with
  | nil =>
    intro s s' os _ _ hr
    obtain ⟨rfl, rfl⟩ := run_nil.mp hr
    exact ⟨le_rfl, .nil, fun n hn => nomatch hn⟩
  | cons e es ih =>
    intro s s' os hi hc hr
    obtain ⟨s₁, o, os', hs, hr', rfl⟩ := run_cons.mp hr
    have hone := hstep s e s₁ o hi hc.1 hs
    obtain ⟨hle, hsorted, hmem⟩ := ih (hinv s e s₁ o hi hc.1 hs) (hc.2 s₁ o hs) hr'
    rw [List.filterMap_append]
    refine ⟨hone.le.trans hle, List.pairwise_append.mpr ⟨hone.ascending, hsorted, ?_⟩, ?_⟩
    · intro a ha b hb
      exact (hone.mem ha).2.trans_le (hmem b hb).1
    · intro n hn
      rcases List.mem_append.mp hn with hn | hn
      · exact ⟨(hone.mem hn).1, (hone.mem hn).2.trans_le hle⟩
      · exact ⟨hone.le.trans (hmem n hn).1, (hmem n hn).2⟩

theorem run_covers (hinv : ∀ s e s' o, I s → C s e → step s e = .ok (s', o) → I s')
    (hstep : ∀ s e s' o, I s → C s e → step s e = .ok (s', o) → Covers floor place s o s') :
    ∀ {es s s' os}, I s → Along step C s es → run step s es = .ok (s', os) → Covers floor place s os s' := by
  intro es
  induction es with
  | nil =>
    intro s s' os _ _ hr
    obtain ⟨rfl, rfl⟩ := run_nil.mp hr
    exact covers_nil rfl
  | cons e es ih =>
    intro s s' os hi hc hr
    obtain ⟨s₁, o, os', hs, hr', rfl⟩ := run_cons.mp hr
    obtain ⟨n, hn, hfloor⟩ := hstep s e s₁ o hi hc.1 hs
    obtain ⟨m, hm, hfloor'⟩ := ih (hinv s e s₁ o hi hc.1 hs) (hc.2 s₁ o hs) hr'
    refine ⟨n + m, ?_, by rw [← Nat.add_assoc, hfloor, hfloor']⟩
    rw [List.filterMap_append, hn, hm, ← hfloor, List.range'_append_1]

end PriceEngine
