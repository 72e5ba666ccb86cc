import PriceEngine.Engine

/-!
# What a component explains

Each reason code explains one kind of figure; `explaining` picks the components
of a kind. The layers emit components of their own kind only, so that the list
of a decision falls into its parts.
-/

namespace PriceEngine

/-! ## Kinds of components -/

inductive Explains
  | property | netting | window | rule | minimumStay | manualOverride
  deriving DecidableEq

def ReasonCode.explains : ReasonCode → Explains
  | .propertyQualityTier | .propertyRating | .propertyView | .propertyParking => .property
  | .revenueBaseNetting => .netting
  | .ruleEarlyBird | .ruleLastMinute | .ruleSameDay => .window
  | .ruleMarketCompetitive | .ruleMinimumFloor | .ruleMinimumProfitablePrice => .rule
  | .minimumStayRecommended | .minimumStayNotViable => .minimumStay
  | .manualOverrideApplied => .manualOverride

def explaining (kind : Explains) (components : List DecisionComponent) : List DecisionComponent :=
  components.filter fun c => c.code.explains = kind

def totalImpact (components : List DecisionComponent) : ℚ := (components.map (·.impact)).sum

theorem explaining_append (kind : Explains) (l l' : List DecisionComponent) :
    explaining kind (l ++ l') = explaining kind l ++ explaining kind l' := List.filter_append ..

theorem explaining_eq_ite {kind : Explains} {l : List DecisionComponent} (h : ∀ c ∈ l, c.code.explains = kind)
    (kind' : Explains) : explaining kind' l = if kind = kind' then l else [] := by
  unfold explaining
  by_cases hk : kind = kind'
  · rw [if_pos hk, List.filter_eq_self]
    intro c hc
    simpa [hk] using h c hc
  · rw [if_neg hk, List.filter_eq_nil_iff]
    intro c hc
    rw [h c hc]
    simpa using hk

/-! ## The parts of a decision -/

theorem propertyAttributeComponents_explain (tier : QualityTier) (rating : ℚ) (hasView hasParking : Bool) :
    ∀ c ∈ propertyAttributeComponents tier rating hasView hasParking, c.code.explains = .property := by
  simp [propertyAttributeComponents, ReasonCode.explains]

theorem revenueBaseNettingComponent_explains {base : RevenueBase} {rate net : ℚ} :
    ∀ c ∈ revenueBaseNettingComponent base rate net, c.code.explains = .netting := by
  intro c hc
  unfold revenueBaseNettingComponent at hc
  split at hc
  · cases hc
  · rw [← Option.some.inj hc]
    rfl

theorem bookingWindowComponent_explains {days : ℤ} :
    ∀ c ∈ bookingWindowComponent days, c.code.explains = .window := by
  intro c hc
  unfold bookingWindowComponent at hc
  dsimp only at hc
  split at hc
  · rename_i window _
    split at hc
    · cases hc
    · obtain ⟨code, hcode, rfl⟩ := Option.map_eq_some_iff.mp hc
      cases window <;> cases hcode <;> rfl
  · cases hc

def ruleCode : RuleApplied → ReasonCode
  | .marketCompetitive => .ruleMarketCompetitive
  | .minimumFloor => .ruleMinimumFloor
  | .minimumProfitablePrice => .ruleMinimumProfitablePrice

theorem ruleDecisionComponent_code (rule : RuleApplied) (minimum market property : ℚ) :
    (ruleDecisionComponent rule minimum market property).code = ruleCode rule := by
  cases rule <;> rfl

theorem ruleCode_explains (rule : RuleApplied) : (ruleCode rule).explains = .rule := by
  cases rule <;> rfl

theorem applyGuardrails_explains (floor market property : ℚ) :
    (applyGuardrails floor market property).ruleComponent.code.explains = .rule := by
  unfold applyGuardrails
  dsimp only
  rw [ruleDecisionComponent_code, ruleCode_explains]

theorem recommendMinimumStay_explains {candidates : List LosFloorCandidate} {property fixed perBooking : ℚ}
    {m : MinimumStayRecommendation} (h : recommendMinimumStay candidates property fixed perBooking = .ok m) :
    ∀ c ∈ m.decisionComponent, c.code.explains = .minimumStay := by
  intro c hc
  unfold recommendMinimumStay at h
  split at h
  · cases h
  · split at h
    · rw [← Except.ok.inj h] at hc
      cases hc
    · split at h
      all_goals
        rw [← Except.ok.inj h] at hc
        rw [← Option.some.inj hc]
        rfl

end PriceEngine
