import PriceEngine.Rounding

/-!
# Reason codes and decision components

Every pricing decision carries the components that explain it: a reason code,
a text and a signed impact. `fmtFloat` and `fmtPercent` are the two number
formats the texts use.
-/

namespace PriceEngine

inductive ReasonCode
  | propertyQualityTier | propertyRating | propertyView | propertyParking
  | ruleMarketCompetitive | ruleMinimumFloor | ruleMinimumProfitablePrice
  | ruleEarlyBird | ruleLastMinute | ruleSameDay
  | revenueBaseNetting
  | manualOverrideApplied
  | minimumStayRecommended | minimumStayNotViable
  deriving DecidableEq

/-- `impact` is an adjustment fraction for the property codes and an amount in EUR for the others. -/
structure DecisionComponent where
  code : ReasonCode
  label : String
  impact : ℚ
  deriving DecidableEq

/-! ## Numbers in texts -/

/-- The number of decimals that write `x` exactly, at most 17. -/
def decimals (x : ℚ) : ℕ := ((List.range 17).find? fun d => (x * 10 ^ d).den = 1).getD 17

def padLeft (w : ℕ) (s : String) : String := String.ofList (List.replicate (w - s.length) '0') ++ s

/-- `str(x)` of a float of ordinary size: at least one decimal, no trailing zeros. -/
def fmtFloat (x : ℚ) : String :=
  let d := max 1 (decimals x)
  let units := (roundHalfEven (x * 10 ^ d)).natAbs
  (if x < 0 then "-" else "") ++ toString (units / 10 ^ d) ++ "." ++ padLeft d (toString (units % 10 ^ d))

/-- The format `+.0%`. -/
def fmtPercent (x : ℚ) : String :=
  (if x < 0 then "-" else "+") ++ toString (roundHalfEven (x * 100)).natAbs ++ "%"

example : fmtFloat (-1234 / 100) = "-12.34" ∧ fmtFloat 7 = "7.0" ∧ fmtPercent (-3 / 100) = "-3%" := by
  decide +kernel

end PriceEngine
