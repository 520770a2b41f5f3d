import PonziScreen.Finding.Basic

/-!
# Verdicts

The answer of all analyses taken together.
-/

namespace PonziScreen

/-- A verdict on a contract. The confidence is a number of `σ`; the results are kept by the name of
the analysis. -/
structure Verdict (σ : Type) where
  contract : String
  isPonzi : Bool
  riskScore : UInt8
  confidence : σ
  findings : List Finding
  results : List (String × AnalysisResult)

end PonziScreen
