import PonziScreen.Failure
import PonziScreen.Finding.Format
import PonziScreen.Json.Reader
import PonziScreen.Verdict.Basic

/-!
# Verdicts as JSON

A verdict that was stored can be read back.
-/

namespace PonziScreen.Verdict

/-- The fields of a verdict. -/
def fields : List FieldName :=
  [.only "contract", .only "is_ponzi", .only "risk_score", .only "confidence", .only "findings",
    .only "analyzer_results"]

/-- Reads a verdict. All its fields have to be present. -/
def ofJson? (j : Json) : Option (Verdict Float) := do
  let f ← j.fields? fields
  let contract ← f.required? "contract" Json.text?
  let isPonzi ← f.required? "is_ponzi" Json.bool?
  let riskScore ← f.required? "risk_score" Json.byte?
  let confidence ← f.required? "confidence" Json.float?
  let findings ← f.required? "findings" (Json.list? (Finding.ofJson? (depthLimit - 3)))
  let results ← f.required? "analyzer_results" (Json.dictionary? (AnalysisResult.ofJson? 2))
  return { contract, isPonzi, riskScore, confidence, findings, results }

/-- Reads a verdict from its text. -/
def ofText (text : String) : Except Failure (Verdict Float) :=
  match (Json.ofText? text).bind ofJson? with
  | some v => .ok v
  | none => .error .json

end PonziScreen.Verdict
