import PonziScreen.Finding.Basic
import PonziScreen.Json.Float
import PonziScreen.Json.Record

/-!
# Findings as JSON

Evidence and metadata may hold any JSON value, but only to a limited depth: at most `depthLimit`
arrays and objects may lie inside one another, counted from the outside of the whole text.
-/

namespace PonziScreen

/-- How many arrays and objects may lie inside one another around a value that is used. -/
def depthLimit : Nat := 127

namespace Value

/-- A number. Integers that fit into 64 bits, with or without a sign, stay integers. -/
def ofNumeral? (n : Numeral) : Option Value :=
  match n with
  | .whole false d => if d < UInt64.size then some (.int d) else n.float?.map .real
  | .whole true d => if 0 < d ∧ d ≤ 1 <<< 63 then some (.int (-d)) else n.float?.map .real
  | .scaled .. => n.float?.map .real

/-- A value that may hold `depth` further levels of arrays and objects. Of members with one name the
last counts. -/
def ofJson? (depth : Nat) : Json → Option Value
  | .null => some .null
  | .bool b => some (.bool b)
  | .number n => ofNumeral? n
  | .text s => s.map .text
  | .array items =>
    match depth with
    | 0 => none
    | depth + 1 => (items.attach.mapM fun j => ofJson? depth j.1).map .list
  | .object members =>
    match depth with
    | 0 => none
    | depth + 1 => do
      let members ← members.attach.mapM fun m => do
        let name ← m.1.1
        let value ← ofJson? depth m.1.2
        return (name, value)
      return .record (members.foldl (fun done m => done.filter (fun d => d.1 != m.1) ++ [m]) [])
termination_by j => sizeOf j
decreasing_by
  · have := List.sizeOf_lt_of_mem j.2
    simp
    omega
  · have h₁ := List.sizeOf_lt_of_mem m.2
    have h₂ : sizeOf m.1.2 < sizeOf m.1 := by
      cases m.1
      simp only [Prod.mk.sizeOf_spec]
      omega
    simp
    omega

end Value

namespace Severity

/-- Reads a severity by its name. -/
def ofJson? (j : Json) : Option Severity := j.unitVariant?.bind ofName?

end Severity

namespace Category

/-- Reads a category by its name. -/
def ofJson? (j : Json) : Option Category := j.unitVariant?.bind ofName?

end Category

namespace Finding

/-- The fields of a finding. -/
def fields : List FieldName :=
  [.only "severity", .only "category", .only "message", .only "evidence"]

/-- A finding whose evidence may hold `depth` levels. -/
def ofJson? (depth : Nat) (j : Json) : Option Finding := do
  let f ← j.fields? fields
  let severity ← f.required? "severity" Severity.ofJson?
  let category ← f.required? "category" Category.ofJson?
  let message ← f.required? "message" Json.text?
  let evidence ← f.optional? "evidence" (Value.ofJson? depth)
  return { severity, category, message, evidence }

end Finding

namespace AnalysisResult

/-- The fields of a result. -/
def fields : List FieldName := [.only "risk_score", .only "findings", .only "metadata"]

/-- A result around which `outer` arrays and objects lie. -/
def ofJson? (outer : Nat) (j : Json) : Option AnalysisResult := do
  let f ← j.fields? fields
  let riskScore ← f.required? "risk_score" Json.byte?
  -- the result, its list, and each finding are three levels; its dictionary is the second
  let findings ← f.required? "findings" (Json.list? (Finding.ofJson? (depthLimit - (outer + 3))))
  let metadata ← f.default? "metadata" []
    (Json.dictionary? (Value.ofJson? (depthLimit - (outer + 2))))
  return { riskScore, findings, metadata }

end AnalysisResult

end PonziScreen
