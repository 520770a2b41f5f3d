import PonziScreen.Verdict.Basic
import PonziScreen.Decimal.Fixed

/-!
# The report on a verdict

The report shows at most ten findings, the most serious first; findings of one severity keep their
order.
-/

namespace PonziScreen.Verdict

/-- The line above and below a report. -/
def ruler : String := "═══════════════════════════════════════════════════════════"

/-- The findings that a report shows. -/
def shownFindings (findings : List Finding) : List Finding :=
  (findings.mergeSort fun a b => decide (b.severity.rank ≤ a.severity.rank)).take 10

/-- The line of a finding. -/
def findingLine (f : Finding) : String :=
  s!"{f.severity.emoji} [{f.category.name}] {f.message}"

/-- The lines on findings; none if there are none. -/
def findingLines (findings : List Finding) : List String :=
  if findings.isEmpty then []
  else "" :: "═══ FINDINGS ═══" :: (shownFindings findings).map findingLine

/-- The lines of a report. -/
def reportLines (v : Verdict Float) : List String :=
  let answer := if v.isPonzi then "🔴 PONZI SCHEME SUSPECTED" else "🟢 NO PONZI PATTERN"
  let confidence := (BinaryValue.ofFloat (v.confidence * 100)).fixed 1
  [ruler, "                PONZI DETECTION REPORT", ruler, "", s!"Contract: {v.contract}", "",
    "═══ VERDICT ═══", answer, s!"Risk Score: {v.riskScore.toNat}/100",
    s!"Confidence: {confidence}%"] ++
  findingLines v.findings ++ ["", ruler]

/-- The report: each line with its end. -/
def report (v : Verdict Float) : String :=
  String.join (v.reportLines.map fun line => line ++ "\n")

end PonziScreen.Verdict
