/-!
# Findings

What an analysis has to say about a contract: how serious it is, what it is about, a message, and
evidence in the form of a small tree of values.
-/

namespace PonziScreen

/-! ## Severity -/

/-- How serious a finding is, from the least to the most. -/
inductive Severity where
  | info
  | low
  | medium
  | high
  | critical
deriving Repr, DecidableEq

namespace Severity

/-- The position in the order of severities. -/
def rank : Severity → Nat
  | info => 0
  | low => 1
  | medium => 2
  | high => 3
  | critical => 4

/-- From the least to the most serious: info, low, medium, high, critical. -/
theorem pairwise_rank :
    [info, low, medium, high, critical].Pairwise fun s t => s.rank < t.rank := by
  decide

/-- The severity of a risk score. Scores above 100 are no scores and say nothing. -/
def ofScore (score : UInt8) : Severity :=
  if score < 20 then info
  else if score < 40 then low
  else if score < 60 then medium
  else if score < 80 then high
  else if score ≤ 100 then critical
  else info

/-- The name of a severity. -/
def name : Severity → String
  | info => "Info"
  | low => "Low"
  | medium => "Medium"
  | high => "High"
  | critical => "Critical"

/-- The severity of a name. -/
def ofName? : String → Option Severity
  | "Info" => some info
  | "Low" => some low
  | "Medium" => some medium
  | "High" => some high
  | "Critical" => some critical
  | _ => none

/-- The sign that stands in front of a finding in a report. -/
def emoji : Severity → String
  | info => "ℹ️"
  | low => "🔵"
  | medium => "🟡"
  | high => "🟠"
  | critical => "🔴"

end Severity

/-! ## Category -/

/-- What a finding is about. -/
inductive Category where
  /-- Functions that move native currency. -/
  | valueTransfer
  /-- State shared between deposits and payouts. -/
  | sharedLedger
  /-- The shape of the call graph. -/
  | callStructure
  /-- The answer of a graph model. -/
  | graphModel
deriving Repr, DecidableEq

namespace Category

/-- The name of a category. -/
def name : Category → String
  | valueTransfer => "ValueTransfer"
  | sharedLedger => "SharedLedger"
  | callStructure => "CallStructure"
  | graphModel => "GraphModel"

/-- The category of a name. -/
def ofName? : String → Option Category
  | "ValueTransfer" => some valueTransfer
  | "SharedLedger" => some sharedLedger
  | "CallStructure" => some callStructure
  | "GraphModel" => some graphModel
  | _ => none

end Category

/-! ## Evidence and findings -/

/-- A value of evidence or of metadata: an integer is kept apart from a number with a point. The
names of a record are not repeated. -/
inductive Value where
  | null
  | bool (value : Bool)
  | int (value : Int)
  | real (value : Float)
  | text (value : String)
  | list (items : List Value)
  | record (members : List (String × Value))
deriving Inhabited, Repr

/-- A finding. -/
structure Finding where
  severity : Severity
  category : Category
  message : String
  evidence : Option Value
deriving Repr

/-- What one analysis found, with a risk score of 0 to 100. -/
structure AnalysisResult where
  riskScore : UInt8
  findings : List Finding
  metadata : List (String × Value)
deriving Repr

end PonziScreen
