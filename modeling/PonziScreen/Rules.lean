import PonziScreen.CallGraph.Component
import PonziScreen.Facts.Report
import PonziScreen.Finding.Basic

/-!
# Rules

The shapes in which Ponzi schemes move money, looked for in the facts about a contract:

* functions that move native currency;
* variables that value-moving functions write and paying functions read;
* payouts that lie on a cycle of calls;
* structures that pair an address with an amount.

Each finding adds to the risk score by its severity.
-/

namespace PonziScreen.Rules

/-! ## Transfers -/

/-- The finding on a function that moves native currency. -/
def sendFinding (s : SendFunction) : Finding where
  severity := .low
  category := .valueTransfer
  message := s!"{s.name}() transfers value"
  evidence := some (.record [("statement", .text s.text), ("node_index", .int s.index)])

/-- The findings on functions that move native currency, in the order of their numbers; one finding
says so if there are none. -/
def transferFindings (facts : Facts) : List Finding :=
  if facts.sends.entries.isEmpty then
    [⟨.info, .valueTransfer, "No direct transfer/send calls", none⟩]
  else
    (facts.sends.values.mergeSort fun a b => decide (a.id.value ≤ b.id.value)).map sendFinding

/-! ## Shared variables -/

/-- Whether a type is that of a collection, which can keep a record per investor. -/
def isCollection (type : String) : Bool := includes type "[]" || includes type "mapping"

/-- Whether the first variable of a name is a collection. -/
def isLedger (c : Contract) (name : String) : Bool :=
  match c.variableNamed? name with
  | some v => isCollection v.type
  | none => false

/-- The names of the functions that read a variable and move native currency. -/
def payers (facts : Facts) (name : String) : List String :=
  (((facts.reads.find? name).getD []).filter fun f => facts.isSender f.id).map FunctionRef.name

/-- The finding on a written variable, if paying functions read it. -/
def ledgerFinding? (c : Contract) (facts : Facts) (entry : String × List FunctionRef) :
    Option Finding :=
  let payers := payers facts entry.1
  let ledger := isLedger c entry.1
  if payers.isEmpty then none
  else some {
    severity := if ledger then .critical else .high
    category := .sharedLedger
    message := s!"Payouts read `{entry.1}`, which value-moving functions write"
    evidence := some (.record [("variable", .text entry.1),
      ("writers", .list (entry.2.map fun f => .text f.name)),
      ("payers", .list (payers.map .text)), ("collection", .bool ledger)]) }

/-- The findings on variables that are shared between deposits and payouts, in the order of their
names. -/
def ledgerFindings (c : Contract) (facts : Facts) : List Finding :=
  (Facts.sortedEntries facts.writes).filterMap (ledgerFinding? c facts)

/-! ## Call cycles -/

/-- The labels of the nodes of a component whose functions move native currency, sorted. -/
def sendersIn (facts : Facts) (component : List Nat) : List String :=
  let nodes := component.filterMap fun v => facts.calls.nodes[v]?
  ((nodes.filter fun n => facts.isSender n.function).map CallNode.label).mergeSort
    fun a b => decide (a ≤ b)

/-- The finding on a component, if it holds a cycle and a function that moves native currency. -/
def cycleFinding? (facts : Facts) (component : List Nat) : Option Finding :=
  let names := sendersIn facts component
  if facts.calls.isCyclic component && !names.isEmpty then
    let list := ", ".intercalate names
    some {
      severity := .medium
      category := .callStructure
      message := s!"Transfer inside a call cycle ({list})"
      evidence := some (.record [("cycle_size", .int component.length)]) }
  else none

/-- The findings on payouts that lie on a cycle of calls. -/
def cycleFindings (facts : Facts) : List Finding :=
  facts.calls.components.filterMap (cycleFinding? facts)

/-! ## Investor records -/

/-- Whether a structure has a member for an address and one for an amount. -/
def isInvestorRecord (s : Structure) : Bool :=
  (s.members.any fun m => "address".toList.isPrefixOf m.type.toList) &&
    s.members.any fun m => "uint".toList.isPrefixOf m.type.toList

/-- The findings on structures that pair addresses with amounts, in the order of their names. -/
def structureFindings (facts : Facts) : List Finding :=
  (((Facts.sortedEntries facts.structures).map Prod.snd).filter isInvestorRecord).map fun s =>
    ⟨.low, .sharedLedger, s!"Struct {s.name} pairs addresses with amounts", none⟩

/-! ## The analysis -/

/-- All findings of the rules. -/
def findings (t : Target) : List Finding :=
  transferFindings t.facts ++ ledgerFindings t.contract t.facts ++ cycleFindings t.facts ++
    structureFindings t.facts

/-- What a finding adds to the risk score. -/
def points : Severity → Nat
  | .critical => 50
  | .high => 30
  | .medium => 15
  | .low => 5
  | .info => 0

/-- The risk score of some findings: their points, at most 100. The total is taken to stay below
`2 ^ 32`, so that it is added up without overflow. -/
def riskScore (findings : List Finding) : UInt8 :=
  UInt8.ofNat (min ((findings.map fun f => points f.severity).foldl (· + ·) 0) 100)

/-- The analysis of a target by the rules. -/
def analyze (t : Target) : AnalysisResult :=
  { riskScore := riskScore (findings t), findings := findings t, metadata := [] }

end PonziScreen.Rules
