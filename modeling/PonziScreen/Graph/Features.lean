import PonziScreen.Facts.Basic
import PonziScreen.Graph.Basic

/-!
# The feature graph of a contract

The call graph of a contract as a sample for a classifier. A node has eight features:

| position | feature |
|----------|---------|
| 0 | moves native currency itself |
| 1 | can move native currency |
| 2 | only sets the contract up |
| 3 | variables read |
| 4 | variables written while moving value |
| 5 | statements |
| 6 | callers |
| 7 | callees |

An edge has two: whether its caller, and whether its callee, moves native currency itself. Counts
enter as the logarithm of one more.
-/

namespace PonziScreen

namespace FeatureGraph

variable {α : Type} [Scalar α]

/-- The number of features of a node. -/
def nodeWidth : Nat := 8

/-- The number of features of an edge. -/
def edgeWidth : Nat := 2

/-- One for yes and zero for no. -/
def flag (b : Bool) : α := if b then Scalar.one else Scalar.zero

/-- A count as a feature. -/
def scaled (n : Nat) : α := Scalar.ln1p (Scalar.ofNat n)

/-- How often a function stands in a table of uses. -/
def usageCount (t : Table String (List FunctionRef)) (f : FunctionId) : Nat :=
  (t.values.map fun users => users.countP fun u => u.id = f).foldl (· + ·) 0

/-- The features of the node at a position. -/
def nodeRow (c : Contract) (facts : Facts) (v : Nat) (n : CallNode) : List α :=
  let f := c.functionWith? n.function
  [flag (facts.isSender n.function),
    flag (f.any Function.canSendEth),
    flag (f.any Function.isConstructorLike),
    scaled (usageCount facts.reads n.function),
    scaled (usageCount facts.writes n.function),
    f.elim Scalar.zero fun f => scaled f.statements.length,
    scaled (facts.calls.inDegree v),
    scaled (facts.calls.outDegree v)]

/-- Whether the function of the node at a position moves native currency itself. -/
def sendsAt (facts : Facts) (v : Nat) : Bool :=
  facts.calls.nodes[v]?.any fun n => facts.isSender n.function

/-- The features of an edge. -/
def edgeRow (facts : Facts) (e : Nat × Nat) : List α :=
  [flag (sendsAt facts e.1), flag (sendsAt facts e.2)]

/-- The features of all nodes. -/
def nodeMatrix (c : Contract) (facts : Facts) : Matrix α where
  width := nodeWidth
  rows := facts.calls.nodes.zipIdx.map fun n => nodeRow c facts n.2 n.1
  uniform := by
    intro r hr
    obtain ⟨n, -, rfl⟩ := List.mem_map.1 hr
    rfl

/-- The features of all edges. -/
def edgeMatrix (facts : Facts) : Matrix α where
  width := edgeWidth
  rows := facts.calls.edges.map (edgeRow facts)
  uniform := by
    intro r hr
    obtain ⟨e, -, rfl⟩ := List.mem_map.1 hr
    rfl

/-- The feature graph of a contract, without a label. -/
def ofContract (c : Contract) (facts : Facts) : Graph α where
  features := nodeMatrix c facts
  edges := facts.calls.edges
  edgeFeatures := some (edgeMatrix facts)
  label := none

/-- The feature graph of a target. -/
def ofTarget (t : Target) : Graph α := ofContract t.contract t.facts

end FeatureGraph

end PonziScreen
