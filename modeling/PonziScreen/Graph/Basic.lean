import PonziScreen.Matrix

/-!
# Graphs with features

A graph as a sample for a classifier: a row of features per node, directed edges, and, if wanted, a
row of features per edge and a label.
-/

namespace PonziScreen

variable {α : Type}

/-- The first edge that ends at a node past the last of `nodes`, as a shape fault. -/
def edgeFault? (nodes : Nat) (edges : List (Nat × Nat)) : Option ShapeFault :=
  (edges.find? fun e => nodes ≤ e.1 || nodes ≤ e.2).map fun e => .edgeRange e.1 e.2 nodes

/-- A graph. An edge is a pair of source and target; a label has an entry per class. -/
structure Graph (α : Type) where
  features : Matrix α
  edges : List (Nat × Nat)
  edgeFeatures : Option (Matrix α)
  label : Option (List α)

namespace Graph

/-- The number of nodes. -/
def nodeCount (g : Graph α) : Nat := g.features.height

/-- The number of edges. -/
def edgeCount (g : Graph α) : Nat := g.edges.length

/-- Labels a graph as a Ponzi scheme or not: one in the entry of its class. -/
def withLabel [Scalar α] (isPonzi : Bool) (g : Graph α) : Graph α :=
  let zero : α := Scalar.zero
  let one : α := Scalar.one
  { g with label := some (if isPonzi then [zero, one] else [one, zero]) }

/-- What is wrong with a graph taken by itself: an edge out of range comes before a wrong number of
edge features. -/
def fault? (g : Graph α) : Option ShapeFault :=
  match edgeFault? g.nodeCount g.edges with
  | some fault => some fault
  | none =>
    match g.edgeFeatures with
    | some e => if e.height = g.edgeCount then none else some (.edgeRows e.height g.edgeCount)
    | none => none

/-- Whether a graph can be used. -/
def validate (g : Graph α) : Except Failure Unit :=
  match g.fault? with
  | some fault => .error (.shapeMismatch fault)
  | none => .ok ()

end Graph

end PonziScreen
