import PonziScreen.Graph.Basic

/-!
# Batches of graphs

Several graphs put next to each other as one graph without edges between them. The nodes keep their
order, graph by graph, and the edges keep theirs; `graphOf` says for each node which graph it came
from.
-/

namespace PonziScreen

/-- A batch. Nothing is promised of its parts; `Batch.collate` makes batches whose parts fit. -/
structure Batch (α : Type) where
  features : Matrix α
  edges : List (Nat × Nat)
  edgeFeatures : Option (Matrix α)
  /-- For each node the graph that it belongs to. -/
  graphOf : List Nat
  /-- A row per graph, if all graphs are labelled. -/
  labels : Option (Matrix α)
  graphCount : Nat

namespace Batch

variable {α : Type}

/-- The number of nodes. -/
def nodeCount (b : Batch α) : Nat := b.features.height

/-! ## Putting graphs together -/

/-- The batch of no graphs. -/
def empty [Scalar α] : Batch α := ⟨.zeros 0 0, [], none, [], none, 0⟩

/-- The edges of graphs whose first node gets the number `offset`. -/
def mergedEdges (offset : Nat) : List (Graph α) → List (Nat × Nat)
  | [] => []
  | g :: rest =>
    g.edges.map (fun e => (e.1 + offset, e.2 + offset)) ++ mergedEdges (offset + g.nodeCount) rest

/-- For each node of some graphs its graph, the first of which has the number `start`. -/
def mergedIndex (start : Nat) : List (Graph α) → List Nat
  | [] => []
  | g :: rest => List.replicate g.nodeCount start ++ mergedIndex (start + 1) rest

/-- The first graph without a label; `default` if there is none. -/
def unlabelled (graphs : List (Graph α)) (default : Nat) : Nat :=
  (graphs.findIdx? fun g => g.label.isNone).getD default

/-- What keeps a graph out of a batch: a fault of its own, or a disagreement with the first one. -/
def misfit? (graphs : List (Graph α)) (first : Graph α) (i : Nat) (g : Graph α) : Option Failure :=
  match g.fault? with
  | some fault => some (.shapeMismatch fault)
  | none =>
    if g.features.width ≠ first.features.width then
      some (.shapeMismatch (.graphWidth i g.features.width first.features.width))
    else if g.edgeFeatures.isSome ≠ first.edgeFeatures.isSome then
      some (.shapeMismatch (.edgePresence i))
    else if g.label.isSome ≠ first.label.isSome then some (.missingLabel (unlabelled graphs i))
    else none

/-- The failure for the first graph that does not fit. -/
def firstMisfit? (graphs : List (Graph α)) (first : Graph α) : Option Failure :=
  graphs.zipIdx.findSome? fun g => misfit? graphs first g.2 g.1

/-- Labels as the rows of a matrix. -/
def labelMatrix (width : Nat) (labels : List (List α)) : Except Failure (Matrix α) :=
  match Matrix.ofRows? width labels with
  | some m => .ok m
  | none => .error .unevenRows

/-- Puts graphs together into a batch. -/
def collate [Scalar α] (graphs : List (Graph α)) : Except Failure (Batch α) :=
  match graphs with
  | [] => .ok empty
  | first :: _ =>
    match firstMisfit? graphs first with
    | some failure => .error failure
    | none => do
      let features ← Matrix.stack first.features.width (graphs.map Graph.features)
      let edgeFeatures ←
        match first.edgeFeatures with
        | some e => (Matrix.stack e.width (graphs.filterMap Graph.edgeFeatures)).map some
        | none => .ok none
      let labels ←
        match first.label with
        | some y => (labelMatrix y.length (graphs.filterMap Graph.label)).map some
        | none => .ok none
      return {
        features, edges := mergedEdges 0 graphs, edgeFeatures, graphOf := mergedIndex 0 graphs,
        labels, graphCount := graphs.length }

/-- A single graph as a batch. -/
def ofGraph [Scalar α] (g : Graph α) : Except Failure (Batch α) := collate [g]

end Batch

end PonziScreen
