import PonziScreen.Network.Gru
import PonziScreen.Network.Layer.GraphConv

/-!
# Gated graph layers

In each step every node sends its features through the linear map of that step, the sums of what
arrives at a node are the input of a gated recurrent unit, and its features are the state.
-/

namespace PonziScreen

variable {α : Type}

/-- A gated graph layer: a linear map for each step, and one cell for all. -/
structure GatedGraph (α : Type) where
  channels : Nat
  steps : List (Linear α)
  cell : GruCell α

namespace GatedGraph

/-- The linear maps of the steps with drawn weights. -/
def drawSteps [Scalar α] (channels : Nat) : Nat → Generator → List (Linear α) × Generator
  | 0, g => ([], g)
  | n + 1, g =>
    let (l, g) := Linear.draw channels channels false g
    let (rest, g) := drawSteps channels n g
    (l :: rest, g)

/-- A layer with drawn weights: the steps and then the cell. -/
def draw [Scalar α] (channels steps : Nat) (g : Generator) : GatedGraph α × Generator :=
  let (steps, g) := drawSteps channels steps g
  let (cell, g) := GruCell.draw channels channels g
  (⟨channels, steps, cell⟩, g)

/-- One step: what a node receives goes into the cell. -/
def propagate [Scalar α] (cell : GruCell α) (edges : List (Nat × Nat)) (h : Matrix α)
    (weight : Linear α) : Except Failure (Matrix α) := do
  let sums ← sumAtTargets (← weight.apply h) edges h.height
  cell.step sums h

/-- Applies the layer. -/
def forward [Scalar α] (layer : GatedGraph α) (x : Matrix α) (edges : List (Nat × Nat)) :
    Except Failure (Matrix α) :=
  match nodeFault? x layer.channels edges with
  | some fault => .error (.shapeMismatch fault)
  | none => layer.steps.foldlM (propagate layer.cell edges) x

/-- The parameters of the steps under a path; the first step has the number `i`. -/
def stepParameters (path : String) (i : Nat) : List (Linear α) → List (Parameter α)
  | [] => []
  | l :: rest => l.parameters s!"{path}.weight.{i}" ++ stepParameters path (i + 1) rest

/-- The parameters under a path. -/
def parameters (layer : GatedGraph α) (path : String) : List (Parameter α) :=
  stepParameters path 0 layer.steps ++ layer.cell.parameters s!"{path}.rnn"

/-- Changes the entries of the parameters under a path. -/
def mapParameters (layer : GatedGraph α) (path : String) (f : String → Nat → α → α) :
    GatedGraph α :=
  { layer with
    steps := layer.steps.mapIdx fun i l => l.mapParameters s!"{path}.weight.{i}" f
    cell := layer.cell.mapParameters s!"{path}.rnn" f }

end GatedGraph

end PonziScreen
