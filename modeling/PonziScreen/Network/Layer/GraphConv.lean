import PonziScreen.Network.Layer.EdgeGated

/-!
# Graph convolutions

A node takes a linear map of its own features, plus a linear map of the sum of the features of the
nodes from which edges lead to it.
-/

namespace PonziScreen

variable {α : Type}

/-- The sums, at each of `x.height` nodes, of the rows of `values` at the sources of the edges that
end there. -/
def sumAtTargets [Scalar α] (values : Matrix α) (edges : List (Nat × Nat)) (nodes : Nat) :
    Except Failure (Matrix α) := do
  (← values.gather (edges.map Prod.fst)).scatterAdd (edges.map Prod.snd) nodes

/-- A graph convolution. -/
structure GraphConv (α : Type) where
  channels : Nat
  /-- Of the sum over the neighbours. -/
  related : Linear α
  /-- Of the node itself. -/
  root : Linear α

namespace GraphConv

/-- A layer with drawn weights. -/
def draw [Scalar α] (channels : Nat) (g : Generator) : GraphConv α × Generator :=
  let (related, g) := Linear.draw channels channels true g
  let (root, g) := Linear.draw channels channels false g
  (⟨channels, related, root⟩, g)

/-- Applies the layer. -/
def forward [Scalar α] (layer : GraphConv α) (x : Matrix α) (edges : List (Nat × Nat)) :
    Except Failure (Matrix α) :=
  match nodeFault? x layer.channels edges with
  | some fault => .error (.shapeMismatch fault)
  | none => do
    let sums ← sumAtTargets x edges x.height
    Matrix.combine (· + ·) (← layer.related.apply sums) (← layer.root.apply x)

/-- The parameters under a path. -/
def parameters (layer : GraphConv α) (path : String) : List (Parameter α) :=
  layer.related.parameters s!"{path}.lin_rel" ++ layer.root.parameters s!"{path}.lin_root"

/-- Changes the entries of the parameters under a path. -/
def mapParameters (layer : GraphConv α) (path : String) (f : String → Nat → α → α) : GraphConv α :=
  { layer with
    related := layer.related.mapParameters s!"{path}.lin_rel" f
    root := layer.root.mapParameters s!"{path}.lin_root" f }

end GraphConv

end PonziScreen
