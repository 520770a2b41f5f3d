import PonziScreen.Graph.Basic
import PonziScreen.Network.Activation
import PonziScreen.Network.BatchNorm
import PonziScreen.Network.Linear
import PonziScreen.Network.Segment

/-!
# Edge-gated layers

For an edge from `s` to `t` with features `e`, let `z` be the features of `t` followed by `e`. The
message of the edge is `sigmoid (A z) * softplus (N z)`. A node adds the messages of the edges that
end at it to its own features, and a batch normalisation may follow.
-/

namespace PonziScreen

variable {α : Type}

/-- What every layer asks of nodes and edges: features of the right width, and no edge that ends
outside the graph. -/
def nodeFault? (x : Matrix α) (channels : Nat) (edges : List (Nat × Nat)) : Option ShapeFault :=
  if x.width ≠ channels then some (.channels channels x.width) else edgeFault? x.height edges

/-- An edge-gated layer. -/
structure EdgeGated (α : Type) where
  channels : Nat
  edgeDim : Nat
  lineAttention : Linear α
  lineNode : Linear α
  norm : Option (BatchNorm α)

namespace EdgeGated

variable [Scalar α]

/-- A layer with drawn weights. -/
def draw (channels edgeDim : Nat) (batchNorm : Bool) (g : Generator) : EdgeGated α × Generator :=
  let (lineAttention, g) := Linear.draw (channels + edgeDim) channels true g
  let (lineNode, g) := Linear.draw (channels + edgeDim) channels true g
  let norm := if batchNorm then some (.initial channels) else none
  (⟨channels, edgeDim, lineAttention, lineNode, norm⟩, g)

omit [Scalar α] in
/-- What is wrong with the edge features for this layer, if anything. -/
def edgeFeatureFault? (layer : EdgeGated α) (edges : List (Nat × Nat)) :
    Option (Matrix α) → Option ShapeFault
  | none => if layer.edgeDim = 0 then none else some (.edgesMissing layer.edgeDim)
  | some e =>
    if 0 < layer.edgeDim ∧ e.width = layer.edgeDim ∧ e.height = edges.length then none
    else some (.edgeShape e.height e.width edges.length layer.edgeDim)

/-- The message of each edge. -/
def messages (layer : EdgeGated α) (x : Matrix α) (targets : List Nat)
    (edgeFeatures : Option (Matrix α)) : Except Failure (Matrix α) := do
  let xt ← x.gather targets
  let z ←
    match edgeFeatures with
    | some e => xt.beside e
    | none => .ok xt
  let gate ← layer.lineAttention.apply z
  let candidate ← layer.lineNode.apply z
  Matrix.combine (· * ·) (gate.map sigmoid) (candidate.map softplus)

/-- The features with the sums of the messages added. Without edges there is nothing to add. -/
def residual (layer : EdgeGated α) (x : Matrix α) (edges : List (Nat × Nat))
    (edgeFeatures : Option (Matrix α)) : Except Failure (Matrix α) := do
  let sums ←
    if edges.isEmpty then .ok (Matrix.zeros x.height x.width)
    else
      let targets := edges.map Prod.snd
      (← layer.messages x targets edgeFeatures).scatterAdd targets x.height
  Matrix.combine (· + ·) sums x

/-- Applies the layer. In training the batch normalisation follows the batch. -/
def forward (layer : EdgeGated α) (x : Matrix α) (edges : List (Nat × Nat))
    (edgeFeatures : Option (Matrix α)) (training : Bool) :
    Except Failure (Matrix α) × EdgeGated α :=
  match nodeFault? x layer.channels edges with
  | some fault => (.error (.shapeMismatch fault), layer)
  | none =>
    match layer.edgeFeatureFault? edges edgeFeatures with
    | some fault => (.error (.shapeMismatch fault), layer)
    | none =>
      match layer.residual x edges edgeFeatures with
      | .error failure => (.error failure, layer)
      | .ok out =>
        match layer.norm with
        | none => (.ok out, layer)
        | some norm =>
          let (result, norm) := norm.forward out training
          (result, { layer with norm := some norm })

omit [Scalar α] in
/-- The parameters under a path. -/
def parameters (layer : EdgeGated α) (path : String) : List (Parameter α) :=
  layer.lineAttention.parameters s!"{path}.line_attention" ++
    layer.lineNode.parameters s!"{path}.line_node" ++
    (layer.norm.map fun b => b.parameters s!"{path}.bn").getD []

omit [Scalar α] in
/-- Changes the entries of the parameters under a path. -/
def mapParameters (layer : EdgeGated α) (path : String) (f : String → Nat → α → α) : EdgeGated α :=
  { layer with
    lineAttention := layer.lineAttention.mapParameters s!"{path}.line_attention" f
    lineNode := layer.lineNode.mapParameters s!"{path}.line_node" f
    norm := layer.norm.map fun b => b.mapParameters s!"{path}.bn" f }

end EdgeGated

end PonziScreen
