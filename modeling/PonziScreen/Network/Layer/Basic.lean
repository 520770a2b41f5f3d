import PonziScreen.Network.Config
import PonziScreen.Network.Layer.Attention
import PonziScreen.Network.Layer.GatedGraph

/-!
# Layers

A message-passing layer of any kind, and stacks of them. A layer takes a row of features per node
and gives one of the same width. Applying a layer gives a result and the layer as it is afterwards,
also when the result is a failure.
-/

namespace PonziScreen

variable {α : Type}

/-- A message-passing layer. -/
inductive Layer (α : Type) where
  | edgeGated (layer : EdgeGated α)
  | graphConv (layer : GraphConv α)
  | attention (layer : Attention α)
  | gatedGraph (layer : GatedGraph α)

namespace Layer

/-- A layer of the configured kind with drawn weights. -/
def draw [Scalar α] (c : Config α) (g : Generator) : Layer α × Generator :=
  match c.layerKind with
  | .edgeGated =>
    let (l, g) := EdgeGated.draw c.featureSize c.layerEdgeDim c.batchNorm g
    (.edgeGated l, g)
  | .graphConv =>
    let (l, g) := GraphConv.draw c.featureSize g
    (.graphConv l, g)
  | .attention =>
    let (l, g) := Attention.draw c.featureSize g
    (.attention l, g)
  | .gatedGraph =>
    let (l, g) := GatedGraph.draw c.featureSize c.gatedSteps g
    (.gatedGraph l, g)

/-- The kind of a layer. -/
def kind : Layer α → LayerKind
  | edgeGated _ => .edgeGated
  | graphConv _ => .graphConv
  | attention _ => .attention
  | gatedGraph _ => .gatedGraph

/-- Applies a layer. Only the edge-gated one looks at edge features, and only it can change. -/
def forward [Scalar α] (l : Layer α) (x : Matrix α) (edges : List (Nat × Nat))
    (edgeFeatures : Option (Matrix α)) (training : Bool) :
    Except Failure (Matrix α) × Layer α :=
  match l with
  | edgeGated l =>
    let (y, l) := l.forward x edges edgeFeatures training
    (y, edgeGated l)
  | graphConv l => (l.forward x edges, graphConv l)
  | attention l => (l.forward x edges, attention l)
  | gatedGraph l => (l.forward x edges, gatedGraph l)

/-- The parameters under a path. -/
def parameters (l : Layer α) (path : String) : List (Parameter α) :=
  match l with
  | edgeGated l => l.parameters path
  | graphConv l => l.parameters path
  | attention l => l.parameters path
  | gatedGraph l => l.parameters path

/-- Changes the entries of the parameters under a path. -/
def mapParameters (l : Layer α) (path : String) (f : String → Nat → α → α) : Layer α :=
  match l with
  | edgeGated l => edgeGated (l.mapParameters path f)
  | graphConv l => graphConv (l.mapParameters path f)
  | attention l => attention (l.mapParameters path f)
  | gatedGraph l => gatedGraph (l.mapParameters path f)

/-! ## Stacks -/

/-- Layers with drawn weights, one after another. -/
def drawStack [Scalar α] (c : Config α) : Nat → Generator → List (Layer α) × Generator
  | 0, g => ([], g)
  | n + 1, g =>
    let (l, g) := draw c g
    let (rest, g) := drawStack c n g
    (l :: rest, g)

/-- Applies layers one after another. After a failure the remaining ones are not applied. -/
def forwardStack [Scalar α] (edges : List (Nat × Nat)) (edgeFeatures : Option (Matrix α))
    (training : Bool) : List (Layer α) → Matrix α → Except Failure (Matrix α) × List (Layer α)
  | [], x => (.ok x, [])
  | l :: rest, x =>
    match l.forward x edges edgeFeatures training with
    | (.error failure, l) => (.error failure, l :: rest)
    | (.ok y, l) =>
      let (result, rest) := forwardStack edges edgeFeatures training rest y
      (result, l :: rest)

/-- The parameters of layers; the first layer has the number `i`. -/
def stackParameters (i : Nat) : List (Layer α) → List (Parameter α)
  | [] => []
  | l :: rest => l.parameters s!"gnn_layers.{i}" ++ stackParameters (i + 1) rest

end Layer

end PonziScreen
