import PonziScreen.Failure
import PonziScreen.Graph.Features
import PonziScreen.Scalar

/-!
# Settings of a classifier

Which layers a classifier stacks and how wide its parts are.
-/

namespace PonziScreen

/-- The kinds of message-passing layers. -/
inductive LayerKind where
  /-- Gated messages along edges, added to the features of a node. -/
  | edgeGated
  /-- A linear map of a node plus one of the sum of its neighbours. -/
  | graphConv
  /-- A mean over the neighbours, weighted by attention. -/
  | attention
  /-- Sums of messages fed to a gated recurrent unit, several times. -/
  | gatedGraph
deriving Repr, DecidableEq

namespace LayerKind

/-- The name of a model that stacks layers of this kind. -/
def modelName : LayerKind → String
  | edgeGated => "RS-GCN"
  | graphConv => "GCN"
  | attention => "GATConv"
  | gatedGraph => "GGNN"

/-- The name of the kind itself. -/
def name : LayerKind → String
  | edgeGated => "edge_gated"
  | graphConv => "graph_conv"
  | attention => "attention"
  | gatedGraph => "gated_graph"

/-- The kind of a name, or of the name of a model. -/
def ofName? (name : String) : Option LayerKind :=
  [edgeGated, graphConv, attention, gatedGraph].find? fun k => k.name = name || k.modelName = name

end LayerKind

/-- The settings of a classifier. -/
structure Config (α : Type) where
  /-- The number of features of a node. -/
  featureSize : Nat
  /-- The number of message-passing layers. -/
  layers : Nat
  dropoutRate : α
  /-- The width of the hidden layer between the pooled features and the classes. -/
  denseNeurons : Nat
  /-- The width between the two maps of the edge encoder. -/
  edgeDenseNeurons : Nat
  /-- The width of edge features as the layers see them. -/
  edgeNeurons : Nat
  /-- The width of edge features as they come in; 0 if edges have no features. -/
  edgeDim : Nat
  outChannels : Nat
  layerKind : LayerKind
  /-- Whether each edge-gated layer ends with a batch normalisation. -/
  batchNorm : Bool
  /-- The number of steps of each gated graph layer. -/
  gatedSteps : Nat
deriving Repr

namespace Config

variable {α : Type}

/-- The settings that hold where nothing else is said. -/
def initial [Scalar α] : Config α where
  featureSize := FeatureGraph.nodeWidth
  layers := 3
  dropoutRate := Scalar.ratio 1 10
  denseNeurons := 48
  edgeDenseNeurons := 8
  edgeNeurons := 8
  edgeDim := 0
  outChannels := 2
  layerKind := .edgeGated
  batchNorm := true
  gatedSteps := 3

/-- The width of edge features that reach the layers. -/
def layerEdgeDim (c : Config α) : Nat := if 0 < c.edgeDim then c.edgeNeurons else 0

/-- What is wrong with the settings, if anything. -/
def fault? [Scalar α] (c : Config α) : Option ConfigFault :=
  if c.featureSize = 0 then some .featureSize
  else if c.denseNeurons = 0 then some .denseNeurons
  else if c.outChannels ≠ 2 then some (.outChannels c.outChannels)
  else if !(Scalar.le Scalar.zero c.dropoutRate && Scalar.lt c.dropoutRate Scalar.one) then
    some (.dropoutRate (Scalar.text c.dropoutRate))
  else if c.layerKind = .gatedGraph ∧ c.gatedSteps = 0 then some .gatedSteps
  else if 0 < c.edgeDim ∧ (c.edgeDenseNeurons = 0 ∨ c.edgeNeurons = 0) then some .edgeWidths
  else none

/-- Whether a classifier can be built from the settings. -/
def validate [Scalar α] (c : Config α) : Except Failure Unit :=
  match c.fault? with
  | some fault => .error (.invalidConfig fault)
  | none => .ok ()

end Config

end PonziScreen
