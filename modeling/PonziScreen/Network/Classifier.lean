import PonziScreen.Graph.Batch
import PonziScreen.Network.Layer.Basic

/-!
# Classifiers

A classifier of graphs: a stack of message-passing layers, a maximum over the nodes of each graph,
and two linear maps that give a score to each of two classes. The scores are squashed one by one, so
a row of them is no distribution; the class with the greater score is the answer.

A classifier is a value. Using it gives the classifier as it is afterwards: in training, running
estimates and the random numbers for dropout move on, even when the result is a failure.
-/

namespace PonziScreen

/-- Two linear maps from raw edge features to those that the layers see. -/
structure EdgeEncoder (α : Type) where
  first : Linear α
  second : Linear α

/-- A classifier. -/
structure Classifier (α : Type) where
  config : Config α
  edgeEncoder : Option (EdgeEncoder α)
  layers : List (Layer α)
  hidden : Linear α
  norm : BatchNorm α
  output : Linear α
  training : Bool
  generator : Generator

variable {α : Type}

namespace EdgeEncoder

/-- An encoder with drawn weights. -/
def draw [Scalar α] (c : Config α) (g : Generator) : EdgeEncoder α × Generator :=
  let (first, g) := Linear.draw c.edgeDim c.edgeDenseNeurons true g
  let (second, g) := Linear.draw c.edgeDenseNeurons c.edgeNeurons true g
  (⟨first, second⟩, g)

/-- Encodes edge features. -/
def apply [Scalar α] (e : EdgeEncoder α) (x : Matrix α) : Except Failure (Matrix α) := do
  e.second.apply (← e.first.apply x)

end EdgeEncoder

namespace Classifier

/-! ## Building -/

/-- A classifier with weights drawn from the generator of a seed. Dropout goes on with the same
generator. -/
def build [Scalar α] (c : Config α) (seed : UInt64) : Except Failure (Classifier α) := do
  c.validate
  let g := Generator.ofSeed seed
  let (edgeEncoder, g) :=
    if 0 < c.edgeDim then
      let (e, g) := EdgeEncoder.draw c g
      (some e, g)
    else (none, g)
  let (layers, g) := Layer.drawStack c c.layers g
  let (hidden, g) := Linear.draw c.featureSize c.denseNeurons true g
  let (output, g) := Linear.draw c.denseNeurons c.outChannels true g
  return {
    config := c, edgeEncoder, layers, hidden, norm := .initial c.denseNeurons, output,
    training := true, generator := g }

/-- The name of the model. -/
def modelName (m : Classifier α) : String := m.config.layerKind.modelName

/-- The classifier in training mode. -/
def train (m : Classifier α) : Classifier α := { m with training := true }

/-- The classifier in evaluation mode. -/
def eval (m : Classifier α) : Classifier α := { m with training := false }

/-! ## Scores -/

variable [Scalar α]

/-- The failure of a classifier whose output weights are no longer finite. -/
def divergence? (m : Classifier α) : Option Failure :=
  let weights := m.output.weight.entries
  if weights.isEmpty then some (.diverged "mean of output layer weight is NaN")
  else
    let mean := Scalar.laneSum weights / Scalar.ofNat weights.length
    if Scalar.isFinite mean then none
    else some (.diverged s!"mean of output layer weight is {Scalar.text mean}")

omit [Scalar α] in
/-- What is wrong with the nodes of a batch for this classifier, if anything. -/
def batchFault? (m : Classifier α) (b : Batch α) : Option ShapeFault :=
  if b.features.width ≠ m.config.featureSize then
    some (.modelWidth m.config.featureSize b.features.width)
  else if b.graphOf.length ≠ b.features.height then
    some (.batchIndex b.graphOf.length b.features.height)
  else (b.graphOf.find? fun g => b.graphCount ≤ g).map fun g => .graphRange g b.graphCount

/-- The edge features of a batch as the layers see them. -/
def encodeEdges (m : Classifier α) (b : Batch α) : Except Failure (Option (Matrix α)) :=
  match m.edgeEncoder, b.edgeFeatures with
  | some encoder, some e => (encoder.apply e).map some
  | some _, none => .error (.shapeMismatch (.modelEdges m.config.edgeDim))
  | none, _ => .ok none

/-- The scores for pooled features: a row for each graph. -/
def head (m : Classifier α) (pooled : Matrix α) : Except Failure (Matrix α) × Classifier α :=
  let (h, generator) :=
    if m.training then dropout m.config.dropoutRate pooled m.generator else (pooled, m.generator)
  let m := { m with generator }
  match m.hidden.apply h with
  | .error failure => (.error failure, m)
  | .ok h =>
    let (h, norm) := m.norm.forward (h.map relu) m.training
    let m := { m with norm }
    match h with
    | .error failure => (.error failure, m)
    | .ok h => ((m.output.apply h).map (Matrix.map sigmoid), m)

/-- The scores of a batch that has passed the first checks: layers, maximum and head. -/
def score (m : Classifier α) (b : Batch α) (edgeFeatures : Option (Matrix α)) :
    Except Failure (Matrix α) × Classifier α :=
  let (x, layers) := Layer.forwardStack b.edges edgeFeatures m.training m.layers b.features
  let m := { m with layers }
  match x with
  | .error failure => (.error failure, m)
  | .ok x =>
    match x.maxPool b.graphOf b.graphCount with
    | .error failure => (.error failure, m)
    | .ok pooled => m.head pooled

/-- The scores of a batch: a row for each graph and a column for each class. -/
def forward (m : Classifier α) (b : Batch α) : Except Failure (Matrix α) × Classifier α :=
  match m.divergence? with
  | some failure => (.error failure, m)
  | none =>
    if b.graphCount = 0 then (.ok (Matrix.zeros 0 m.config.outChannels), m)
    else
      match m.batchFault? b with
      | some fault => (.error (.shapeMismatch fault), m)
      | none =>
        match m.encodeEdges b with
        | .error failure => (.error failure, m)
        | .ok edgeFeatures => m.score b edgeFeatures

/-- The class of each graph of a batch; 1 means a Ponzi scheme. -/
def predict (m : Classifier α) (b : Batch α) : Except Failure (List Nat) × Classifier α :=
  let (scores, m) := m.forward b
  (scores.map Matrix.argmaxRows, m)

/-! ## Room

The entries of a matrix lie in one block of memory, and no block has `2 ^ 63` bytes. Most matrices
of a pass are made from what has been stored already, the batch and the classifier, and that there
is room for them is taken for granted. The head is different: it has a row for each graph, with or
without nodes, and a batch may be said to have any number of graphs. `forward` takes room for all
these rows for granted as well, and `forwardStored` does not. -/

/-- Whether there is room for the matrices of the head: for each of some graphs the pooled features,
the hidden units and the scores, with four bytes for an entry. A single row is no larger than the
weights that it is multiplied with. -/
def hasRoom (m : Classifier α) (graphs : Nat) : Bool :=
  let width := max m.config.featureSize (max m.config.denseNeurons m.config.outChannels)
  graphs ≤ 1 || 4 * (graphs * width) < 1 <<< 63

/-- Whether a pass comes to the head, with nothing before that refuses the batch. -/
def reachesHead (m : Classifier α) (b : Batch α) : Bool :=
  m.divergence?.isNone && (m.batchFault? b).isNone &&
    match m.encodeEdges b with
    | .error _ => false
    | .ok edgeFeatures =>
      (Layer.forwardStack b.edges edgeFeatures m.training m.layers b.features).1.isOk

/-- The scores of a batch, for which there may be no room. The first matrix that cannot be stored
ends the program, and the classifier with it. -/
def forwardStored (m : Classifier α) (b : Batch α) : Except Failure (Matrix α) × Classifier α :=
  if m.hasRoom b.graphCount || !m.reachesHead b then m.forward b else (.error .tooLarge, m)

/-! ## Parameters -/

omit [Scalar α]

/-- The parameters of a classifier. -/
def parameters (m : Classifier α) : List (Parameter α) :=
  (m.edgeEncoder.map fun e =>
    e.first.parameters "linear_edge1" ++ e.second.parameters "linear_edge2").getD [] ++
  Layer.stackParameters 0 m.layers ++ m.hidden.parameters "linear1" ++ m.norm.parameters "bn2" ++
    m.output.parameters "linear2"

/-- Changes the entries of the parameters. The function gets the name of the parameter, the position
of the entry, row by row, and its old value. -/
def mapParameters (m : Classifier α) (f : String → Nat → α → α) : Classifier α :=
  { m with
    edgeEncoder := m.edgeEncoder.map fun e =>
      ⟨e.first.mapParameters "linear_edge1" f, e.second.mapParameters "linear_edge2" f⟩
    layers := m.layers.mapIdx fun i l => l.mapParameters s!"gnn_layers.{i}" f
    hidden := m.hidden.mapParameters "linear1" f
    norm := m.norm.mapParameters "bn2" f
    output := m.output.mapParameters "linear2" f }

/-- The parameter of a name. -/
def parameter? (m : Classifier α) (name : String) : Option (Parameter α) :=
  m.parameters.find? fun p => p.name = name

end Classifier

end PonziScreen
