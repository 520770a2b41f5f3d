import PonziScreen.Json.Float
import PonziScreen.Json.Reader
import PonziScreen.Json.Record
import PonziScreen.Network.Config

/-!
# Settings as JSON

Settings are a record in which every field may be missing. Most fields are also known by the
upper-case names that training scripts use.
-/

namespace PonziScreen

/-- Reads a kind of layer by its name or by the name of its model. -/
def LayerKind.ofJson? (j : Json) : Option LayerKind := j.unitVariant?.bind ofName?

namespace Config

/-- The fields of the settings. -/
def fields : List FieldName :=
  [⟨"feature_size", ["MODEL_FEAT_SIZE"]⟩, ⟨"layers", ["MODEL_LAYERS"]⟩,
    ⟨"dropout_rate", ["MODEL_DROPOUT_RATE"]⟩, ⟨"dense_neurons", ["MODEL_DENSE_NEURONS"]⟩,
    ⟨"edge_dense_neurons", ["MODEL_EDGE_DENSE_NEURONS"]⟩,
    ⟨"edge_neurons", ["MODEL_EDGE_NEURONS"]⟩, ⟨"edge_dim", ["MODEL_EDGE_DIM"]⟩,
    ⟨"out_channels", ["MODEL_OUT_CHANNELS"]⟩, .only "layer_kind", .only "batch_norm",
    .only "gated_steps"]

/-- Reads settings. A missing field has its initial value. -/
def ofJson? (j : Json) : Option (Config Float32) := do
  let d : Config Float32 := initial
  let f ← j.fields? fields
  let featureSize ← f.default? "feature_size" d.featureSize Json.word?
  let layers ← f.default? "layers" d.layers Json.word?
  let dropoutRate ← f.default? "dropout_rate" d.dropoutRate Json.float32?
  let denseNeurons ← f.default? "dense_neurons" d.denseNeurons Json.word?
  let edgeDenseNeurons ← f.default? "edge_dense_neurons" d.edgeDenseNeurons Json.word?
  let edgeNeurons ← f.default? "edge_neurons" d.edgeNeurons Json.word?
  let edgeDim ← f.default? "edge_dim" d.edgeDim Json.word?
  let outChannels ← f.default? "out_channels" d.outChannels Json.word?
  let layerKind ← f.default? "layer_kind" d.layerKind LayerKind.ofJson?
  let batchNorm ← f.default? "batch_norm" d.batchNorm Json.bool?
  let gatedSteps ← f.default? "gated_steps" d.gatedSteps Json.word?
  return {
    featureSize, layers, dropoutRate, denseNeurons, edgeDenseNeurons, edgeNeurons, edgeDim,
    outChannels, layerKind, batchNorm, gatedSteps }

/-- Reads settings from a text without asking whether they can be used. -/
def parse (text : String) : Except Failure (Config Float32) :=
  match (Json.ofText? text).bind ofJson? with
  | some c => .ok c
  | none => .error .json

/-- Reads settings that can be used from a text. -/
def ofText (text : String) : Except Failure (Config Float32) := do
  let c ← parse text
  c.validate
  return c

/-- Reads settings from the bytes of a file, or from a file that is not there. -/
def ofFile (content : Option ByteArray) : Except Failure (Config Float32) :=
  match content.bind String.fromUTF8? with
  | some text => ofText text
  | none => .error .io

end Config

end PonziScreen
