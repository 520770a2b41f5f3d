/-!
# Failures

Everything that can go wrong, as a cause. The wording of each cause is in one place,
`Failure.message`; what a failure is called in a log or a protocol is for the caller to say.

Two are different in kind from the rest. `Failure.misaligned` stands for an index past the end of a
table or for two tables that cannot be laid over each other, and `Failure.tooLarge` for a matrix
that no memory can hold. The other causes are answers about the input; these say that an operation
was asked for something that does not exist, and a program ends there.
-/

namespace PonziScreen

/-! ## Shapes that do not fit -/

/-- Two sizes that should agree and do not, with the numbers that the message shows. -/
inductive ShapeFault where
  /-- A linear map got rows of the wrong width. -/
  | linearInput (expected got : Nat)
  /-- A batch normalisation got rows of the wrong width. -/
  | normWidth (expected got : Nat)
  /-- A batch normalisation in training has too few rows for a variance. -/
  | normRows (got : Nat)
  /-- A loss compares matrices of two shapes. -/
  | lossShapes (inputRows inputWidth targetRows targetWidth : Nat)
  /-- An edge ends at a node that does not exist. -/
  | edgeRange (source target nodes : Nat)
  /-- A graph does not have one feature row per edge. -/
  | edgeRows (rows edges : Nat)
  /-- A graph of a batch has a feature width of its own. -/
  | graphWidth (graph got expected : Nat)
  /-- A graph of a batch has edge features and the first has not, or the reverse. -/
  | edgePresence (graph : Nat)
  /-- A layer got node features of the wrong width. -/
  | channels (expected got : Nat)
  /-- A layer got edge features of the wrong shape. -/
  | edgeShape (rows width edges expected : Nat)
  /-- A layer needs edge features and got none. -/
  | edgesMissing (expected : Nat)
  /-- A classifier got a batch with node features of the wrong width. -/
  | modelWidth (expected got : Nat)
  /-- The graph index of a batch does not cover its nodes. -/
  | batchIndex (covered rows : Nat)
  /-- The graph index of a batch names a graph past the last one. -/
  | graphRange (graph count : Nat)
  /-- A classifier needs edge features and the batch has none. -/
  | modelEdges (expected : Nat)
deriving Repr, DecidableEq

/-- The wording of a shape fault. -/
def ShapeFault.detail : ShapeFault → String
  | linearInput e g => s!"linear layer expects {e} input features, got {g}"
  | normWidth e g => s!"batch norm expects {e} features, got {g}"
  | normRows g => s!"batch norm needs more than 1 value per channel when training, got {g}"
  | lossShapes r w r₂ w₂ => s!"cross entropy input ({r}, {w}) vs target ({r₂}, {w₂})"
  | edgeRange s t n => s!"edge ({s}, {t}) out of range for {n} nodes"
  | edgeRows r e => s!"{r} edge feature rows for {e} edges"
  | graphWidth i g e => s!"graph {i} has {g} node features, expected {e}"
  | edgePresence i => s!"graph {i} disagrees with the batch on edge features"
  | channels e g => s!"layer has {e} channels, node features have {g}"
  | edgeShape r w n d => s!"edge features ({r}, {w}) for {n} edges, layer edge dim {d}"
  | edgesMissing d => s!"layer expects {d}-wide edge features, none given"
  | modelWidth e g => s!"model expects {e} node features, batch has {g}"
  | batchIndex c r => s!"batch index covers {c} nodes, features have {r}"
  | graphRange g n => s!"node assigned to graph {g} of {n}"
  | modelEdges d => s!"model expects {d}-wide edge features, batch has none"

/-! ## Settings that are refused -/

/-- A setting of a classifier that cannot be used. -/
inductive ConfigFault where
  | featureSize
  | denseNeurons
  | outChannels (got : Nat)
  /-- The rate is kept as its text, which is all the message needs of it. -/
  | dropoutRate (got : String)
  | gatedSteps
  | edgeWidths
deriving Repr, DecidableEq

/-- The wording of a refused setting. -/
def ConfigFault.detail : ConfigFault → String
  | featureSize => "feature_size must be positive"
  | denseNeurons => "dense_neurons must be positive"
  | outChannels g => s!"out_channels must be 2 for binary classification, got {g}"
  | dropoutRate g => s!"dropout_rate must be in [0, 1), got {g}"
  | gatedSteps => "gated_steps must be positive"
  | edgeWidths => "edge encoder widths must be positive when edge_dim is set"

/-! ## All failures -/

/-- The causes for which an operation gives no result. -/
inductive Failure where
  /-- The weights of a model are no longer finite. -/
  | diverged (detail : String)
  | shapeMismatch (fault : ShapeFault)
  | invalidConfig (fault : ConfigFault)
  /-- A graph that has to carry a label carries none. -/
  | missingLabel (graph : Nat)
  /-- An analyzer could not read the contract. -/
  | analysis (detail : String)
  /-- An analyzer could not run its model. -/
  | model (detail : String)
  /-- A text is no JSON, or not the JSON of what was asked for. -/
  | json
  /-- A file could not be read as text. -/
  | io
  /-- Rows of several widths cannot be stacked. -/
  | unevenRows
  /-- A matrix was asked for that is larger than any block of memory. -/
  | tooLarge
  /-- An index or a shape that does not exist was asked for. -/
  | misaligned
deriving Repr, DecidableEq

/-- The wording of a failure; `none` where the wording is not fixed. -/
def Failure.message : Failure → Option String
  | diverged d => some s!"Exploding gradients, tune learning rate: {d}"
  | shapeMismatch f => some s!"Shape mismatch: {f.detail}"
  | invalidConfig f => some s!"Invalid model config: {f.detail}"
  | missingLabel n => some s!"Graph {n} has no label"
  | analysis d => some s!"Contract analysis failed: {d}"
  | model d => some s!"ML model error: {d}"
  | json | io | unevenRows | tooLarge | misaligned => none

/-- The element at an index, or `misaligned` past the end. -/
def pick {β : Type} (items : List β) (i : Nat) : Except Failure β :=
  match items[i]? with
  | some b => .ok b
  | none => .error .misaligned

end PonziScreen
