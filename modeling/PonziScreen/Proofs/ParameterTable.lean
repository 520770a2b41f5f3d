import PonziScreen.Proofs.StateChanges

/-!
# Names and shapes of parameters

Which parameters a classifier has, under which names and of which shapes, is up to its settings.
Each part has a table of the names and shapes of its parameters, in their order, computed from its
sizes alone (`Config.parameterTable` for the whole). A part whose tables of numbers are of the right
shapes has exactly the parameters of that table. Running estimates are no parameters; how many there
are is given by the widths of the normalisations (`Config.normWidths`).

* `Classifier.Shaped.signatures` — the parameters of a classifier
* `Classifier.Shaped.norm_widths` — the widths of its normalisations
-/

namespace PonziScreen

variable {α : Type}

/-- A parameter without its entries: its name and its shape. -/
def Parameter.signature (p : Parameter α) : String × List Nat := (p.name, p.shape)

/-! ## Parts -/

/-- A matrix of weights with a row for each output, and a bias if there is one. -/
def Linear.parameterTable (inputs outputs : Nat) (bias : Bool) (path : String) :
    List (String × List Nat) :=
  (s!"{path}.weight", [outputs, inputs]) :: if bias then [(s!"{path}.bias", [outputs])] else []

theorem Linear.Shaped.signatures {l : Linear α} {inputs outputs : Nat} {bias : Bool}
    (h : l.Shaped inputs outputs bias) (path : String) :
    (l.parameters path).map Parameter.signature =
      Linear.parameterTable inputs outputs bias path := by
  have hweight : (Parameter.ofMatrix s!"{path}.weight" l.weight).signature =
      (s!"{path}.weight", [outputs, inputs]) := by
    rw [← h.outputs_eq, ← h.inputs_eq]
    rfl
  have hbias := h.bias_length
  unfold Linear.parameters Linear.parameterTable
  rw [List.map_cons, hweight]
  congr 1
  cases bias with
  | false =>
    have hnone : l.bias = none := by simpa using hbias
    rw [hnone]
    rfl
  | true =>
    obtain ⟨b, hb, hlength⟩ : ∃ b, l.bias = some b ∧ b.length = outputs := by
      simpa using hbias
    rw [hb, ← hlength]
    rfl

/-- A weight and a bias for each column. -/
def BatchNorm.parameterTable (width : Nat) (path : String) : List (String × List Nat) :=
  [(s!"{path}.weight", [width]), (s!"{path}.bias", [width])]

theorem BatchNorm.signatures (b : BatchNorm α) (path : String) :
    (b.parameters path).map Parameter.signature = BatchNorm.parameterTable b.width path := by
  simp [parameters, parameterTable, Parameter.ofList, Parameter.signature, width]

/-- Both projections onto the three gates. -/
def GruCell.parameterTable (inputs size : Nat) (path : String) : List (String × List Nat) :=
  Linear.parameterTable inputs (3 * size) true s!"{path}.input" ++
    Linear.parameterTable size (3 * size) true s!"{path}.hidden"

theorem GruCell.Shaped.signatures {cell : GruCell α} {inputs size : Nat}
    (h : cell.Shaped inputs size) (path : String) :
    (cell.parameters path).map Parameter.signature =
      GruCell.parameterTable inputs size path := by
  unfold GruCell.parameters GruCell.parameterTable
  rw [List.map_append, h.input.signatures, h.hidden.signatures]

/-! ## Layers -/

def EdgeGated.parameterTable (channels edgeDim : Nat) (norm : Bool) (path : String) :
    List (String × List Nat) :=
  Linear.parameterTable (channels + edgeDim) channels true s!"{path}.line_attention" ++
    Linear.parameterTable (channels + edgeDim) channels true s!"{path}.line_node" ++
    if norm then BatchNorm.parameterTable channels s!"{path}.bn" else []

theorem EdgeGated.Shaped.signatures {layer : EdgeGated α} {channels edgeDim : Nat} {norm : Bool}
    (h : layer.Shaped channels edgeDim norm) (path : String) :
    (layer.parameters path).map Parameter.signature =
      EdgeGated.parameterTable channels edgeDim norm path := by
  unfold EdgeGated.parameters EdgeGated.parameterTable
  rw [List.map_append, List.map_append, h.lineAttention.signatures, h.lineNode.signatures]
  congr 1
  have hnorm := h.norm_width
  cases norm with
  | false =>
    have hnone : layer.norm = none := by simpa using hnorm
    rw [hnone]
    rfl
  | true =>
    obtain ⟨b, hb, hwidth⟩ : ∃ b, layer.norm = some b ∧ b.width = channels := by
      simpa using hnorm
    rw [hb, ← hwidth]
    exact b.signatures _

def GraphConv.parameterTable (channels : Nat) (path : String) : List (String × List Nat) :=
  Linear.parameterTable channels channels true s!"{path}.lin_rel" ++
    Linear.parameterTable channels channels false s!"{path}.lin_root"

theorem GraphConv.Shaped.signatures {layer : GraphConv α} {channels : Nat}
    (h : layer.Shaped channels) (path : String) :
    (layer.parameters path).map Parameter.signature = GraphConv.parameterTable channels path := by
  unfold GraphConv.parameters GraphConv.parameterTable
  rw [List.map_append, h.related.signatures, h.root.signatures]

def Attention.parameterTable (channels : Nat) (path : String) : List (String × List Nat) :=
  Linear.parameterTable channels channels false s!"{path}.lin" ++
    [(s!"{path}.att_src", [channels]), (s!"{path}.att_dst", [channels]),
      (s!"{path}.bias", [channels])]

theorem Attention.Shaped.signatures {layer : Attention α} {channels : Nat}
    (h : layer.Shaped channels) (path : String) :
    (layer.parameters path).map Parameter.signature = Attention.parameterTable channels path := by
  unfold Attention.parameters Attention.parameterTable
  rw [List.map_append, h.map.signatures]
  simp [Parameter.ofList, Parameter.signature, h.sourceScore_length, h.targetScore_length,
    h.bias_length]

/-- The maps of `n` steps, the first of which has the number `i`. -/
def GatedGraph.stepTable (channels : Nat) (path : String) (i : Nat) :
    Nat → List (String × List Nat)
  | 0 => []
  | n + 1 =>
    Linear.parameterTable channels channels false s!"{path}.weight.{i}" ++
      stepTable channels path (i + 1) n

theorem GatedGraph.signatures_stepParameters {channels : Nat} {steps : List (Linear α)}
    (h : ∀ w ∈ steps, w.Shaped channels channels false) (path : String) (i : Nat) :
    (GatedGraph.stepParameters path i steps).map Parameter.signature =
      GatedGraph.stepTable channels path i steps.length := by
  induction steps generalizing i with
  | nil => rfl
  | cons w rest ih =>
    unfold GatedGraph.stepParameters
    rw [List.map_append, (h w List.mem_cons_self).signatures,
      ih fun k hk => h k (List.mem_cons_of_mem _ hk)]
    rfl

def GatedGraph.parameterTable (channels steps : Nat) (path : String) :
    List (String × List Nat) :=
  GatedGraph.stepTable channels path 0 steps ++
    GruCell.parameterTable channels channels s!"{path}.rnn"

theorem GatedGraph.Shaped.signatures {layer : GatedGraph α} {channels steps : Nat}
    (h : layer.Shaped channels steps) (path : String) :
    (layer.parameters path).map Parameter.signature =
      GatedGraph.parameterTable channels steps path := by
  unfold GatedGraph.parameters GatedGraph.parameterTable
  rw [List.map_append, GatedGraph.signatures_stepParameters h.steps_shaped, h.steps_length,
    h.cell.signatures]

/-! ## The whole -/

namespace Config

/-- The parameters of one layer. -/
def layerTable (c : Config α) (path : String) : List (String × List Nat) :=
  match c.layerKind with
  | .edgeGated => EdgeGated.parameterTable c.featureSize c.layerEdgeDim c.batchNorm path
  | .graphConv => GraphConv.parameterTable c.featureSize path
  | .attention => Attention.parameterTable c.featureSize path
  | .gatedGraph => GatedGraph.parameterTable c.featureSize c.gatedSteps path

/-- The parameters of `n` layers, the first of which has the number `i`. -/
def stackTable (c : Config α) (i : Nat) : Nat → List (String × List Nat)
  | 0 => []
  | n + 1 => c.layerTable s!"gnn_layers.{i}" ++ c.stackTable (i + 1) n

/-- The parameters of the maps that edge features go through, if edges have features. -/
def encoderTable (c : Config α) : List (String × List Nat) :=
  if 0 < c.edgeDim then
    Linear.parameterTable c.edgeDim c.edgeDenseNeurons true "linear_edge1" ++
      Linear.parameterTable c.edgeDenseNeurons c.edgeNeurons true "linear_edge2"
  else []

/-- The names and shapes of all parameters of a classifier. -/
def parameterTable (c : Config α) : List (String × List Nat) :=
  c.encoderTable ++ c.stackTable 0 c.layers ++
    Linear.parameterTable c.featureSize c.denseNeurons true "linear1" ++
    BatchNorm.parameterTable c.denseNeurons "bn2" ++
    Linear.parameterTable c.denseNeurons c.outChannels true "linear2"

/-- The widths of all normalisations of a classifier: those of its layers, and that of its head. -/
def normWidths (c : Config α) : List Nat :=
  (if c.layerKind = .edgeGated ∧ c.batchNorm = true then List.replicate c.layers c.featureSize
    else []) ++ [c.denseNeurons]

end Config

namespace Layer

theorem Shaped.signatures {c : Config α} {l : Layer α} (h : l.Shaped c) (path : String) :
    (l.parameters path).map Parameter.signature = c.layerTable path := by
  unfold Config.layerTable
  cases l with
  | edgeGated layer =>
    rw [h.1]
    exact EdgeGated.Shaped.signatures h.2 path
  | graphConv layer =>
    rw [h.1]
    exact GraphConv.Shaped.signatures h.2 path
  | attention layer =>
    rw [h.1]
    exact Attention.Shaped.signatures h.2 path
  | gatedGraph layer =>
    rw [h.1]
    exact GatedGraph.Shaped.signatures h.2 path

theorem signatures_stackParameters {c : Config α} {layers : List (Layer α)}
    (h : ∀ l ∈ layers, l.Shaped c) (i : Nat) :
    (stackParameters i layers).map Parameter.signature = c.stackTable i layers.length := by
  induction layers generalizing i with
  | nil => rfl
  | cons l rest ih =>
    unfold stackParameters
    rw [List.map_append, (h l List.mem_cons_self).signatures,
      ih fun k hk => h k (List.mem_cons_of_mem _ hk)]
    rfl

/-- Only edge-gated layers may have a normalisation, and then it is as wide as the features. -/
theorem Shaped.norm?_width {c : Config α} {l : Layer α} (h : l.Shaped c) :
    l.norm?.map BatchNorm.width =
      if c.layerKind = .edgeGated ∧ c.batchNorm = true then some c.featureSize else none := by
  cases l with
  | edgeGated layer =>
    simp only [h.1, true_and]
    exact h.2.norm_width
  | graphConv layer => simp [norm?, h.1]
  | attention layer => simp [norm?, h.1]
  | gatedGraph layer => simp [norm?, h.1]

/-- All layers of a stack have one, or none has. -/
theorem norm_widths {c : Config α} {layers : List (Layer α)} (h : ∀ l ∈ layers, l.Shaped c) :
    (layers.filterMap norm?).map BatchNorm.width =
      if c.layerKind = .edgeGated ∧ c.batchNorm = true then
        List.replicate layers.length c.featureSize else [] := by
  rw [List.map_filterMap, List.filterMap_congr fun l hl => (h l hl).norm?_width]
  split
  · rw [List.filterMap_eq_map', List.map_const']
  · exact List.filterMap_none layers

end Layer

namespace Classifier

variable [Scalar α]

/-- The parameters of a classifier have the names and the shapes that its settings ask for. -/
theorem Shaped.signatures {m : Classifier α} (h : m.Shaped) :
    m.parameters.map Parameter.signature = m.config.parameterTable := by
  have hencoder : ((m.edgeEncoder.map fun e => e.first.parameters "linear_edge1" ++
      e.second.parameters "linear_edge2").getD []).map Parameter.signature =
      m.config.encoderTable := by
    have hsome := h.encoder_isSome
    unfold Config.encoderTable
    cases he : m.edgeEncoder with
    | none =>
      have hd : ¬ 0 < m.config.edgeDim := by simpa [he] using hsome
      rw [if_neg hd]
      rfl
    | some e =>
      have hd : 0 < m.config.edgeDim := by simpa [he] using hsome
      have hshaped := h.encoder e he
      rw [if_pos hd, ← hshaped.first.signatures, ← hshaped.second.signatures]
      exact List.map_append
  unfold parameters Config.parameterTable
  simp only [List.map_append]
  rw [hencoder, Layer.signatures_stackParameters h.layers, h.layers_length, h.hidden.signatures,
    m.norm.signatures, h.norm_width, h.output.signatures]

/-- The normalisations of a classifier have the widths that its settings ask for. -/
theorem Shaped.norm_widths {m : Classifier α} (h : m.Shaped) :
    m.norms.map BatchNorm.width = m.config.normWidths := by
  unfold norms Config.normWidths
  rw [List.map_append, Layer.norm_widths h.layers, h.layers_length, List.map_singleton,
    h.norm_width]

end Classifier

end PonziScreen
