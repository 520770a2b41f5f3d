import PonziScreen.Network.Classifier

/-!
# The shapes of a classifier

A classifier is built from settings, and from then on only numbers change in it: parameters are
overwritten entry by entry, and running estimates move. `Classifier.Shaped` says that every table
still has the shape that the settings ask for. It leaves all numbers free, and it is what the other
theorems assume of a classifier.

* `Classifier.build_shaped` — a new classifier has the shapes of its settings
* `Classifier.mapParameters_shaped`, `Classifier.forward_shaped` — and keeps them
-/

namespace PonziScreen

variable {α : Type}

/-! ## Settings -/

/-- The settings that a classifier can be built from. -/
theorem Config.fault?_eq_none [Scalar α] {c : Config α} :
    c.fault? = none ↔ c.featureSize ≠ 0 ∧ c.denseNeurons ≠ 0 ∧ c.outChannels = 2 ∧
      (Scalar.le Scalar.zero c.dropoutRate = true ∧ Scalar.lt c.dropoutRate Scalar.one = true) ∧
      (c.layerKind = .gatedGraph → c.gatedSteps ≠ 0) ∧
      (0 < c.edgeDim → c.edgeDenseNeurons ≠ 0 ∧ c.edgeNeurons ≠ 0) := by
  unfold Config.fault?
  constructor
  · intro h
    repeat' split at h
    all_goals simp_all
  · rintro ⟨h₁, h₂, h₃, h₄, h₅, h₆⟩
    repeat' split
    all_goals simp_all

/-! ## Parts -/

/-- A linear map with given numbers of inputs and outputs, with or without a bias. -/
structure Linear.Shaped (l : Linear α) (inputs outputs : Nat) (bias : Bool) : Prop where
  inputs_eq : l.inputs = inputs
  outputs_eq : l.outputs = outputs
  bias_length : l.bias.map List.length = if bias then some outputs else none

theorem Linear.Shaped.length_bias {l : Linear α} {inputs outputs : Nat} {bias : Bool}
    (h : l.Shaped inputs outputs bias) {b : List α} (hb : l.bias = some b) :
    b.length = outputs := by
  have hlength := h.bias_length
  rw [hb] at hlength
  cases bias with
  | false => simp at hlength
  | true => simpa using hlength

/-- A cell with `size` columns of state, and both projections onto its three gates. -/
structure GruCell.Shaped (cell : GruCell α) (inputs size : Nat) : Prop where
  size_eq : cell.size = size
  input : cell.input.Shaped inputs (3 * size) true
  hidden : cell.hidden.Shaped size (3 * size) true

/-- An edge-gated layer. Its two maps read a node and an edge. -/
structure EdgeGated.Shaped (layer : EdgeGated α) (channels edgeDim : Nat) (norm : Bool) : Prop where
  channels_eq : layer.channels = channels
  edgeDim_eq : layer.edgeDim = edgeDim
  lineAttention : layer.lineAttention.Shaped (channels + edgeDim) channels true
  lineNode : layer.lineNode.Shaped (channels + edgeDim) channels true
  norm_width : layer.norm.map BatchNorm.width = if norm then some channels else none

structure GraphConv.Shaped (layer : GraphConv α) (channels : Nat) : Prop where
  channels_eq : layer.channels = channels
  related : layer.related.Shaped channels channels true
  root : layer.root.Shaped channels channels false

structure Attention.Shaped (layer : Attention α) (channels : Nat) : Prop where
  channels_eq : layer.channels = channels
  map : layer.map.Shaped channels channels false
  sourceScore_length : layer.sourceScore.length = channels
  targetScore_length : layer.targetScore.length = channels
  bias_length : layer.bias.length = channels

structure GatedGraph.Shaped (layer : GatedGraph α) (channels steps : Nat) : Prop where
  channels_eq : layer.channels = channels
  steps_length : layer.steps.length = steps
  steps_shaped : ∀ w ∈ layer.steps, w.Shaped channels channels false
  cell : layer.cell.Shaped channels channels

/-- A layer of the kind and the shapes that the settings ask for. -/
def Layer.Shaped (c : Config α) : Layer α → Prop
  | .edgeGated l => c.layerKind = .edgeGated ∧ l.Shaped c.featureSize c.layerEdgeDim c.batchNorm
  | .graphConv l => c.layerKind = .graphConv ∧ l.Shaped c.featureSize
  | .attention l => c.layerKind = .attention ∧ l.Shaped c.featureSize
  | .gatedGraph l => c.layerKind = .gatedGraph ∧ l.Shaped c.featureSize c.gatedSteps

structure EdgeEncoder.Shaped (e : EdgeEncoder α) (c : Config α) : Prop where
  first : e.first.Shaped c.edgeDim c.edgeDenseNeurons true
  second : e.second.Shaped c.edgeDenseNeurons c.edgeNeurons true

/-- A classifier with valid settings whose tables have the shapes that the settings ask for. The
entries of the tables are free. -/
structure Classifier.Shaped [Scalar α] (m : Classifier α) : Prop where
  valid : m.config.fault? = none
  encoder_isSome : m.edgeEncoder.isSome = decide (0 < m.config.edgeDim)
  encoder : ∀ e ∈ m.edgeEncoder, e.Shaped m.config
  layers_length : m.layers.length = m.config.layers
  layers : ∀ l ∈ m.layers, l.Shaped m.config
  hidden : m.hidden.Shaped m.config.featureSize m.config.denseNeurons true
  norm_width : m.norm.width = m.config.denseNeurons
  output : m.output.Shaped m.config.denseNeurons m.config.outChannels true

/-! ## Drawn parts -/

section Draw

variable [Scalar α]

theorem Linear.length_drawRows (bound : α) (width n : Nat) (g : Generator) :
    (Linear.drawRows bound width n g).1.length = n := by
  induction n generalizing g with
  | zero => rfl
  | succ n ih => simp [Linear.drawRows, ih]

theorem Linear.draw_shaped (inputs outputs : Nat) (bias : Bool) (g : Generator) :
    (Linear.draw inputs outputs bias g : Linear α × Generator).1.Shaped inputs outputs bias := by
  cases bias with
  | false => exact ⟨rfl, Linear.length_drawRows .., rfl⟩
  | true =>
    refine ⟨rfl, Linear.length_drawRows .., ?_⟩
    simp [Linear.draw, Generator.length_symmetricList]

theorem GruCell.draw_shaped (inputs size : Nat) (g : Generator) :
    (GruCell.draw inputs size g : GruCell α × Generator).1.Shaped inputs size :=
  ⟨rfl, Linear.draw_shaped inputs (3 * size) true g, Linear.draw_shaped size (3 * size) true _⟩

theorem BatchNorm.width_initial (width : Nat) :
    (BatchNorm.initial width : BatchNorm α).width = width :=
  List.length_replicate

theorem EdgeGated.draw_shaped (channels edgeDim : Nat) (norm : Bool) (g : Generator) :
    (EdgeGated.draw channels edgeDim norm g : EdgeGated α × Generator).1.Shaped channels edgeDim
      norm := by
  refine ⟨rfl, rfl, Linear.draw_shaped (channels + edgeDim) channels true g,
    Linear.draw_shaped (channels + edgeDim) channels true _, ?_⟩
  cases norm with
  | false => rfl
  | true => exact congrArg some (BatchNorm.width_initial channels)

theorem GraphConv.draw_shaped (channels : Nat) (g : Generator) :
    (GraphConv.draw channels g : GraphConv α × Generator).1.Shaped channels :=
  ⟨rfl, Linear.draw_shaped channels channels true g, Linear.draw_shaped channels channels false _⟩

theorem Attention.draw_shaped (channels : Nat) (g : Generator) :
    (Attention.draw channels g : Attention α × Generator).1.Shaped channels :=
  ⟨rfl, Linear.draw_shaped channels channels false g, Generator.length_symmetricList _ channels _,
    Generator.length_symmetricList _ channels _, List.length_replicate⟩

theorem GatedGraph.drawSteps_shaped (channels n : Nat) (g : Generator) :
    (GatedGraph.drawSteps channels n g : List (Linear α) × Generator).1.length = n ∧
      ∀ w ∈ (GatedGraph.drawSteps channels n g : List (Linear α) × Generator).1,
        w.Shaped channels channels false := by
  induction n generalizing g with
  | zero => simp [GatedGraph.drawSteps]
  | succ n ih =>
    obtain ⟨hlength, hshaped⟩ := ih (Linear.draw channels channels false g : Linear α × Generator).2
    refine ⟨by simp [GatedGraph.drawSteps, hlength], ?_⟩
    intro w hw
    rcases List.mem_cons.1 hw with rfl | hw
    · exact Linear.draw_shaped channels channels false g
    · exact hshaped w hw

theorem GatedGraph.draw_shaped (channels steps : Nat) (g : Generator) :
    (GatedGraph.draw channels steps g : GatedGraph α × Generator).1.Shaped channels steps :=
  ⟨rfl, (GatedGraph.drawSteps_shaped channels steps g).1,
    (GatedGraph.drawSteps_shaped channels steps g).2, GruCell.draw_shaped ..⟩

theorem Layer.draw_shaped (c : Config α) (g : Generator) : (Layer.draw c g).1.Shaped c := by
  unfold Layer.draw
  cases hk : c.layerKind with
  | edgeGated => exact ⟨hk, EdgeGated.draw_shaped ..⟩
  | graphConv => exact ⟨hk, GraphConv.draw_shaped ..⟩
  | attention => exact ⟨hk, Attention.draw_shaped ..⟩
  | gatedGraph => exact ⟨hk, GatedGraph.draw_shaped ..⟩

theorem Layer.drawStack_shaped (c : Config α) (n : Nat) (g : Generator) :
    (Layer.drawStack c n g).1.length = n ∧ ∀ l ∈ (Layer.drawStack c n g).1, l.Shaped c := by
  induction n generalizing g with
  | zero => simp [Layer.drawStack]
  | succ n ih =>
    obtain ⟨hlength, hshaped⟩ := ih (Layer.draw c g).2
    refine ⟨by simp [Layer.drawStack, hlength], ?_⟩
    intro l hl
    rcases List.mem_cons.1 hl with rfl | hl
    · exact Layer.draw_shaped c g
    · exact hshaped l hl

theorem EdgeEncoder.draw_shaped (c : Config α) (g : Generator) :
    (EdgeEncoder.draw c g).1.Shaped c :=
  ⟨Linear.draw_shaped c.edgeDim c.edgeDenseNeurons true g,
    Linear.draw_shaped c.edgeDenseNeurons c.edgeNeurons true _⟩

/-- A new classifier has the shapes of its settings, which are valid. -/
theorem Classifier.build_shaped {c : Config α} {seed : UInt64} {m : Classifier α}
    (h : Classifier.build c seed = .ok m) : m.Shaped ∧ m.config = c := by
  unfold Classifier.build Config.validate at h
  cases hf : c.fault? with
  | some fault => simp [hf, bind, Except.bind] at h
  | none =>
    simp only [hf, bind, Except.bind, pure, Except.pure, Except.ok.injEq] at h
    subst h
    refine ⟨⟨hf, ?_, ?_, ?_, ?_, Linear.draw_shaped .., BatchNorm.width_initial _,
      Linear.draw_shaped ..⟩, rfl⟩
    · by_cases he : 0 < c.edgeDim <;> simp [he]
    · intro e he
      by_cases hd : 0 < c.edgeDim
      · simp only [hd, if_true, Option.mem_def, Option.some.injEq] at he
        subst he
        exact EdgeEncoder.draw_shaped c _
      · simp [hd] at he
    · exact (Layer.drawStack_shaped c c.layers _).1
    · exact (Layer.drawStack_shaped c c.layers _).2

/-- A classifier can be built from valid settings. -/
theorem Classifier.exists_build {c : Config α} (seed : UInt64) (h : c.fault? = none) :
    ∃ m, Classifier.build c seed = .ok m := by
  unfold Classifier.build Config.validate
  simp [h, bind, Except.bind, pure, Except.pure]

end Draw

/-! ## Changed parameters -/

section MapParameters

variable {path : String} {f : String → Nat → α → α}

theorem Linear.Shaped.mapParameters {l : Linear α} {inputs outputs : Nat} {bias : Bool}
    (h : l.Shaped inputs outputs bias) : (l.mapParameters path f).Shaped inputs outputs bias := by
  refine ⟨h.inputs_eq, ?_, ?_⟩
  · rw [← h.outputs_eq]
    simp [Linear.outputs, Linear.mapParameters, Matrix.mapFlat, Matrix.height]
  · rw [← h.bias_length]
    cases hb : l.bias <;> simp [Linear.mapParameters, hb]

theorem GruCell.Shaped.mapParameters {cell : GruCell α} {inputs size : Nat}
    (h : cell.Shaped inputs size) : (cell.mapParameters path f).Shaped inputs size :=
  ⟨h.size_eq, h.input.mapParameters, h.hidden.mapParameters⟩

theorem BatchNorm.width_mapParameters (b : BatchNorm α) :
    (b.mapParameters path f).width = b.width := by
  simp [BatchNorm.width, BatchNorm.mapParameters]

theorem EdgeGated.Shaped.mapParameters {layer : EdgeGated α} {channels edgeDim : Nat} {norm : Bool}
    (h : layer.Shaped channels edgeDim norm) :
    (layer.mapParameters path f).Shaped channels edgeDim norm := by
  refine ⟨h.channels_eq, h.edgeDim_eq, h.lineAttention.mapParameters, h.lineNode.mapParameters, ?_⟩
  rw [← h.norm_width]
  cases hn : layer.norm with
  | none => simp [EdgeGated.mapParameters, hn]
  | some b => simp [EdgeGated.mapParameters, hn, BatchNorm.width_mapParameters]

theorem GraphConv.Shaped.mapParameters {layer : GraphConv α} {channels : Nat}
    (h : layer.Shaped channels) : (layer.mapParameters path f).Shaped channels :=
  ⟨h.channels_eq, h.related.mapParameters, h.root.mapParameters⟩

theorem Attention.Shaped.mapParameters {layer : Attention α} {channels : Nat}
    (h : layer.Shaped channels) : (layer.mapParameters path f).Shaped channels :=
  ⟨h.channels_eq, h.map.mapParameters, List.length_mapIdx.trans h.sourceScore_length,
    List.length_mapIdx.trans h.targetScore_length, List.length_mapIdx.trans h.bias_length⟩

theorem GatedGraph.Shaped.mapParameters {layer : GatedGraph α} {channels steps : Nat}
    (h : layer.Shaped channels steps) : (layer.mapParameters path f).Shaped channels steps := by
  refine ⟨h.channels_eq, List.length_mapIdx.trans h.steps_length, ?_, h.cell.mapParameters⟩
  intro w hw
  obtain ⟨i, hi, rfl⟩ := List.mem_mapIdx.1 hw
  exact (h.steps_shaped _ (List.getElem_mem hi)).mapParameters

theorem Layer.Shaped.mapParameters {c : Config α} {l : Layer α} (h : l.Shaped c) :
    (l.mapParameters path f).Shaped c := by
  cases l with
  | edgeGated l => exact ⟨h.1, EdgeGated.Shaped.mapParameters h.2⟩
  | graphConv l => exact ⟨h.1, GraphConv.Shaped.mapParameters h.2⟩
  | attention l => exact ⟨h.1, Attention.Shaped.mapParameters h.2⟩
  | gatedGraph l => exact ⟨h.1, GatedGraph.Shaped.mapParameters h.2⟩

/-- Overwriting parameters keeps all shapes. -/
theorem Classifier.mapParameters_shaped [Scalar α] {m : Classifier α} (h : m.Shaped)
    (f : String → Nat → α → α) : (m.mapParameters f).Shaped where
  valid := h.valid
  encoder_isSome := Option.isSome_map.trans h.encoder_isSome
  encoder := by
    intro e he
    obtain ⟨e₀, he₀, rfl⟩ := Option.map_eq_some_iff.1 he
    exact ⟨(h.encoder e₀ he₀).first.mapParameters, (h.encoder e₀ he₀).second.mapParameters⟩
  layers_length := List.length_mapIdx.trans h.layers_length
  layers := by
    intro l hl
    obtain ⟨i, hi, rfl⟩ := List.mem_mapIdx.1 hl
    exact (h.layers _ (List.getElem_mem hi)).mapParameters
  hidden := h.hidden.mapParameters
  norm_width := (BatchNorm.width_mapParameters m.norm).trans h.norm_width
  output := h.output.mapParameters

end MapParameters

/-! ## Use -/

section Forward

variable [Scalar α]

/-- Seeing a batch changes no width. -/
theorem BatchNorm.width_forward (b : BatchNorm α) (x : Matrix α) (training : Bool) :
    (b.forward x training).2.width = b.width := by
  unfold BatchNorm.forward
  split
  · rename_i hx
    split
    · split
      · rfl
      · show (List.zipWith _ b.channels x.columns).length = _
        rw [List.length_zipWith, Matrix.length_columns, hx]
        exact Nat.min_self _
    · rfl
  · rfl

theorem EdgeGated.Shaped.forward {layer : EdgeGated α} {channels edgeDim : Nat} {norm : Bool}
    (h : layer.Shaped channels edgeDim norm) (x : Matrix α) (edges : List (Nat × Nat))
    (edgeFeatures : Option (Matrix α)) (training : Bool) :
    (layer.forward x edges edgeFeatures training).2.Shaped channels edgeDim norm := by
  unfold EdgeGated.forward
  split
  · exact h
  · split
    · exact h
    · split
      · exact h
      · split
        · exact h
        · rename_i b hb
          refine ⟨h.channels_eq, h.edgeDim_eq, h.lineAttention, h.lineNode, ?_⟩
          rw [← h.norm_width, hb]
          exact congrArg some (BatchNorm.width_forward ..)

theorem Layer.Shaped.forward {c : Config α} {l : Layer α} (h : l.Shaped c) (x : Matrix α)
    (edges : List (Nat × Nat)) (edgeFeatures : Option (Matrix α)) (training : Bool) :
    (l.forward x edges edgeFeatures training).2.Shaped c := by
  cases l with
  | edgeGated l => exact ⟨h.1, EdgeGated.Shaped.forward h.2 x edges edgeFeatures training⟩
  | graphConv l => exact h
  | attention l => exact h
  | gatedGraph l => exact h

theorem Layer.forwardStack_shaped (edges : List (Nat × Nat)) (edgeFeatures : Option (Matrix α))
    (training : Bool) {c : Config α} {layers : List (Layer α)} (h : ∀ l ∈ layers, l.Shaped c)
    (x : Matrix α) :
    (Layer.forwardStack edges edgeFeatures training layers x).2.length = layers.length ∧
      ∀ l ∈ (Layer.forwardStack edges edgeFeatures training layers x).2, l.Shaped c := by
  induction layers generalizing x with
  | nil => simp [Layer.forwardStack]
  | cons l rest ih =>
    have hrest : ∀ k ∈ rest, k.Shaped c := fun k hk => h k (List.mem_cons_of_mem _ hk)
    have hl := (h l List.mem_cons_self).forward x edges edgeFeatures training
    unfold Layer.forwardStack
    split
    · rename_i hf
      rw [hf] at hl
      refine ⟨rfl, ?_⟩
      intro k hk
      rcases List.mem_cons.1 hk with rfl | hk
      · exact hl
      · exact hrest k hk
    · rename_i y l' hf
      rw [hf] at hl
      obtain ⟨hlength, hshaped⟩ := ih hrest y
      refine ⟨by simp [hlength], ?_⟩
      intro k hk
      rcases List.mem_cons.1 hk with rfl | hk
      · exact hl
      · exact hshaped k hk

namespace Classifier

theorem train_shaped {m : Classifier α} (h : m.Shaped) : m.train.Shaped := { h with }

theorem eval_shaped {m : Classifier α} (h : m.Shaped) : m.eval.Shaped := { h with }

/-- The head moves the generator and the running estimates, and nothing else. -/
theorem head_snd (m : Classifier α) (pooled : Matrix α) :
    ∃ generator norm, norm.width = m.norm.width ∧
      (m.head pooled).2 = { m with generator, norm } := by
  unfold head
  split
  rename_i h generator _
  dsimp only
  cases m.hidden.apply h with
  | error failure => exact ⟨generator, m.norm, rfl, rfl⟩
  | ok y =>
    have hwidth := BatchNorm.width_forward m.norm (y.map relu) m.training
    dsimp only
    cases hn : m.norm.forward (y.map relu) m.training with
    | mk result norm =>
      rw [hn] at hwidth
      refine ⟨generator, norm, hwidth, ?_⟩
      cases result <;> rfl

/-- The layers keep their shapes when a batch goes through them. -/
theorem withLayers_shaped {m : Classifier α} (h : m.Shaped) (b : Batch α)
    (edgeFeatures : Option (Matrix α)) :
    Classifier.Shaped { m with layers :=
      (Layer.forwardStack b.edges edgeFeatures m.training m.layers b.features).2 } := by
  obtain ⟨hlength, hlayers⟩ :=
    Layer.forwardStack_shaped b.edges edgeFeatures m.training h.layers b.features
  exact { h with layers_length := hlength.trans h.layers_length, layers := hlayers }

theorem score_shaped {m : Classifier α} (h : m.Shaped) (b : Batch α)
    (edgeFeatures : Option (Matrix α)) : (m.score b edgeFeatures).2.Shaped := by
  have hm := withLayers_shaped h b edgeFeatures
  unfold score
  simp only
  split
  · exact hm
  · split
    · exact hm
    · rename_i pooled _
      obtain ⟨generator, norm, hnorm, heq⟩ := head_snd { m with layers :=
        (Layer.forwardStack b.edges edgeFeatures m.training m.layers b.features).2 } pooled
      rw [heq]
      exact { hm with norm_width := hnorm.trans h.norm_width }

/-- Using a classifier keeps all shapes, whether or not there is a result. -/
theorem forward_shaped {m : Classifier α} (h : m.Shaped) (b : Batch α) :
    (m.forward b).2.Shaped := by
  unfold forward
  split
  · exact h
  · split
    · exact h
    · split
      · exact h
      · split
        · exact h
        · exact score_shaped h b _

end Classifier

end Forward

end PonziScreen
