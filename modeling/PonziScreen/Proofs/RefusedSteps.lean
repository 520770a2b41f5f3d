import PonziScreen.Proofs.StateChanges

/-!
# Refused training steps

Each part of a classifier looks for faults before it changes anything, so a part that refuses its
input stays as it is. The classifier as a whole looks for faults in a batch before its first layer,
and layers that follow the first one find none that it did not find. So a refused batch leaves a
classifier as it was, with one exception: that there are two graphs to normalise over is only asked
by the head, and by then the layers have seen the batch and dropout has drawn its numbers
(`Classifier.LoneGraph`).

* `Layer.forwardStack_snd_of_error` — layers that refuse a batch have not changed
* `Classifier.head_refused` — the head refuses a single graph, and late
* `Classifier.forward_refused` — what is left of a classifier that has refused a batch
* `Classifier.forward_pairOfNodes` — a refused batch that running estimates have followed
-/

namespace PonziScreen

variable {α : Type} [Scalar α]

/-! ## Layers -/

namespace Layer

omit [Scalar α] in
/-- Training asks for what evaluation asks for, and for two nodes to normalise over. -/
theorem accepts_training {c : Config α} {n : Nat} {edges : List (Nat × Nat)}
    {edgeFeatures : Option (Matrix α)} :
    Accepts c n edges edgeFeatures true ↔
      Accepts c n edges edgeFeatures false ∧
        (c.layerKind = .edgeGated → c.batchNorm = true → 2 ≤ n) := by
  constructor
  · exact fun h => ⟨⟨h.ends, h.fits, fun hf => absurd hf Bool.false_ne_true⟩, h.nodes rfl⟩
  · rintro ⟨h, hn⟩
    exact ⟨h.ends, h.fits, fun _ => hn⟩

/-- Layers that do not get to a result have not changed: what one of them refuses, the first one has
refused already. -/
theorem forwardStack_snd_of_error {c : Config α} {layers : List (Layer α)}
    (hl : ∀ l ∈ layers, l.Shaped c) {x : Matrix α} (hx : x.width = c.featureSize)
    {edges : List (Nat × Nat)} {edgeFeatures : Option (Matrix α)} {training : Bool}
    {failure : Failure}
    (h : (forwardStack edges edgeFeatures training layers x).1 = .error failure) :
    (forwardStack edges edgeFeatures training layers x).2 = layers := by
  cases layers with
  | nil => cases h
  | cons l rest =>
    have hfirst := forward_answers (hl l List.mem_cons_self) hx edges edgeFeatures training
    have hunchanged : ∀ refusal, (l.forward x edges edgeFeatures training).1 = .error refusal →
        (l.forward x edges edgeFeatures training).2 = l := fun _ => forward_snd_of_error
    unfold forwardStack at h ⊢
    cases hf : l.forward x edges edgeFeatures training with
    | mk result l' =>
      simp only [hf] at h hfirst hunchanged ⊢
      cases result with
      | error refusal =>
        dsimp only
        rw [hunchanged refusal rfl]
      | ok y =>
        -- the other layers see the same edges and as many nodes, so they have nothing to refuse
        have haccepts : Accepts c x.height edges edgeFeatures training := by
          by_contra hnot
          obtain ⟨fault, hfault⟩ := hfirst.refused hnot
          cases hfault
        obtain ⟨_, ⟨rfl⟩, hheight, hwidth⟩ := hfirst.accepted haccepts
        have hrest := forwardStack_answers (fun k hk => hl k (List.mem_cons_of_mem _ hk)) hwidth
          edges edgeFeatures training
        rw [hheight] at hrest
        obtain ⟨z, hz, -⟩ := hrest.accepted fun _ => haccepts
        simp [hz] at h

end Layer

/-! ## Classifiers -/

namespace Classifier

/-- In training the head refuses to normalise a single row, and by then it has drawn the numbers for
dropout. -/
theorem head_refused {m : Classifier α} (hm : m.Shaped) {pooled : Matrix α}
    (hp : pooled.width = m.config.featureSize) (htraining : m.training = true)
    (hheight : pooled.height ≤ 1) :
    m.head pooled = (.error (.shapeMismatch (.normRows pooled.height)),
      { m with generator := (dropout m.config.dropoutRate pooled m.generator).2 }) := by
  obtain ⟨hh, hw⟩ := dropout_shape m.config.dropoutRate pooled m.generator
  obtain ⟨y, hy, hyh, hyw⟩ := Linear.apply_shape hm.hidden (hw.trans hp)
  have hrows : (y.map relu).height = pooled.height := (List.length_map _).trans (hyh.trans hh)
  have hwidth : (y.map relu).width = m.norm.width := hyw.trans hm.norm_width.symm
  have hnorm : m.norm.forward (y.map relu) true =
      (.error (.shapeMismatch (.normRows pooled.height)), m.norm) := by
    rw [BatchNorm.forward, dif_pos hwidth, if_pos rfl, hrows, if_pos hheight]
  simp only [head, htraining, if_true, hy, hnorm]

/-- A batch that a classifier in training finds fault with in its head only: there is nothing wrong
with it in evaluation mode, and the layers have enough nodes to normalise over, but it is a batch of
one graph. -/
structure LoneGraph (m : Classifier α) (b : Batch α) : Prop where
  training : m.training = true
  finite : m.divergence? = none
  graphCount_eq : b.graphCount = 1
  accepted : m.eval.Accepts b
  nodes : 0 < m.config.layers ∧ m.config.layerKind = .edgeGated ∧ m.config.batchNorm = true →
    2 ≤ b.features.height

/-- The layers of a classifier accept a batch. Without layers there is nothing to refuse it. -/
def LayersAccept (m : Classifier α) (b : Batch α) (edgeFeatures : Option (Matrix α)) : Prop :=
  m.layers ≠ [] → Layer.Accepts m.config b.features.height b.edges edgeFeatures m.training

/-- Whether a batch of one graph gets to the head is up to the layers. -/
theorem loneGraph_iff {m : Classifier α} (hm : m.Shaped) {b : Batch α}
    (hfault : m.batchFault? b = none) {edgeFeatures : Option (Matrix α)}
    (hencode : m.encodeEdges b = .ok edgeFeatures) (htraining : m.training = true)
    (hfinite : m.divergence? = none) :
    m.LoneGraph b ↔ b.graphCount = 1 ∧ m.LayersAccept b edgeFeatures := by
  rw [LayersAccept, htraining]
  have heval : m.eval.Accepts b ↔ (m.layers ≠ [] →
      Layer.Accepts m.config b.features.height b.edges edgeFeatures false) := by
    rw [accepts_iff (eval_shaped hm) (b := b) hfault hencode]
    exact and_iff_left fun h => absurd h Bool.false_ne_true
  have hlayers : m.layers ≠ [] ↔ 0 < m.config.layers := by
    rw [← hm.layers_length, List.length_pos_iff]
  constructor
  · intro h
    refine ⟨h.graphCount_eq, fun hne => Layer.accepts_training.2 ⟨heval.1 h.accepted hne, ?_⟩⟩
    exact fun hkind hnorm => h.nodes ⟨hlayers.1 hne, hkind, hnorm⟩
  · rintro ⟨hcount, hstack⟩
    refine ⟨htraining, hfinite, hcount, heval.2 fun hne => ?_, ?_⟩
    · exact (Layer.accepts_training.1 (hstack hne)).1
    · rintro ⟨hpos, hkind, hnorm⟩
      exact (Layer.accepts_training.1 (hstack (hlayers.2 hpos))).2 hkind hnorm

/-- Layers that refuse a batch end the pass, and nothing has changed. A batch that they accept gets
to the head, a row for each graph. -/
theorem score_cases {m : Classifier α} (hm : m.Shaped) {b : Batch α}
    (hfault : m.batchFault? b = none) (edgeFeatures : Option (Matrix α)) :
    (¬ m.LayersAccept b edgeFeatures → (m.score b edgeFeatures).2 = m) ∧
    (m.LayersAccept b edgeFeatures → ∃ x pooled layers,
      Layer.forwardStack b.edges edgeFeatures m.training m.layers b.features = (.ok x, layers) ∧
      x.maxPool b.graphOf b.graphCount = .ok pooled ∧
      pooled.height = b.graphCount ∧ pooled.width = m.config.featureSize ∧
      Shaped { m with layers } ∧ m.score b edgeFeatures = head { m with layers } pooled) := by
  obtain ⟨hwidth, -, hbelow⟩ := batchFault?_eq_none.1 hfault
  have hanswers :=
    Layer.forwardStack_answers hm.layers hwidth b.edges edgeFeatures m.training
  have hunchanged : ∀ refusal,
      (Layer.forwardStack b.edges edgeFeatures m.training m.layers b.features).1 =
        .error refusal →
      (Layer.forwardStack b.edges edgeFeatures m.training m.layers b.features).2 = m.layers :=
    fun _ => Layer.forwardStack_snd_of_error hm.layers hwidth
  have hshaped := withLayers_shaped hm b edgeFeatures
  unfold score
  cases hf : Layer.forwardStack b.edges edgeFeatures m.training m.layers b.features with
  | mk result layers =>
    rw [hf] at hanswers hshaped hunchanged
    constructor
    · intro hstack
      obtain ⟨fault, rfl⟩ := hanswers.refused hstack
      obtain rfl : layers = m.layers := hunchanged _ rfl
      rfl
    · intro hstack
      obtain ⟨x, rfl, -, hxw⟩ := hanswers.accepted hstack
      obtain ⟨pooled, hp, hpw, hpr⟩ := Matrix.maxPool_yields (m := x) hbelow
      have hheight : pooled.height = b.graphCount := by
        rw [Matrix.height_of_rows_eq hpr, List.length_range]
      exact ⟨x, pooled, layers, rfl, hp, hheight, hpw.trans hxw, hshaped, by simp only [hp]⟩

/-- A refused batch changes nothing, but for a lone graph. -/
theorem forward_snd_of_error {m : Classifier α} (hm : m.Shaped) {b : Batch α}
    (hlone : ¬ m.LoneGraph b) {failure : Failure} (h : (m.forward b).1 = .error failure) :
    (m.forward b).2 = m := by
  cases hfinite : m.divergence? with
  | some diverged => simp only [forward, hfinite]
  | none =>
    by_cases hcount : b.graphCount = 0
    · simp [forward, hfinite, hcount] at h
    · obtain ⟨-, fault, hrefused⟩ | ⟨edgeFeatures, hfault, hencode, hforward⟩ :=
        forward_cases hm hcount hfinite
      · rw [hrefused]
      · obtain ⟨hstops, hreaches⟩ := score_cases hm hfault edgeFeatures
        rw [hforward] at h ⊢
        by_cases hstack : m.LayersAccept b edgeFeatures
        · -- the head is reached and has enough rows, so there is no failure
          obtain ⟨x, pooled, layers, -, -, hheight, hwidth, hshaped, hscore⟩ := hreaches hstack
          have hgraphs : m.training = true → 2 ≤ pooled.height := by
            intro htraining
            by_contra hfew
            exact hlone ((loneGraph_iff hm hfault hencode htraining hfinite).2 ⟨by omega, hstack⟩)
          obtain ⟨y, hy, -⟩ := (head_answers hshaped hwidth).accepted hgraphs
          rw [hscore, hy] at h
          cases h
        · exact hstops hstack

/-- A lone graph is refused after the layers have seen it. -/
theorem forward_of_loneGraph {m : Classifier α} (hm : m.Shaped) {b : Batch α}
    (h : m.LoneGraph b) :
    ∃ edgeFeatures x pooled layers, m.encodeEdges b = .ok edgeFeatures ∧
      Layer.forwardStack b.edges edgeFeatures true m.layers b.features = (.ok x, layers) ∧
      x.maxPool b.graphOf 1 = .ok pooled ∧
      m.forward b = (.error (.shapeMismatch (.normRows 1)),
        { m with layers, generator :=
          (dropout m.config.dropoutRate pooled m.generator).2 }) := by
  have hcount : b.graphCount ≠ 0 := by rw [h.graphCount_eq]; decide
  obtain ⟨hnot, -⟩ | ⟨edgeFeatures, hfault, hencode, hforward⟩ := forward_cases hm hcount h.finite
  · exact absurd h.accepted hnot
  · obtain ⟨hone, hstack⟩ := (loneGraph_iff hm hfault hencode h.training h.finite).1 h
    obtain ⟨x, pooled, layers, hf, hp, hheight, hwidth, hshaped, hscore⟩ :=
      (score_cases hm hfault edgeFeatures).2 hstack
    rw [hone] at hheight hp
    have hhead := head_refused hshaped hwidth h.training (by omega)
    rw [hheight] at hhead
    exact ⟨edgeFeatures, x, pooled, layers, hencode, h.training ▸ hf, hp,
      hforward.trans (hscore.trans hhead)⟩

/-- A classifier that refuses a batch is what it was before, unless it is in training and the batch
is a lone graph that its layers accept. It does refuse that one, because the head has a single row
to normalise; by then the layers have seen it, and the numbers for dropout have been drawn. -/
theorem forward_refused {m : Classifier α} (hm : m.Shaped) (b : Batch α) :
    (¬ m.LoneGraph b → ∀ failure, (m.forward b).1 = .error failure → (m.forward b).2 = m) ∧
    (m.LoneGraph b → ∃ edgeFeatures x pooled layers,
      m.encodeEdges b = .ok edgeFeatures ∧
      Layer.forwardStack b.edges edgeFeatures true m.layers b.features = (.ok x, layers) ∧
      x.maxPool b.graphOf 1 = .ok pooled ∧
      m.forward b = (.error (.shapeMismatch (.normRows 1)),
        { m with layers, generator :=
          (dropout m.config.dropoutRate pooled m.generator).2 })) :=
  ⟨fun hlone _ h => forward_snd_of_error hm hlone h, forward_of_loneGraph hm⟩

/-! ### A refused step that is not without effect -/

/-- A new classifier of node features of width one. It has an edge-gated layer and no dropout, and
all its weights are zero. -/
def oneColumn : Classifier α where
  config := { (Config.initial : Config α) with
    featureSize := 1, layers := 1, dropoutRate := Scalar.zero, denseNeurons := 1 }
  edgeEncoder := none
  layers := [.edgeGated {
    channels := 1
    edgeDim := 0
    lineAttention := ⟨.zeros 1 1, some [Scalar.zero]⟩
    lineNode := ⟨.zeros 1 1, some [Scalar.zero]⟩
    norm := some (.initial 1) }]
  hidden := ⟨.zeros 1 1, some [Scalar.zero]⟩
  norm := .initial 1
  output := ⟨.zeros 2 1, some [Scalar.zero, Scalar.zero]⟩
  training := true
  generator := .ofSeed 0

/-- One graph of two nodes, with features 1 and 3. -/
def pairOfNodes : Batch α where
  features := ⟨1, [[Scalar.one], [Scalar.ofNat 3]], by simp⟩
  edges := []
  edgeFeatures := none
  graphOf := [0, 0]
  labels := none
  graphCount := 1

theorem oneColumn_shaped (hvalid : (oneColumn : Classifier α).config.fault? = none) :
    (oneColumn : Classifier α).Shaped where
  valid := hvalid
  encoder_isSome := rfl
  encoder := by simp [oneColumn]
  layers_length := rfl
  layers := by
    intro l hl
    obtain rfl := List.mem_singleton.1 hl
    exact ⟨rfl, rfl, rfl, ⟨rfl, rfl, rfl⟩, ⟨rfl, rfl, rfl⟩, rfl⟩
  hidden := ⟨rfl, rfl, rfl⟩
  norm_width := rfl
  output := ⟨rfl, rfl, rfl⟩

theorem loneGraph_pairOfNodes (hfinite : (oneColumn : Classifier α).divergence? = none) :
    (oneColumn : Classifier α).LoneGraph pairOfNodes where
  training := rfl
  finite := hfinite
  graphCount_eq := rfl
  accepted :=
    { width := rfl
      graphOf_length := rfl
      graphOf_lt := by simp [pairOfNodes]
      edgeFeatures := .inl rfl
      edges := .inr ⟨by simp [pairOfNodes], fun h => absurd h.2 (Nat.lt_irrefl 0)⟩
      training := by simp [eval] }
  nodes := fun _ => Nat.le_refl 2

/-- `oneColumn` refuses two batches. A node of a graph that does not exist leaves no trace, and two
nodes of one graph do. -/
theorem forward_refused_oneColumn :
    (oneColumn : Classifier Float32).Shaped ∧
    (oneColumn : Classifier Float32).forward { pairOfNodes with graphOf := [0, 1] } =
      (.error (.shapeMismatch (.graphRange 1 1)), oneColumn) ∧
    ∃ layers generator, (oneColumn : Classifier Float32).forward pairOfNodes =
      (.error (.shapeMismatch (.normRows 1)), { oneColumn with layers, generator }) := by
  have hshaped : (oneColumn : Classifier Float32).Shaped := oneColumn_shaped (by decide)
  refine ⟨hshaped, ?_, ?_⟩
  · have hlone :
        ¬ (oneColumn : Classifier Float32).LoneGraph { pairOfNodes with graphOf := [0, 1] } :=
      fun h => absurd (h.accepted.graphOf_lt 1 (by decide)) (by decide)
    have hunchanged := (forward_refused hshaped _).1 hlone _ rfl
    exact Prod.ext rfl hunchanged
  · obtain ⟨_, _, _, layers, -, -, -, hforward⟩ :=
      (forward_refused hshaped pairOfNodes).2 (loneGraph_pairOfNodes (by decide))
    exact ⟨layers, _, hforward⟩

/-- A refused step can have an effect: `oneColumn`, in training, refuses the two nodes of one graph,
and its layer's running estimates have gone a tenth of the way to their mean 2 and their sample
variance 2. -/
theorem forward_pairOfNodes :
    (oneColumn : Classifier Float32).Shaped ∧ (oneColumn : Classifier Float32).training = true ∧
    ((oneColumn : Classifier Float32).forward pairOfNodes).1 =
      .error (.shapeMismatch (.normRows 1)) ∧
    (oneColumn : Classifier Float32).norms.map BatchNorm.runningStatistics =
      [[(0, 1)], [(0, 1)]] ∧
    ((oneColumn : Classifier Float32).forward pairOfNodes).2.norms.map
      BatchNorm.runningStatistics = [[(0.2, 1.1)], [(0, 1)]] :=
  ⟨oneColumn_shaped (by decide), rfl, rfl, rfl, rfl⟩

end Classifier

end PonziScreen
