import PonziScreen.Proofs.RealScalar

/-!
# Which batches a classifier accepts

A batch is plain data: nothing promises that its parts fit together, or that they fit a classifier.
Here is the exact condition under which a classifier, in either mode, gives scores for a batch
(`Classifier.Accepts`), and what it gives otherwise.

`Answers` says that a computation has one of two outcomes: a matrix of a known shape, or a shape
mismatch. It leaves no room for `Failure.misaligned`, so a computation that answers never asks for
an index that does not exist. Each part of a classifier answers under a condition of its own:

* `BatchNorm.forward_answers` — in training there have to be two rows
* `Layer.forward_answers`, `Layer.forwardStack_answers` — edges between existing nodes, and edge
  features that fit them (`Layer.Accepts`)
* `Classifier.head_answers` — in training there have to be two graphs
* `Classifier.forward_outcome` — the whole

That there is room for all matrices is taken for granted here; what becomes of a batch of too many
graphs is in `Proofs/Room`.
-/

namespace PonziScreen

open PonziScreen.Matrix

variable {α : Type}

/-- A computation gives a matrix of a given shape if a condition holds, and a shape mismatch if it
does not. -/
structure Answers (r : Except Failure (Matrix α)) (accepts : Prop) (height width : Nat) : Prop where
  accepted : accepts → ∃ y, r = .ok y ∧ y.height = height ∧ y.width = width
  refused : ¬ accepts → ∃ fault, r = .error (.shapeMismatch fault)

variable [Scalar α]

/-! ## Shapes -/

omit [Scalar α] in
theorem Matrix.map_yields_shape {r : Except Failure (Matrix α)} {width : Nat}
    {rows : List (List α)} (h : Yields r width rows) :
    ∃ y, r = .ok y ∧ y.height = rows.length ∧ y.width = width := by
  obtain ⟨y, hy, hw, hr⟩ := h
  exact ⟨y, hy, congrArg List.length hr, hw⟩

/-- A linear map keeps the number of rows. -/
theorem Linear.apply_shape {l : Linear α} {inputs outputs : Nat} {bias : Bool}
    (h : l.Shaped inputs outputs bias) {x : Matrix α} (hx : x.width = inputs) :
    ∃ y, l.apply x = .ok y ∧ y.height = x.height ∧ y.width = outputs := by
  obtain ⟨y, hy, hh, hw⟩ := map_yields_shape (Linear.apply_yields h hx x.rows_eq_map_row)
  rw [List.length_map, List.length_range] at hh
  exact ⟨y, hy, hh, hw⟩

theorem length_dropoutRows (p keep : α) (rows : List (List α)) (g : Generator) :
    (dropoutRows p keep rows g).1.length = rows.length := by
  induction rows generalizing g with
  | nil => rfl
  | cons r rest ih => simp [dropoutRows, ih]

/-- Dropout keeps the shape. -/
theorem dropout_shape (p : α) (x : Matrix α) (g : Generator) :
    (dropout p x g).1.height = x.height ∧ (dropout p x g).1.width = x.width := by
  unfold dropout
  split
  · exact ⟨rfl, rfl⟩
  · split
    · exact ⟨List.length_map _, rfl⟩
    · exact ⟨length_dropoutRows .., rfl⟩

/-! ## Normalisation -/

theorem BatchNorm.forward_answers {b : BatchNorm α} {x : Matrix α} (hx : x.width = b.width)
    (training : Bool) :
    Answers (b.forward x training).1 (training = true → 2 ≤ x.height) x.height b.width := by
  unfold forward
  rw [dif_pos hx]
  cases training with
  | false => exact ⟨fun _ => ⟨_, rfl, List.length_map _, rfl⟩, fun h => absurd (by simp) h⟩
  | true =>
    rw [if_pos rfl]
    by_cases hh : x.height ≤ 1
    · rw [if_pos hh]
      refine ⟨fun h => ?_, fun _ => ⟨_, rfl⟩⟩
      have := h rfl
      omega
    · rw [if_neg hh]
      exact ⟨fun _ => ⟨_, rfl, List.length_map _, rfl⟩, fun h => absurd (fun _ => by omega) h⟩

/-! ## Layers -/

namespace Layer

/-- What a layer asks of the edges and of the number `n` of nodes. Only edge-gated layers look at
edge features, and only their normalisations need two nodes in training. -/
structure Accepts (c : Config α) (n : Nat) (edges : List (Nat × Nat))
    (edgeFeatures : Option (Matrix α)) (training : Bool) : Prop where
  ends : ∀ e ∈ edges, e.1 < n ∧ e.2 < n
  fits : c.layerKind = .edgeGated → FitsEdges edges c.layerEdgeDim edgeFeatures
  nodes : training = true → c.layerKind = .edgeGated → c.batchNorm = true → 2 ≤ n

/-- The end of a layer only asks for enough rows. -/
theorem finish_answers {c : Config α} {l : Layer α} (hl : l.Shaped c) {y : Matrix α}
    (hy : y.width = c.featureSize) (training : Bool) :
    Answers (l.finish training y).1
      (training = true → c.layerKind = .edgeGated → c.batchNorm = true → 2 ≤ y.height)
      y.height c.featureSize := by
  cases l with
  | edgeGated l =>
    have hnorm := norm_isSome hl
    cases hb : l.norm with
    | none =>
      have hc : c.batchNorm = false := by rw [← hnorm, hb, Option.isSome_none]
      simp only [finish, hb]
      exact ⟨fun _ => ⟨y, rfl, rfl, hy⟩, fun h => absurd (by simp [hc]) h⟩
    | some b =>
      have hc : c.batchNorm = true := by rw [← hnorm, hb, Option.isSome_some]
      have hwidth := norm_width hl hb
      obtain ⟨haccepted, hrefused⟩ :=
        BatchNorm.forward_answers (hy.trans hwidth.symm) training
      simp only [finish, hb, hl.1, hc, forall_const]
      rw [hwidth] at haccepted
      exact ⟨haccepted, hrefused⟩
  | graphConv l =>
    exact ⟨fun _ => ⟨y, rfl, rfl, hy⟩, fun h => absurd (by simp [hl.1]) h⟩
  | attention l =>
    exact ⟨fun _ => ⟨y, rfl, rfl, hy⟩, fun h => absurd (by simp [hl.1]) h⟩
  | gatedGraph l =>
    exact ⟨fun _ => ⟨y, rfl, rfl, hy⟩, fun h => absurd (by simp [hl.1]) h⟩

/-- A layer of any kind refuses nodes and edges that are at fault. -/
theorem forward_of_nodeFault? {c : Config α} {l : Layer α} (hl : l.Shaped c) {x : Matrix α}
    {edges : List (Nat × Nat)} {fault : ShapeFault}
    (h : nodeFault? x c.featureSize edges = some fault) (edgeFeatures : Option (Matrix α))
    (training : Bool) :
    (l.forward x edges edgeFeatures training).1 = .error (.shapeMismatch fault) := by
  cases l with
  | edgeGated l =>
    rw [← hl.2.channels_eq] at h
    simp only [forward, EdgeGated.forward, h]
  | graphConv l =>
    rw [← hl.2.channels_eq] at h
    simp only [forward, GraphConv.forward, h]
  | attention l =>
    rw [← hl.2.channels_eq] at h
    simp only [forward, Attention.forward, h]
  | gatedGraph l =>
    rw [← hl.2.channels_eq] at h
    simp only [forward, GatedGraph.forward, h]

/-- An edge-gated layer refuses edge features that do not fit. -/
theorem forward_of_not_fitsEdges {c : Config α} {l : Layer α} (hl : l.Shaped c)
    (hkind : c.layerKind = .edgeGated) {x : Matrix α} {edges : List (Nat × Nat)}
    (hx : nodeFault? x c.featureSize edges = none) {edgeFeatures : Option (Matrix α)}
    (h : ¬ FitsEdges edges c.layerEdgeDim edgeFeatures) (training : Bool) :
    ∃ fault, (l.forward x edges edgeFeatures training).1 = .error (.shapeMismatch fault) := by
  cases l with
  | edgeGated l =>
    rw [← hl.2.channels_eq] at hx
    rw [← hl.2.edgeDim_eq, ← EdgeGated.edgeFeatureFault?_eq_none_iff] at h
    obtain ⟨fault, hfault⟩ := Option.ne_none_iff_exists'.1 h
    exact ⟨fault, by simp only [forward, EdgeGated.forward, hx, hfault]⟩
  | graphConv l => exact absurd (hkind.symm.trans hl.1) (by decide)
  | attention l => exact absurd (hkind.symm.trans hl.1) (by decide)
  | gatedGraph l => exact absurd (hkind.symm.trans hl.1) (by decide)

/-- A layer that finds no fault with its input computes and then ends. -/
theorem forward_eq_finish_of_fits {c : Config α} {l : Layer α} (hl : l.Shaped c) {x : Matrix α}
    (hx : x.width = c.featureSize) {edges : List (Nat × Nat)}
    (hedges : ∀ e ∈ edges, e.1 < x.height ∧ e.2 < x.height) {edgeFeatures : Option (Matrix α)}
    (hfits : c.layerKind = .edgeGated → FitsEdges edges c.layerEdgeDim edgeFeatures) :
    ∃ y : Matrix α, y.width = c.featureSize ∧ y.height = x.height ∧
      ∀ training, l.forward x edges edgeFeatures training = l.finish training y := by
  -- layers that do not look at edge features get links without any
  obtain ⟨links, hmap, hcarries⟩ : ∃ links : List (Link α), links.map Link.edge = edges ∧
      (c.layerKind = .edgeGated → Carries links c.layerEdgeDim edgeFeatures) := by
    by_cases hkind : c.layerKind = .edgeGated
    · have h := hfits hkind
      exact ⟨Link.join edges edgeFeatures, Link.map_edge_join h.height_eq, fun _ => h.carries_join⟩
    · exact ⟨Link.join edges none, Link.map_edge_join (by simp), fun h => absurd h hkind⟩
  have hwithin : ∀ k ∈ links, k.Within x.height := by
    intro k hk
    exact hedges k.edge (hmap ▸ List.mem_map_of_mem hk)
  obtain ⟨y, hyw, hyr, hy⟩ := forward_eq_finish hl hx x.rows_eq_map_row hwithin hcarries
  rw [hmap] at hy
  exact ⟨y, hyw, by rw [height_of_rows_eq hyr, List.length_range], hy⟩

/-- A layer, in either mode, answers. -/
theorem forward_answers {c : Config α} {l : Layer α} (hl : l.Shaped c) {x : Matrix α}
    (hx : x.width = c.featureSize) (edges : List (Nat × Nat)) (edgeFeatures : Option (Matrix α))
    (training : Bool) :
    Answers (l.forward x edges edgeFeatures training).1
      (Accepts c x.height edges edgeFeatures training) x.height c.featureSize := by
  by_cases hnode : nodeFault? x c.featureSize edges = none
  · have hedges : ∀ e ∈ edges, e.1 < x.height ∧ e.2 < x.height := by
      rw [nodeFault?, if_neg (by simp [hx]), edgeFault?_eq_none] at hnode
      exact hnode
    by_cases hfits : c.layerKind = .edgeGated → FitsEdges edges c.layerEdgeDim edgeFeatures
    · obtain ⟨y, hyw, hyh, hy⟩ := forward_eq_finish_of_fits hl hx hedges hfits
      obtain ⟨haccepted, hrefused⟩ := finish_answers hl hyw training
      rw [hyh] at haccepted hrefused
      rw [hy]
      exact ⟨fun h => haccepted h.nodes, fun h => hrefused fun hn => h ⟨hedges, hfits, hn⟩⟩
    · obtain ⟨hkind, hnot⟩ := Classical.not_imp.1 hfits
      exact ⟨fun h => absurd (h.fits hkind) hnot,
        fun _ => forward_of_not_fitsEdges hl hkind hnode hnot training⟩
  · obtain ⟨fault, hfault⟩ := Option.ne_none_iff_exists'.1 hnode
    refine ⟨fun h => ?_, fun _ => ⟨fault, forward_of_nodeFault? hl hfault edgeFeatures training⟩⟩
    rw [nodeFault?, if_neg (by simp [hx]), edgeFault?_eq_none] at hnode
    exact absurd h.ends hnode

/-- A stack of layers answers: all of them see the same edges and as many nodes, so they ask for the
same. -/
theorem forwardStack_answers {c : Config α} {layers : List (Layer α)}
    (hl : ∀ l ∈ layers, l.Shaped c) {x : Matrix α} (hx : x.width = c.featureSize)
    (edges : List (Nat × Nat)) (edgeFeatures : Option (Matrix α)) (training : Bool) :
    Answers (forwardStack edges edgeFeatures training layers x).1
      (layers ≠ [] → Accepts c x.height edges edgeFeatures training) x.height c.featureSize := by
  induction layers generalizing x with
  | nil => exact ⟨fun _ => ⟨x, rfl, rfl, hx⟩, fun h => absurd (by simp) h⟩
  | cons l rest ih =>
    obtain ⟨haccepted, hrefused⟩ :=
      forward_answers (hl l List.mem_cons_self) hx edges edgeFeatures training
    unfold forwardStack
    cases hf : l.forward x edges edgeFeatures training with
    | mk result l' =>
      rw [hf] at haccepted hrefused
      by_cases hacc : Accepts c x.height edges edgeFeatures training
      · obtain ⟨y, rfl, hyh, hyw⟩ := haccepted hacc
        have hrest := ih (fun k hk => hl k (List.mem_cons_of_mem _ hk)) hyw
        rw [hyh] at hrest
        exact ⟨fun _ => hrest.accepted fun _ => hacc, fun h => absurd (fun _ => hacc) h⟩
      · obtain ⟨fault, rfl⟩ := hrefused hacc
        exact ⟨fun h => absurd (h (List.cons_ne_nil l rest)) hacc, fun _ => ⟨fault, rfl⟩⟩

end Layer

/-! ## Classifiers -/

namespace Classifier

/-- The head only asks for enough graphs. -/
theorem head_answers {m : Classifier α} (hm : m.Shaped) {pooled : Matrix α}
    (hp : pooled.width = m.config.featureSize) :
    Answers (m.head pooled).1 (m.training = true → 2 ≤ pooled.height) pooled.height
      m.config.outChannels := by
  -- dropout changes numbers only
  obtain ⟨h, generator, hdropout, hh, hw⟩ : ∃ h generator,
      (if m.training then dropout m.config.dropoutRate pooled m.generator
        else (pooled, m.generator)) = (h, generator) ∧
      h.height = pooled.height ∧ h.width = pooled.width := by
    cases m.training with
    | false => exact ⟨_, _, rfl, rfl, rfl⟩
    | true => exact ⟨_, _, rfl, dropout_shape ..⟩
  obtain ⟨y, hy, hyh, hyw⟩ := Linear.apply_shape hm.hidden (hw.trans hp)
  have hheight : (y.map relu).height = pooled.height :=
    (List.length_map _).trans (hyh.trans hh)
  obtain ⟨haccepted, hrefused⟩ := BatchNorm.forward_answers (x := y.map relu)
    (hyw.trans hm.norm_width.symm) m.training
  rw [hheight] at haccepted hrefused
  unfold head
  rw [hdropout]
  simp only [hy]
  refine ⟨fun htraining => ?_, fun htraining => ?_⟩
  · obtain ⟨z, hz, hzh, hzw⟩ := haccepted htraining
    obtain ⟨scores, hscores, hsh, hsw⟩ :=
      Linear.apply_shape hm.output (hzw.trans hm.norm_width)
    simp only [hz, hscores]
    exact ⟨_, rfl, (List.length_map _).trans (hsh.trans hzh), hsw⟩
  · obtain ⟨fault, hfault⟩ := hrefused htraining
    exact ⟨fault, by simp only [hfault]⟩

/-- The mean of the weights of the last linear map. -/
def outputMean (m : Classifier α) : α :=
  Scalar.laneSum m.output.weight.entries / Scalar.ofNat m.output.weight.entries.length

/-- A classifier has diverged exactly if the mean of its output weights is no finite number. -/
theorem divergence?_eq {m : Classifier α} (hm : m.Shaped) :
    m.divergence? = if Scalar.isFinite m.outputMean then none
      else some (.diverged s!"mean of output layer weight is {Scalar.text m.outputMean}") := by
  have hentries : m.output.weight.entries.isEmpty = false := by
    obtain ⟨-, hdense, hout, -⟩ := Config.fault?_eq_none.1 hm.valid
    have hlength : m.output.weight.rows.length = 2 := hm.output.outputs_eq.trans hout
    have hwidth : m.output.weight.width ≠ 0 := by
      rw [show m.output.weight.width = m.config.denseNeurons from hm.output.inputs_eq]
      exact hdense
    cases hrows : m.output.weight.rows with
    | nil => simp [hrows] at hlength
    | cons r rest =>
      have hr := m.output.weight.uniform r (hrows ▸ List.mem_cons_self)
      cases r with
      | nil => exact absurd hr.symm hwidth
      | cons v vs => simp [Matrix.entries, hrows]
  unfold divergence? outputMean
  simp only [hentries, Bool.false_eq_true, if_false]

/-- What a classifier asks of a batch with graphs in it. Edges matter only if there are layers, and
a training classifier needs enough rows wherever it normalises. -/
structure Accepts (m : Classifier α) (b : Batch α) : Prop where
  width : b.features.width = m.config.featureSize
  graphOf_length : b.graphOf.length = b.features.height
  graphOf_lt : ∀ g ∈ b.graphOf, g < b.graphCount
  edgeFeatures : m.config.edgeDim = 0 ∨ ∃ e, b.edgeFeatures = some e ∧ e.width = m.config.edgeDim
  edges : m.config.layers = 0 ∨
    (∀ e ∈ b.edges, e.1 < b.features.height ∧ e.2 < b.features.height) ∧
      (m.config.layerKind = .edgeGated ∧ 0 < m.config.edgeDim →
        ∃ e, b.edgeFeatures = some e ∧ e.height = b.edges.length)
  training : m.training = true → 2 ≤ b.graphCount ∧
    (0 < m.config.layers ∧ m.config.layerKind = .edgeGated ∧ m.config.batchNorm = true →
      2 ≤ b.features.height)

/-- Without an encoder nothing reaches the layers. -/
theorem encodeEdges_of_edgeDim_eq_zero {m : Classifier α} (hm : m.Shaped) (b : Batch α)
    (hd : m.config.edgeDim = 0) : m.encodeEdges b = .ok none := by
  simp [encodeEdges, edgeEncoder_eq_none hm hd]

/-- The encoder refuses a batch without edge features and one with features of another width. -/
theorem encodeEdges_refused {m : Classifier α} (hm : m.Shaped) {b : Batch α}
    (h : ¬ (m.config.edgeDim = 0 ∨ ∃ e, b.edgeFeatures = some e ∧ e.width = m.config.edgeDim)) :
    ∃ fault, m.encodeEdges b = .error (.shapeMismatch fault) := by
  obtain ⟨hd, hnone⟩ := not_or.1 h
  obtain ⟨encoder, hencoder, hshaped⟩ := edgeEncoder_eq_some hm (Nat.pos_of_ne_zero hd)
  cases he : b.edgeFeatures with
  | none => exact ⟨.modelEdges m.config.edgeDim, by simp only [encodeEdges, hencoder, he]⟩
  | some e =>
    have hwidth : e.width ≠ encoder.first.inputs := by
      rw [hshaped.first.inputs_eq]
      exact fun hw => hnone ⟨e, he, hw⟩
    refine ⟨.linearInput encoder.first.inputs e.width, ?_⟩
    simp only [encodeEdges, hencoder, he, EdgeEncoder.apply, Linear.apply, if_pos hwidth]
    rfl

/-- Encoded edge features fit the edges exactly if there were as many as edges. -/
theorem fitsEdges_of_encodeEdges {m : Classifier α} (hm : m.Shaped) {b : Batch α}
    {edgeFeatures : Option (Matrix α)} (h : m.encodeEdges b = .ok edgeFeatures) :
    FitsEdges b.edges m.config.layerEdgeDim edgeFeatures ↔
      (0 < m.config.edgeDim → ∃ e, b.edgeFeatures = some e ∧ e.height = b.edges.length) := by
  by_cases hd : 0 < m.config.edgeDim
  · obtain ⟨e, y, he, -, rfl, hyw, hyh⟩ := edgeFeatures_of_encodeEdges hm h hd
    have hpos := (layerEdgeDim_pos hm.valid hd).2
    simp [FitsEdges, hd, he, hpos, hyw, hyh]
  · have hzero := Nat.eq_zero_of_not_pos hd
    rw [encodeEdges_of_edgeDim_eq_zero hm b hzero] at h
    cases h
    simp [FitsEdges, hzero, Config.layerEdgeDim]

/-- Of a batch whose nodes are in order and whose edges have been encoded, the classifier asks what
its layers and its head ask. -/
theorem accepts_iff {m : Classifier α} (hm : m.Shaped) {b : Batch α}
    (hfault : m.batchFault? b = none) {edgeFeatures : Option (Matrix α)}
    (hencode : m.encodeEdges b = .ok edgeFeatures) :
    m.Accepts b ↔
      (m.layers ≠ [] →
        Layer.Accepts m.config b.features.height b.edges edgeFeatures m.training) ∧
      (m.training = true → 2 ≤ b.graphCount) := by
  obtain ⟨hwidth, hlength, hbelow⟩ := batchFault?_eq_none.1 hfault
  have hencoded :
      m.config.edgeDim = 0 ∨ ∃ e, b.edgeFeatures = some e ∧ e.width = m.config.edgeDim := by
    by_contra h
    obtain ⟨fault, hrefused⟩ := encodeEdges_refused hm h
    simp [hrefused] at hencode
  have hfits := fitsEdges_of_encodeEdges hm hencode
  have hlayers : m.layers ≠ [] ↔ m.config.layers ≠ 0 := by
    rw [← hm.layers_length, Ne, Ne, List.length_eq_zero_iff]
  constructor
  · intro h
    refine ⟨fun hne => ?_, fun ht => (h.training ht).1⟩
    have hpos := hlayers.1 hne
    obtain ⟨hends, hrows⟩ := h.edges.resolve_left hpos
    exact ⟨hends, fun hkind => hfits.2 fun hd => hrows ⟨hkind, hd⟩,
      fun ht hkind hnorm => (h.training ht).2 ⟨Nat.pos_of_ne_zero hpos, hkind, hnorm⟩⟩
  · rintro ⟨hstack, hgraphs⟩
    refine ⟨hwidth, hlength, hbelow, hencoded, ?_, fun ht => ⟨hgraphs ht, ?_⟩⟩
    · by_cases hzero : m.config.layers = 0
      · exact .inl hzero
      · have hacc := hstack (hlayers.2 hzero)
        exact .inr ⟨hacc.ends, fun ⟨hkind, hd⟩ => hfits.1 (hacc.fits hkind) hd⟩
    · rintro ⟨hpos, hkind, hnorm⟩
      exact (hstack (hlayers.2 (Nat.ne_of_gt hpos))).nodes ht hkind hnorm

/-- Layers, pooling and head answer for a batch whose nodes are in order. -/
theorem score_answers {m : Classifier α} (hm : m.Shaped) {b : Batch α}
    (hfault : m.batchFault? b = none) {edgeFeatures : Option (Matrix α)}
    (hencode : m.encodeEdges b = .ok edgeFeatures) :
    Answers (m.score b edgeFeatures).1 (m.Accepts b) b.graphCount m.config.outChannels := by
  obtain ⟨hwidth, -, hbelow⟩ := batchFault?_eq_none.1 hfault
  have hparts := accepts_iff hm hfault hencode
  have hshaped := withLayers_shaped hm b edgeFeatures
  obtain ⟨haccepted, hrefused⟩ :=
    Layer.forwardStack_answers hm.layers hwidth b.edges edgeFeatures m.training
  unfold score
  cases hf : Layer.forwardStack b.edges edgeFeatures m.training m.layers b.features with
  | mk result layers =>
    rw [hf] at haccepted hrefused hshaped
    by_cases hstack : m.layers ≠ [] →
        Layer.Accepts m.config b.features.height b.edges edgeFeatures m.training
    · obtain ⟨x, rfl, hxh, hxw⟩ := haccepted hstack
      obtain ⟨pooled, hp, hpw, hpr⟩ := maxPool_yields (m := x) hbelow
      have hheight : pooled.height = b.graphCount := by
        rw [height_of_rows_eq hpr, List.length_range]
      have hhead := head_answers hshaped (hpw.trans hxw)
      rw [hheight] at hhead
      simp only [hp]
      exact ⟨fun h => hhead.accepted (hparts.1 h).2,
        fun h => hhead.refused fun ht => h (hparts.2 ⟨hstack, ht⟩)⟩
    · obtain ⟨fault, rfl⟩ := hrefused hstack
      exact ⟨fun h => absurd (hparts.1 h).1 hstack, fun _ => ⟨fault, rfl⟩⟩

/-- A classifier whose output weights have no finite mean has diverged. Any other one answers: it
gives a row of two scores for each graph if there are no graphs or if it accepts the batch, and a
shape mismatch for every other batch. -/
theorem forward_outcome {m : Classifier α} (hm : m.Shaped) (b : Batch α) :
    (Scalar.isFinite m.outputMean = false →
      ∃ detail, (m.forward b).1 = .error (.diverged detail)) ∧
    (Scalar.isFinite m.outputMean = true →
      Answers (m.forward b).1 (b.graphCount = 0 ∨ m.Accepts b) b.graphCount 2) := by
  have hout : m.config.outChannels = 2 := (Config.fault?_eq_none.1 hm.valid).2.2.1
  unfold forward
  rw [divergence?_eq hm]
  constructor
  · intro hinfinite
    simp only [hinfinite, Bool.false_eq_true, if_false]
    exact ⟨_, rfl⟩
  · intro hfinite
    simp only [hfinite, if_true]
    by_cases hcount : b.graphCount = 0
    · simp only [hcount, if_true, true_or]
      exact ⟨fun _ => ⟨_, rfl, rfl, hout⟩, fun h => absurd trivial h⟩
    · simp only [hcount, if_false, false_or]
      cases hfault : m.batchFault? b with
      | some fault =>
        refine ⟨fun h => ?_, fun _ => ⟨fault, rfl⟩⟩
        have hnone := batchFault?_eq_none.2 ⟨h.width, h.graphOf_length, h.graphOf_lt⟩
        simp [hfault] at hnone
      | none =>
        cases hencode : m.encodeEdges b with
        | ok edgeFeatures =>
          have hscore := score_answers hm hfault hencode
          rw [hout] at hscore
          exact hscore
        | error failure =>
          by_cases hedges :
              m.config.edgeDim = 0 ∨ ∃ e, b.edgeFeatures = some e ∧ e.width = m.config.edgeDim
          · obtain ⟨y, hy, -⟩ := encodeEdges_eq_ok hm (b := b) fun hd =>
              hedges.resolve_left (Nat.ne_of_gt hd)
            simp [hy] at hencode
          · obtain ⟨fault, hrefused⟩ := encodeEdges_refused hm hedges
            rw [hrefused] at hencode
            cases hencode
            exact ⟨fun h => absurd h.edgeFeatures hedges, fun _ => ⟨fault, rfl⟩⟩

end Classifier

end PonziScreen
