import PonziScreen.Proofs.NodeEquations

/-!
# Scores in evaluation mode

A layer is a function on the features of nodes, followed by a normalisation in some of the
edge-gated ones. In evaluation mode a classifier only reads. Its normalisations then work row by row
as well, a stack of layers is a composition of functions, and the scores of a graph are a function
of the features of its nodes after the last layer.

* `Layer.forward_eq_finish` — a layer in any mode: its node equation, then its normalisation
* `Layer.stackRow` — the features of each node after a stack in evaluation mode
* `Classifier.headRow`, `Classifier.scoreRow` — the scores of a graph
* `Classifier.forward_eval_yields`, `Classifier.reads_of_forward` — a classifier in evaluation mode
  gives these scores for the batches that it reads, and fails on all others
* `Classifier.rows_of_forward_eval` — the scores that it has given, graph by graph
-/

namespace PonziScreen

open PonziScreen.Matrix

variable {α ι : Type} [Scalar α]

/-! ## Layers -/

namespace Layer

/-- The new features of a node, before they are normalised. -/
def nodeRow (links : List (Link α)) (l : Layer α) (row : Nat → List α) (t : Nat) : List α :=
  match l with
  | edgeGated l => l.residualRow (row t) (arrivals row links t)
  | graphConv l => l.nodeRow (row t) (arrivals row links t)
  | attention l => l.nodeRow (row t) (arrivals row links t)
  | gatedGraph l => GatedGraph.stepsRow l.cell links l.steps row t

/-- How a layer ends: with a batch normalisation in some of the edge-gated ones. -/
def finish (l : Layer α) (training : Bool) (y : Matrix α) : Except Failure (Matrix α) × Layer α :=
  match l with
  | edgeGated l =>
    match l.norm with
    | none => (.ok y, edgeGated l)
    | some b =>
      ((b.forward y training).1, edgeGated { l with norm := some (b.forward y training).2 })
  | l => (.ok y, l)

/-- A layer in any mode. Only edge-gated layers care for edge features. -/
theorem forward_eq_finish {c : Config α} {l : Layer α} (hl : l.Shaped c) {x : Matrix α} {n : Nat}
    {row : Nat → List α} {links : List (Link α)} {edgeFeatures : Option (Matrix α)}
    (hx : x.width = c.featureSize) (hr : x.rows = (List.range n).map row)
    (hk : ∀ k ∈ links, k.Within n)
    (hc : c.layerKind = .edgeGated → Carries links c.layerEdgeDim edgeFeatures) :
    ∃ y : Matrix α, y.width = c.featureSize ∧ y.rows = (List.range n).map (nodeRow links l row) ∧
      ∀ training, l.forward x (links.map Link.edge) edgeFeatures training
        = l.finish training y := by
  cases l with
  | edgeGated l =>
    obtain ⟨hkind, hl⟩ := hl
    have hheight : x.height = n := by rw [height_of_rows_eq hr, List.length_range]
    have hcarries : Carries links l.edgeDim edgeFeatures := by rw [hl.edgeDim_eq]; exact hc hkind
    obtain ⟨y, hy, hyw, hyr⟩ := EdgeGated.residual_yields hl hx hr hk (hc hkind)
    refine ⟨y, hyw, hyr, fun training => ?_⟩
    have hfault := nodeFault?_eq_none (hx.trans hl.channels_eq.symm) hheight hk
    have hedges := EdgeGated.edgeFeatureFault?_eq_none hcarries
    cases hb : l.norm with
    | none => simp only [forward, EdgeGated.forward, finish, hfault, hedges, hy, hb]
    | some b => simp only [forward, EdgeGated.forward, finish, hfault, hedges, hy, hb]
  | graphConv l =>
    obtain ⟨y, hy, hyw, hyr⟩ := GraphConv.forward_yields hl.2 hx hr hk
    exact ⟨y, hyw, hyr, fun training => by simp only [forward, finish, hy]⟩
  | attention l =>
    obtain ⟨y, hy, hyw, hyr⟩ := Attention.forward_yields hl.2 hx hr hk
    exact ⟨y, hyw, hyr, fun training => by simp only [forward, finish, hy]⟩
  | gatedGraph l =>
    obtain ⟨y, hy, hyw, hyr⟩ := GatedGraph.forward_yields hl.2 hx hr hk
    exact ⟨y, hyw, hyr, fun training => by simp only [forward, finish, hy]⟩

end Layer

/-! ## Evaluation mode -/

namespace BatchNorm

/-- What a normalisation makes of a row in evaluation mode. -/
def evalRow (b : BatchNorm α) (r : List α) : List α := normaliseRow b.channels b.runningStatistics r

theorem forward_eval_yields {b : BatchNorm α} {x : Matrix α} (hx : x.width = b.width)
    {items : List ι} {f : ι → List α} (hr : x.rows = items.map f) :
    (b.forward x false).2 = b ∧
      Yields (b.forward x false).1 b.width (items.map fun i => b.evalRow (f i)) := by
  unfold forward
  rw [dif_pos hx]
  refine ⟨rfl, yields_ok rfl ?_⟩
  show x.rows.map _ = _
  rw [hr, List.map_map]
  rfl

end BatchNorm

namespace Layer

/-- What the end of a layer makes of a row in evaluation mode. -/
def finishRow (l : Layer α) (r : List α) : List α :=
  match l with
  | edgeGated l =>
    match l.norm with
    | none => r
    | some b => b.evalRow r
  | _ => r

omit [Scalar α] in
/-- An edge-gated layer has a normalisation if the settings say so. -/
theorem norm_isSome {c : Config α} {l : EdgeGated α} (hl : (edgeGated l).Shaped c) :
    l.norm.isSome = c.batchNorm := by
  rw [← Option.isSome_map, hl.2.norm_width]
  cases c.batchNorm <;> rfl

omit [Scalar α] in
theorem norm_width {c : Config α} {l : EdgeGated α} (hl : (edgeGated l).Shaped c) {b : BatchNorm α}
    (hb : l.norm = some b) : b.width = c.featureSize := by
  have hnorm := hl.2.norm_width
  rw [hb] at hnorm
  cases hc : c.batchNorm with
  | false => simp [hc] at hnorm
  | true => simpa [hc] using hnorm

theorem finish_eval_yields {c : Config α} {l : Layer α} (hl : l.Shaped c) {y : Matrix α}
    (hy : y.width = c.featureSize) {items : List ι} {f : ι → List α} (hr : y.rows = items.map f) :
    (l.finish false y).2 = l ∧
      Yields (l.finish false y).1 c.featureSize (items.map fun i => l.finishRow (f i)) := by
  cases l with
  | edgeGated l =>
    cases hb : l.norm with
    | none =>
      simp only [finish, finishRow, hb]
      exact ⟨trivial, yields_ok hy hr⟩
    | some b =>
      have hwidth := norm_width hl hb
      obtain ⟨hsame, hrows⟩ := BatchNorm.forward_eval_yields (hy.trans hwidth.symm) hr
      rw [hwidth] at hrows
      simp only [finish, finishRow, hb]
      exact ⟨by rw [hsame, ← hb], hrows⟩
  | graphConv l => exact ⟨rfl, yields_ok hy hr⟩
  | attention l => exact ⟨rfl, yields_ok hy hr⟩
  | gatedGraph l => exact ⟨rfl, yields_ok hy hr⟩

/-- The features of each node after some layers in evaluation mode. -/
def stackRow (links : List (Link α)) : List (Layer α) → (Nat → List α) → Nat → List α
  | [], row => row
  | l :: rest, row => stackRow links rest fun t => l.finishRow (nodeRow links l row t)

/-- A stack of layers in evaluation mode, node by node. -/
theorem forwardStack_eval_yields {c : Config α} {n : Nat} {links : List (Link α)}
    {edgeFeatures : Option (Matrix α)} {layers : List (Layer α)} (hl : ∀ l ∈ layers, l.Shaped c)
    (hk : layers ≠ [] → ∀ k ∈ links, k.Within n)
    (hc : layers ≠ [] → c.layerKind = .edgeGated → Carries links c.layerEdgeDim edgeFeatures)
    {x : Matrix α} {row : Nat → List α} (hx : x.width = c.featureSize)
    (hr : x.rows = (List.range n).map row) :
    (forwardStack (links.map Link.edge) edgeFeatures false layers x).2 = layers ∧
      Yields (forwardStack (links.map Link.edge) edgeFeatures false layers x).1 c.featureSize
        ((List.range n).map (stackRow links layers row)) := by
  induction layers generalizing x row with
  | nil => exact ⟨rfl, yields_ok hx hr⟩
  | cons l rest ih =>
    have hne : l :: rest ≠ [] := List.cons_ne_nil l rest
    have hshaped := hl l List.mem_cons_self
    obtain ⟨y, hyw, hyr, hforward⟩ := forward_eq_finish hshaped hx hr (hk hne) (hc hne)
    obtain ⟨hsame, z, hz, hzw, hzr⟩ := finish_eval_yields hshaped hyw hyr
    obtain ⟨hrest, hrows⟩ := ih (fun k hk => hl k (List.mem_cons_of_mem _ hk))
      (fun _ => hk hne) (fun _ => hc hne) hzw hzr
    have hstep : l.forward x (links.map Link.edge) edgeFeatures false = (.ok z, l) := by
      rw [hforward false]
      exact Prod.ext hz hsame
    unfold forwardStack
    rw [hstep]
    refine ⟨?_, hrows⟩
    show l :: _ = l :: rest
    rw [hrest]

end Layer

/-! ## The head -/

namespace Classifier

/-- The scores of a graph in evaluation mode, given the maxima over its nodes. -/
def headRow (m : Classifier α) (pooled : List α) : List α :=
  (m.output.row (m.norm.evalRow ((m.hidden.row pooled).map relu))).map sigmoid

theorem head_eval_yields {m : Classifier α} (hm : m.Shaped) (he : m.training = false)
    {pooled : Matrix α} (hp : pooled.width = m.config.featureSize) {items : List ι}
    {f : ι → List α} (hr : pooled.rows = items.map f) :
    (m.head pooled).2 = m ∧
      Yields (m.head pooled).1 m.config.outChannels (items.map fun i => m.headRow (f i)) := by
  obtain ⟨h, hh, hhw, hhr⟩ := Linear.apply_yields hm.hidden hp hr
  have hrelu : (h.map relu).rows = _ := congrArg (List.map (List.map relu)) hhr
  rw [List.map_map] at hrelu
  obtain ⟨hsame, y, hy, hyw, hyr⟩ :=
    BatchNorm.forward_eval_yields (x := h.map relu) (hhw.trans hm.norm_width.symm) hrelu
  obtain ⟨z, hz, hzw, hzr⟩ := Linear.apply_yields hm.output (hyw.trans hm.norm_width) hyr
  have hnorm : m.norm.forward (h.map relu) false = (.ok y, m.norm) := Prod.ext hy hsame
  unfold head
  simp only [he, Bool.false_eq_true, if_false, hh, hnorm, hz]
  refine ⟨by cases m; simp_all, z.map sigmoid, rfl, hzw, ?_⟩
  show z.rows.map _ = _
  rw [hzr, List.map_map]
  rfl

end Classifier

/-! ## Edge features -/

namespace EdgeEncoder

/-- The features of a single edge as the layers see them. -/
def row (e : EdgeEncoder α) (r : List α) : List α := e.second.row (e.first.row r)

theorem apply_yields {e : EdgeEncoder α} {c : Config α} (he : e.Shaped c) {x : Matrix α}
    (hx : x.width = c.edgeDim) : Yields (e.apply x) c.edgeNeurons (x.rows.map e.row) := by
  have hrows : x.rows = x.rows.map id := (List.map_id _).symm
  unfold apply
  refine (Linear.apply_yields he.first hx hrows).bind fun h hhw hh => ?_
  exact Linear.apply_yields he.second hhw hh

end EdgeEncoder

namespace Classifier

/-- The features of the edge at a position as the layers see them; nothing if they see none. -/
def edgeRow (m : Classifier α) (b : Batch α) (i : Nat) : List α :=
  match m.edgeEncoder, b.edgeFeatures with
  | some encoder, some e => encoder.row (e.row i)
  | _, _ => []

/-- The edges of a batch with their features as the layers see them. -/
def links (m : Classifier α) (b : Batch α) : List (Link α) :=
  b.edges.mapIdx fun i e => ⟨e.1, e.2, m.edgeRow b i⟩

theorem map_edge_links (m : Classifier α) (b : Batch α) : (m.links b).map Link.edge = b.edges := by
  apply List.ext_getElem
  · simp [links]
  · intro i h₁ h₂
    simp [links, Link.edge]

/-! ## What a classifier reads -/

/-- The conditions under which a classifier in evaluation mode gives scores for a batch that is not
empty. Edges matter only if there are layers, and their features only if the classifier encodes
them. -/
structure Reads (m : Classifier α) (b : Batch α) : Prop where
  finite : m.divergence? = none
  width : b.features.width = m.config.featureSize
  graphOf_length : b.graphOf.length = b.features.height
  graphOf_lt : ∀ g ∈ b.graphOf, g < b.graphCount
  edgeFeatures : 0 < m.config.edgeDim → ∃ e, b.edgeFeatures = some e ∧ e.width = m.config.edgeDim
  edges : 0 < m.config.layers → ∀ e ∈ b.edges, e.1 < b.features.height ∧ e.2 < b.features.height
  edgeRows : 0 < m.config.layers → m.config.layerKind = .edgeGated → 0 < m.config.edgeDim →
    ∀ e, b.edgeFeatures = some e → e.height = b.edges.length

omit [Scalar α] in
theorem batchFault?_eq_none {m : Classifier α} {b : Batch α} :
    m.batchFault? b = none ↔ b.features.width = m.config.featureSize ∧
      b.graphOf.length = b.features.height ∧ ∀ g ∈ b.graphOf, g < b.graphCount := by
  unfold batchFault?
  split
  · simp_all
  · split
    · simp_all
    · simp_all [List.find?_eq_none]

/-- Without an encoder the layers see no edge features. -/
theorem edgeEncoder_eq_none {m : Classifier α} (hm : m.Shaped) (h : m.config.edgeDim = 0) :
    m.edgeEncoder = none := by
  have hsome := hm.encoder_isSome
  rw [h] at hsome
  simpa using hsome

theorem edgeEncoder_eq_some {m : Classifier α} (hm : m.Shaped) (h : 0 < m.config.edgeDim) :
    ∃ e, m.edgeEncoder = some e ∧ e.Shaped m.config := by
  have hsome := hm.encoder_isSome
  rw [decide_eq_true h] at hsome
  obtain ⟨e, he⟩ := Option.isSome_iff_exists.1 hsome
  exact ⟨e, he, hm.encoder e he⟩

theorem layerEdgeDim_pos {c : Config α} (hc : c.fault? = none) (hd : 0 < c.edgeDim) :
    c.layerEdgeDim = c.edgeNeurons ∧ 0 < c.layerEdgeDim := by
  have hdim : c.layerEdgeDim = c.edgeNeurons := if_pos hd
  exact ⟨hdim, hdim ▸ Nat.pos_of_ne_zero ((Config.fault?_eq_none.1 hc).2.2.2.2.2 hd).2⟩

/-- The encoder turns the edge features of a batch into what the links carry. -/
theorem encodeEdges_eq_ok {m : Classifier α} (hm : m.Shaped) {b : Batch α}
    (hb : 0 < m.config.edgeDim → ∃ e, b.edgeFeatures = some e ∧ e.width = m.config.edgeDim) :
    ∃ edgeFeatures, m.encodeEdges b = .ok edgeFeatures ∧
      ((0 < m.config.edgeDim → ∀ e, b.edgeFeatures = some e → e.height = b.edges.length) →
        Carries (m.links b) m.config.layerEdgeDim edgeFeatures) := by
  by_cases hd : 0 < m.config.edgeDim
  · obtain ⟨encoder, hencoder, hshaped⟩ := edgeEncoder_eq_some hm hd
    obtain ⟨e, he, hew⟩ := hb hd
    obtain ⟨y, hy, hyw, hyr⟩ := EdgeEncoder.apply_yields hshaped hew
    refine ⟨some y, by simp [encodeEdges, hencoder, he, hy, Except.map], ?_⟩
    intro hrows
    obtain ⟨hdim, hpos⟩ := layerEdgeDim_pos hm.valid hd
    have hlength : e.rows.length = b.edges.length := hrows hd e he
    refine ⟨hpos, hyw.trans hdim.symm, hyr.trans ?_⟩
    apply List.ext_getElem
    · simpa [links] using hlength
    · intro i h₁ h₂
      have hi : i < e.rows.length := by simpa using h₁
      simp [links, edgeRow, hencoder, he, row_eq_getElem hi]
  · have hzero : m.config.edgeDim = 0 := by omega
    have hencoder := edgeEncoder_eq_none hm hzero
    refine ⟨none, by simp [encodeEdges, hencoder], fun _ => ⟨if_neg hd, ?_⟩⟩
    intro k hk
    obtain ⟨i, hi, rfl⟩ := List.mem_mapIdx.1 hk
    simp [edgeRow, hencoder]

/-- The scores of a graph of a batch in evaluation mode. -/
def scoreRow (m : Classifier α) (b : Batch α) (g : Nat) : List α :=
  m.headRow (maxRow m.config.featureSize (segment b.graphOf
    ((List.range b.features.height).map
      (Layer.stackRow (m.links b) m.layers b.features.row)) g))

/-- A classifier in evaluation mode gives scores for every batch that it reads, and stays as it
is. -/
theorem forward_eval_yields {m : Classifier α} (hm : m.Shaped) (he : m.training = false)
    {b : Batch α} (hb : m.Reads b) (hcount : b.graphCount ≠ 0) :
    (m.forward b).2 = m ∧
      Yields (m.forward b).1 m.config.outChannels
        ((List.range b.graphCount).map (m.scoreRow b)) := by
  obtain ⟨edgeFeatures, hencode, hcarries⟩ := encodeEdges_eq_ok hm hb.edgeFeatures
  have hlayers : m.layers ≠ [] → 0 < m.config.layers := by
    rw [← hm.layers_length]
    exact List.length_pos_of_ne_nil
  have hwithin : m.layers ≠ [] → ∀ k ∈ m.links b, k.Within b.features.height := by
    intro hne k hk
    exact hb.edges (hlayers hne) k.edge (m.map_edge_links b ▸ List.mem_map_of_mem hk)
  obtain ⟨hsame, x, hx, hxw, hxr⟩ := Layer.forwardStack_eval_yields hm.layers hwithin
    (fun hne hkind => hcarries (hb.edgeRows (hlayers hne) hkind)) hb.width
    b.features.rows_eq_map_row
  rw [map_edge_links] at hsame hx
  have hstack : Layer.forwardStack b.edges edgeFeatures m.training m.layers b.features
      = (.ok x, m.layers) := by
    rw [he]
    exact Prod.ext hx hsame
  -- what the head gets has a row for each graph
  obtain ⟨pooled, hp, hpw, hpr⟩ := maxPool_yields (m := x) hb.graphOf_lt
  obtain ⟨hhead, hrows⟩ := head_eval_yields hm he (hpw.trans hxw) hpr
  have hforward : m.forward b = m.head pooled := by
    have hfault := batchFault?_eq_none.2 ⟨hb.width, hb.graphOf_length, hb.graphOf_lt⟩
    simp only [forward, hb.finite, if_neg hcount, hfault, hencode, score, hstack, hp]
  rw [hforward]
  refine ⟨hhead, ?_⟩
  rw [hxr, hxw] at hrows
  exact hrows

end Classifier

/-! ## What a result says of the batch -/

theorem EdgeGated.faults_of_forward {layer : EdgeGated α} {x y : Matrix α}
    {edges : List (Nat × Nat)} {edgeFeatures : Option (Matrix α)} {training : Bool}
    (h : (layer.forward x edges edgeFeatures training).1 = .ok y) :
    nodeFault? x layer.channels edges = none ∧
      layer.edgeFeatureFault? edges edgeFeatures = none := by
  unfold forward at h
  cases hnode : nodeFault? x layer.channels edges with
  | some fault => simp [hnode] at h
  | none =>
    cases hedge : layer.edgeFeatureFault? edges edgeFeatures with
    | some fault => simp [hnode, hedge] at h
    | none => exact ⟨rfl, rfl⟩

omit [Scalar α] in
theorem edgeFault?_of_nodeFault? {x : Matrix α} {channels : Nat} {edges : List (Nat × Nat)}
    (h : nodeFault? x channels edges = none) : edgeFault? x.height edges = none := by
  unfold nodeFault? at h
  split at h
  · simp at h
  · exact h

/-- A layer of any kind looks at the ends of all edges. -/
theorem Layer.edgeFault?_of_forward {l : Layer α} {x y : Matrix α} {edges : List (Nat × Nat)}
    {edgeFeatures : Option (Matrix α)} {training : Bool}
    (h : (l.forward x edges edgeFeatures training).1 = .ok y) :
    edgeFault? x.height edges = none := by
  cases l with
  | edgeGated l => exact edgeFault?_of_nodeFault? (EdgeGated.faults_of_forward h).1
  | graphConv l =>
    cases hf : nodeFault? x l.channels edges with
    | some fault => simp [forward, GraphConv.forward, hf] at h
    | none => exact edgeFault?_of_nodeFault? hf
  | attention l =>
    cases hf : nodeFault? x l.channels edges with
    | some fault => simp [forward, Attention.forward, hf] at h
    | none => exact edgeFault?_of_nodeFault? hf
  | gatedGraph l =>
    cases hf : nodeFault? x l.channels edges with
    | some fault => simp [forward, GatedGraph.forward, hf] at h
    | none => exact edgeFault?_of_nodeFault? hf

/-- An edge-gated layer wants a row of features for each edge. -/
theorem Layer.height_of_forward {c : Config α} {l : Layer α} (hl : l.Shaped c)
    (hkind : c.layerKind = .edgeGated) {x y e : Matrix α} {edges : List (Nat × Nat)}
    {training : Bool} (h : (l.forward x edges (some e) training).1 = .ok y) :
    e.height = edges.length := by
  cases l with
  | edgeGated l =>
    have hnone := (EdgeGated.faults_of_forward h).2
    simp only [EdgeGated.edgeFeatureFault?, ite_eq_left_iff, reduceCtorEq, imp_false,
      not_not] at hnone
    exact hnone.2.2
  | graphConv l => exact absurd (hkind.symm.trans hl.1) (by decide)
  | attention l => exact absurd (hkind.symm.trans hl.1) (by decide)
  | gatedGraph l => exact absurd (hkind.symm.trans hl.1) (by decide)

theorem Layer.forward_of_forwardStack {l : Layer α} {rest : List (Layer α)} {x y : Matrix α}
    {edges : List (Nat × Nat)} {edgeFeatures : Option (Matrix α)} {training : Bool}
    (h : (forwardStack edges edgeFeatures training (l :: rest) x).1 = .ok y) :
    ∃ z, (l.forward x edges edgeFeatures training).1 = .ok z := by
  unfold forwardStack at h
  split at h
  · simp at h
  · rename_i z l' hz
    exact ⟨z, congrArg Prod.fst hz⟩

theorem Linear.inputs_of_apply {l : Linear α} {x y : Matrix α} (h : l.apply x = .ok y) :
    x.width = l.inputs := by
  unfold apply at h
  split at h
  · simp at h
  · rename_i hx
    exact not_not.1 hx

namespace Classifier

/-- Edge features that have been encoded are there, have the right width, and keep their number. -/
theorem edgeFeatures_of_encodeEdges {m : Classifier α} (hm : m.Shaped) {b : Batch α}
    {edgeFeatures : Option (Matrix α)} (h : m.encodeEdges b = .ok edgeFeatures)
    (hd : 0 < m.config.edgeDim) :
    ∃ e y, b.edgeFeatures = some e ∧ e.width = m.config.edgeDim ∧ edgeFeatures = some y ∧
      y.width = m.config.layerEdgeDim ∧ y.height = e.height := by
  obtain ⟨encoder, hencoder, hshaped⟩ := edgeEncoder_eq_some hm hd
  unfold encodeEdges at h
  rw [hencoder] at h
  cases he : b.edgeFeatures with
  | none => simp [he] at h
  | some e =>
    have hw : e.width = m.config.edgeDim := by
      rw [← hshaped.first.inputs_eq]
      cases hf : encoder.first.apply e with
      | error failure => simp [he, EdgeEncoder.apply, hf, bind, Except.bind, Except.map] at h
      | ok z => exact Linear.inputs_of_apply hf
    obtain ⟨y, hy, hyw, hyr⟩ := EdgeEncoder.apply_yields hshaped hw
    simp only [he, hy, Except.map, Except.ok.injEq] at h
    exact ⟨e, y, rfl, hw, h.symm, hyw.trans (layerEdgeDim_pos hm.valid hd).1.symm,
      height_of_rows_eq hyr⟩

/-- What a classifier that gives scores, in any mode, has done before it pools. -/
theorem stages_of_forward {m : Classifier α} {b : Batch α} {y : Matrix α}
    (hcount : b.graphCount ≠ 0) (h : (m.forward b).1 = .ok y) :
    m.divergence? = none ∧ m.batchFault? b = none ∧ ∃ edgeFeatures x,
      m.encodeEdges b = .ok edgeFeatures ∧
      (Layer.forwardStack b.edges edgeFeatures m.training m.layers b.features).1 = .ok x := by
  unfold forward at h
  cases hfinite : m.divergence? with
  | some failure => simp [hfinite] at h
  | none =>
    cases hfault : m.batchFault? b with
    | some fault => simp [hfinite, hcount, hfault] at h
    | none =>
      cases hencode : m.encodeEdges b with
      | error failure => simp [hfinite, hcount, hfault, hencode] at h
      | ok edgeFeatures =>
        simp only [hfinite, hcount, if_false, hfault, hencode] at h
        cases hstack : (Layer.forwardStack b.edges edgeFeatures m.training m.layers
            b.features).1 with
        | error failure => simp [score, hstack] at h
        | ok x => exact ⟨rfl, rfl, edgeFeatures, x, rfl, hstack⟩

/-- A classifier that has given scores for a batch, in any mode, reads it. -/
theorem reads_of_forward {m : Classifier α} (hm : m.Shaped) {b : Batch α} {y : Matrix α}
    (hcount : b.graphCount ≠ 0) (h : (m.forward b).1 = .ok y) : m.Reads b := by
  obtain ⟨hfinite, hfault, edgeFeatures, x, hencode, hstack⟩ := stages_of_forward hcount h
  obtain ⟨hwidth, hlength, hbelow⟩ := batchFault?_eq_none.1 hfault
  have hencoded := edgeFeatures_of_encodeEdges hm hencode
  -- the first layer has looked at the edges
  have hfirst : 0 < m.config.layers → ∃ l ∈ m.layers, ∃ z,
      (l.forward b.features b.edges edgeFeatures m.training).1 = .ok z := by
    intro hpos
    cases hlayers : m.layers with
    | nil => simp [← hm.layers_length, hlayers] at hpos
    | cons l rest =>
      rw [hlayers] at hstack
      exact ⟨l, List.mem_cons_self, Layer.forward_of_forwardStack hstack⟩
  refine ⟨hfinite, hwidth, hlength, hbelow, ?_, ?_, ?_⟩
  · intro hd
    obtain ⟨e, -, he, hw, -⟩ := hencoded hd
    exact ⟨e, he, hw⟩
  · intro hpos
    obtain ⟨l, -, z, hz⟩ := hfirst hpos
    exact edgeFault?_eq_none.1 (Layer.edgeFault?_of_forward hz)
  · intro hpos hkind hd e he
    obtain ⟨e', encoded, he', -, rfl, -, hheight⟩ := hencoded hd
    obtain ⟨l, hl, z, hz⟩ := hfirst hpos
    rw [he'] at he
    rw [← Option.some.inj he, ← hheight]
    exact Layer.height_of_forward (hm.layers l hl) hkind hz

/-- A classifier in evaluation mode that has given scores has given each graph its own. -/
theorem rows_of_forward_eval {m : Classifier α} (hm : m.Shaped) (he : m.training = false)
    {b : Batch α} {y : Matrix α} (hy : (m.forward b).1 = .ok y) :
    y.rows = (List.range b.graphCount).map (m.scoreRow b) := by
  by_cases hcount : b.graphCount = 0
  · unfold forward at hy
    cases hdiverged : m.divergence? with
    | some failure => simp [hdiverged] at hy
    | none =>
      simp only [hdiverged, hcount, if_true, Except.ok.injEq] at hy
      rw [hcount, ← hy]
      rfl
  · obtain ⟨-, z, hz, -, hrows⟩ := forward_eval_yields hm he (reads_of_forward hm hcount hy) hcount
    rw [← Except.ok.inj (hz.symm.trans hy), hrows]

end Classifier

end PonziScreen
