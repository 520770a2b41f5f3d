import PonziScreen.Proofs.RealScalar
import PonziScreen.Proofs.Reorder

/-!
# Isomorphic graphs

In exact arithmetic the scores of a batch do not depend on how its nodes are numbered, nor on the
order in which its edges are listed. This holds in training as well: running estimates and random
numbers move on in the same way.

A layer commutes with renumbering (`Layer.forward_reorderRows`), since corresponding nodes get the
same messages, only in another order. What a layer knows of the whole batch, the statistics of its
normalisation, are sums over all nodes. The maxima over the nodes of each graph are then the same
matrix, and the head sees nothing else.
-/

namespace PonziScreen

open PonziScreen.Matrix

variable {α : Type} {n : Nat}

/-! ## Links -/

/-- A link whose nodes have new numbers. -/
def Link.rename (p : Equiv.Perm (Fin n)) (k : Link α) : Link α :=
  ⟨renumber p k.source, renumber p k.target, k.features⟩

theorem Link.rename_within (p : Equiv.Perm (Fin n)) {k : Link α} (h : k.Within n) :
    (k.rename p).Within n :=
  ⟨renumber_lt p h.1, renumber_lt p h.2⟩

/-- With new numbers the same arrives at each node, in the order in which the links are now. -/
theorem corresponds_rename (p : Equiv.Perm (Fin n)) {links links' : List (Link α)}
    (hk : ∀ k ∈ links, k.Within n) (hlinks : links'.Perm (links.map (Link.rename p))) :
    Corresponds List.Perm (fun t t' => t < n ∧ t' = renumber p t) links links' := by
  rintro row row' hrow t t' ⟨ht, rfl⟩
  have hfilter : (links.map (Link.rename p)).filter (fun k => k.target = renumber p t)
      = (links.filter fun k => k.target = t).map (Link.rename p) := by
    rw [List.filter_map]
    refine congrArg _ (List.filter_congr fun k _ => ?_)
    simp [Link.rename, (renumber_injective p).eq_iff]
  have hsame : arrivals row' (links.map (Link.rename p)) (renumber p t) = arrivals row links t := by
    unfold arrivals
    rw [hfilter, List.map_map]
    apply List.map_congr_left
    intro k hmem
    have hsource : row' (renumber p k.source) = row k.source :=
      (hrow _ _ ⟨(hk k (List.mem_of_mem_filter hmem)).1, rfl⟩).symm
    simp [Link.rename, hsource, (renumber_injective p).eq_iff]
  rw [← hsame]
  exact ((hlinks.filter _).map _).symm

/-! ## Linear maps -/

section Linear

variable [Scalar α] (p : Equiv.Perm (Fin n))

theorem Matrix.addRow_reorderRows (m : Matrix α) (row : List α) :
    (m.reorderRows p).addRow row = (m.addRow row).map (reorderRows p) := by
  unfold addRow
  by_cases h : row.length = m.width ∨ row.length = 1
  · have h' : row.length = (m.reorderRows p).width ∨ row.length = 1 := h
    rw [dif_pos h, dif_pos h']
    exact congrArg Except.ok (mapRows_reorderRows p m _ _ _)
  · have h' : ¬ (row.length = (m.reorderRows p).width ∨ row.length = 1) := h
    rw [dif_neg h, dif_neg h']
    rfl

theorem Linear.apply_reorderRows (l : Linear α) (x : Matrix α) :
    l.apply (x.reorderRows p) = (l.apply x).map (reorderRows p) := by
  have hproduct : (x.reorderRows p).mulTransposed l.weight
      = (x.mulTransposed l.weight).reorderRows p := mapRows_reorderRows p x _ _ _
  unfold apply
  rw [hproduct, width_reorderRows]
  by_cases hx : x.width ≠ l.inputs
  · rw [if_pos hx, if_pos hx]
    rfl
  · rw [if_neg hx, if_neg hx]
    cases l.bias with
    | none => rfl
    | some b => exact addRow_reorderRows p _ b

theorem EdgeEncoder.apply_reorderRows (e : EdgeEncoder α) (x : Matrix α) :
    e.apply (x.reorderRows p) = (e.apply x).map (reorderRows p) := by
  unfold apply
  rw [Linear.apply_reorderRows]
  cases e.first.apply x with
  | error failure => rfl
  | ok y => exact Linear.apply_reorderRows p e.second y

end Linear

/-! ## Normalisation -/

variable [Scalar α] [Scalar.OrderFree α] (p : Equiv.Perm (Fin n))

namespace BatchNorm

theorem batchStatistics_reorderRows (x : Matrix α) :
    batchStatistics (x.reorderRows p) = batchStatistics x := by
  unfold batchStatistics columns
  rw [List.map_map, List.map_map]
  refine List.map_congr_left fun j _ => ?_
  have hcolumn := (reorder_perm p x.rows).filterMap fun r => r[j]?
  exact Prod.ext (NormChannel.mean_perm hcolumn) (NormChannel.variance_perm hcolumn)

theorem observe_reorderRows (b : BatchNorm α) (x : Matrix α) :
    b.observe (x.reorderRows p) = b.observe x := by
  have hcolumn := fun j : Nat => (reorder_perm p x.rows).filterMap fun r => r[j]?
  unfold observe columns
  rw [List.zipWith_map_right, List.zipWith_map_right]
  have hstep : (fun (c : NormChannel α) (j : Nat) =>
        c.observe ((x.reorderRows p).rows.filterMap fun r => r[j]?))
      = fun c j => c.observe (x.rows.filterMap fun r => r[j]?) :=
    funext fun c => funext fun j => c.observe_perm (hcolumn j)
  rw [hstep]
  rfl

omit [Scalar.OrderFree α] in
theorem normalise_reorderRows (b : BatchNorm α) (x : Matrix α) (hx : x.width = b.width)
    {statistics statistics' : List (α × α)} (hs : statistics.length = b.channels.length)
    (hs' : statistics'.length = b.channels.length) (h : statistics' = statistics) :
    b.normalise (x.reorderRows p) hx statistics' hs'
      = (b.normalise x hx statistics hs).reorderRows p := by
  subst h
  exact mapRows_reorderRows p x _ _ _

/-- A normalisation commutes with reordering, and learns the same. -/
theorem forward_reorderRows (b : BatchNorm α) (x : Matrix α) (training : Bool) :
    b.forward (x.reorderRows p) training
      = ((b.forward x training).1.map (reorderRows p), (b.forward x training).2) := by
  unfold forward
  by_cases hx : x.width = b.width
  · rw [dif_pos hx, dif_pos (show (x.reorderRows p).width = b.width from hx)]
    cases training with
    | false => exact Prod.ext (congrArg Except.ok (normalise_reorderRows p b x hx _ _ rfl)) rfl
    | true =>
      rw [if_pos rfl, if_pos rfl, height_reorderRows]
      by_cases hh : x.height ≤ 1
      · rw [if_pos hh, if_pos hh]
        rfl
      · rw [if_neg hh, if_neg hh]
        refine Prod.ext (congrArg Except.ok ?_) (observe_reorderRows p b x)
        exact normalise_reorderRows p b x hx _ _ (batchStatistics_reorderRows p x)
  · rw [dif_neg hx, dif_neg (show ¬ (x.reorderRows p).width = b.width from hx)]
    rfl

end BatchNorm

/-! ## Layers -/

omit [Scalar.OrderFree α] in
/-- A normalisation keeps the shape of what it normalises. -/
theorem BatchNorm.shape_forward {b : BatchNorm α} {x y : Matrix α} {training : Bool}
    (h : (b.forward x training).1 = .ok y) : y.width = x.width ∧ y.height = x.height := by
  unfold forward at h
  by_cases hx : x.width = b.width
  · rw [dif_pos hx] at h
    have hrows : ∀ (f : List α → List α), (x.rows.map f).length = x.height :=
      fun f => List.length_map f
    cases training with
    | false =>
      cases h
      exact ⟨hx.symm, hrows _⟩
    | true =>
      rw [if_pos rfl] at h
      by_cases hh : x.height ≤ 1
      · simp [hh] at h
      · rw [if_neg hh] at h
        cases h
        exact ⟨hx.symm, hrows _⟩
  · simp [hx] at h

namespace Layer

omit [Scalar.OrderFree α] in
theorem shape_finish {l : Layer α} {x y : Matrix α} {training : Bool}
    (h : (l.finish training x).1 = .ok y) : y.width = x.width ∧ y.height = x.height := by
  have hsame : ∀ z : Matrix α, (Except.ok z : Except Failure (Matrix α)) = .ok y →
      y.width = z.width ∧ y.height = z.height := by
    intro z hz
    cases hz
    exact ⟨rfl, rfl⟩
  cases l with
  | edgeGated l =>
    cases hb : l.norm with
    | none =>
      simp only [finish, hb] at h
      exact hsame x h
    | some b =>
      simp only [finish, hb] at h
      exact BatchNorm.shape_forward h
  | graphConv l => exact hsame x h
  | attention l => exact hsame x h
  | gatedGraph l => exact hsame x h

theorem finish_reorderRows (l : Layer α) (training : Bool) (x : Matrix α) :
    l.finish training (x.reorderRows p)
      = ((l.finish training x).1.map (reorderRows p), (l.finish training x).2) := by
  cases l with
  | edgeGated l =>
    cases hb : l.norm with
    | none => simp only [finish, hb, Except.map]
    | some b => simp only [finish, hb, BatchNorm.forward_reorderRows]
  | graphConv l => rfl
  | attention l => rfl
  | gatedGraph l => rfl

variable {c : Config α} {links links' : List (Link α)}
  (edgeFeatures edgeFeatures' : Option (Matrix α))

/-- A layer commutes with renumbering, and learns the same. -/
theorem forward_reorderRows {l : Layer α} (hl : l.Shaped c) (hk : ∀ k ∈ links, k.Within n)
    (hlinks : links'.Perm (links.map (Link.rename p)))
    (hc : c.layerKind = .edgeGated → Carries links c.layerEdgeDim edgeFeatures)
    (hc' : c.layerKind = .edgeGated → Carries links' c.layerEdgeDim edgeFeatures')
    (training : Bool) {x : Matrix α} (hx : x.width = c.featureSize) (hn : x.height = n) :
    l.forward (x.reorderRows p) (links'.map Link.edge) edgeFeatures' training
        = ((l.forward x (links.map Link.edge) edgeFeatures training).1.map (reorderRows p),
          (l.forward x (links.map Link.edge) edgeFeatures training).2) ∧
      ∀ y, (l.forward x (links.map Link.edge) edgeFeatures training).1 = .ok y →
        y.width = c.featureSize ∧ y.height = n := by
  have hr : x.rows = (List.range n).map x.row := hn ▸ x.rows_eq_map_row
  have hr' : (x.reorderRows p).rows
      = (List.range n).map fun i => x.row (renumber p.symm i) := by
    rw [← reorder_map_range, ← hr]
    rfl
  have hk' : ∀ k ∈ links', k.Within n := by
    intro k hmem
    obtain ⟨k₀, hmem₀, rfl⟩ := List.mem_map.1 (hlinks.mem_iff.1 hmem)
    exact Link.rename_within p (hk k₀ hmem₀)
  -- both runs up to the normalisation
  obtain ⟨y, hyw, hyr, hy⟩ := forward_eq_finish hl hx hr hk hc
  obtain ⟨y', hyw', hyr', hy'⟩ := forward_eq_finish hl (x := x.reorderRows p) hx hr' hk' hc'
  have hrow : ∀ t t', t < n ∧ t' = renumber p t → x.row t = x.row (renumber p.symm t') := by
    rintro t t' ⟨-, rfl⟩
    rw [renumber_symm]
  have hsame : y' = y.reorderRows p := by
    refine eq_of_rows (hyw'.trans hyw.symm) ?_
    show y'.rows = reorder p y.rows
    rw [hyr', hyr, reorder_map_range]
    apply List.map_congr_left
    intro i hi
    have hback : renumber p (renumber p.symm i) = i := renumber_symm p.symm i
    exact (nodeRow_congr l.tolerates_perm (corresponds_rename p hk hlinks) hrow
      (renumber p.symm i) i ⟨renumber_lt p.symm (List.mem_range.1 hi), hback.symm⟩).symm
  refine ⟨?_, ?_⟩
  · rw [hy, hy', hsame, finish_reorderRows]
  · intro z hz
    rw [hy] at hz
    obtain ⟨hw, hh⟩ := shape_finish hz
    exact ⟨hw.trans hyw, hh.trans (by rw [height_of_rows_eq hyr, List.length_range])⟩

/-- A stack of layers commutes with renumbering, learns the same, and keeps the number of nodes. -/
theorem forwardStack_reorderRows {layers : List (Layer α)} (hl : ∀ l ∈ layers, l.Shaped c)
    (hk : ∀ k ∈ links, k.Within n) (hlinks : links'.Perm (links.map (Link.rename p)))
    (hc : c.layerKind = .edgeGated → Carries links c.layerEdgeDim edgeFeatures)
    (hc' : c.layerKind = .edgeGated → Carries links' c.layerEdgeDim edgeFeatures')
    (training : Bool) {x : Matrix α} (hx : x.width = c.featureSize) (hn : x.height = n) :
    forwardStack (links'.map Link.edge) edgeFeatures' training layers (x.reorderRows p)
        = ((forwardStack (links.map Link.edge) edgeFeatures training layers x).1.map
            (reorderRows p),
          (forwardStack (links.map Link.edge) edgeFeatures training layers x).2) ∧
      ∀ y, (forwardStack (links.map Link.edge) edgeFeatures training layers x).1 = .ok y →
        y.height = n := by
  induction layers generalizing x with
  | nil =>
    refine ⟨rfl, fun y hy => ?_⟩
    cases hy
    exact hn
  | cons l rest ih =>
    obtain ⟨hstep, hshape⟩ := forward_reorderRows p edgeFeatures edgeFeatures'
      (hl l List.mem_cons_self) hk hlinks hc hc' training hx hn
    unfold forwardStack
    rw [hstep]
    cases hf : l.forward x (links.map Link.edge) edgeFeatures training with
    | mk result l' =>
      cases result with
      | error failure => exact ⟨rfl, fun y hy => by simp at hy⟩
      | ok y =>
        obtain ⟨hyw, hyh⟩ := hshape y (congrArg Prod.fst hf)
        obtain ⟨hrest, hheight⟩ := ih (fun k hk => hl k (List.mem_cons_of_mem _ hk)) hyw hyh
        simp only [Except.map, hrest]
        exact ⟨trivial, hheight⟩

end Layer

/-! ## Edges with features -/

/-- An edge whose ends have new numbers. -/
def renumberEdge (p : Equiv.Perm (Fin n)) (e : Nat × Nat) : Nat × Nat :=
  (renumber p e.1, renumber p e.2)

section Join

variable {edges : List (Nat × Nat)} {edgeFeatures : Option (Matrix α)}

omit [Scalar α] [Scalar.OrderFree α]

/-- Reordered edges with reordered features are the reordered links. -/
theorem Link.join_reorder (q : Equiv.Perm (Fin edges.length))
    (h : ∀ m ∈ edgeFeatures, m.height = edges.length) :
    Link.join ((reorder q edges).map (renumberEdge p)) (edgeFeatures.map (reorderRows q))
      = (reorder q (Link.join edges edgeFeatures)).map (Link.rename p) := by
  cases edgeFeatures with
  | none =>
    rw [Option.map_none, join, join, reorder_map, List.map_map, List.map_map]
    rfl
  | some m =>
    rw [Option.map_some, join, join, reorder_map, reorder_zip q (h m rfl).symm, List.zip_map_left,
      List.map_map, List.map_map]
    rfl

end Join

namespace Layer

variable {c : Config α} {edges : List (Nat × Nat)} {edgeFeatures : Option (Matrix α)}

omit [Scalar.OrderFree α] in
/-- An edge-gated layer that wants features refuses them if there are not as many as edges. -/
theorem forward_edgeRows_ne (edges : List (Nat × Nat)) {l : EdgeGated α}
    (hl : (edgeGated l).Shaped c) {x : Matrix α} (hx : x.width = c.featureSize)
    (hedges : ∀ e ∈ edges, e.1 < x.height ∧ e.2 < x.height) {m : Matrix α}
    (hm : m.height ≠ edges.length) (training : Bool) :
    (edgeGated l).forward x edges (some m) training
      = (.error (.shapeMismatch (.edgeShape m.height m.width edges.length c.layerEdgeDim)),
        edgeGated l) := by
  have hnode : nodeFault? x l.channels edges = none := by
    rw [nodeFault?, if_neg (by simp [hx, hl.2.channels_eq]), edgeFault?_eq_none]
    exact hedges
  have hedge : l.edgeFeatureFault? edges (some m)
      = some (.edgeShape m.height m.width edges.length c.layerEdgeDim) := by
    rw [EdgeGated.edgeFeatureFault?, if_neg fun h => hm h.2.2, hl.2.edgeDim_eq]
  simp only [forward, EdgeGated.forward, hnode, hedge]

section Rearrange

variable {layers : List (Layer α)} {x : Matrix α} (q : Equiv.Perm (Fin edges.length))

omit [Scalar.OrderFree α] in
theorem rearranged_edges_lt (hedges : ∀ e ∈ edges, e.1 < n ∧ e.2 < n) :
    ∀ e ∈ (reorder q edges).map (renumberEdge p), e.1 < n ∧ e.2 < n := by
  intro e he
  obtain ⟨e₀, he₀, rfl⟩ := List.mem_map.1 he
  have hends := hedges e₀ ((reorder_perm q edges).mem_iff.1 he₀)
  exact ⟨renumber_lt p hends.1, renumber_lt p hends.2⟩

/-- A stack of layers on rearranged edges, if what the edges carry has a row for each of them. -/
theorem forwardStack_rearrange_join (carried : Option (Matrix α))
    (hfits : ∀ m ∈ carried, m.height = edges.length) (hl : ∀ l ∈ layers, l.Shaped c)
    (hx : x.width = c.featureSize) (hn : x.height = n)
    (hedges : ∀ e ∈ edges, e.1 < n ∧ e.2 < n) (edgeFeatures' : Option (Matrix α))
    (hc : c.layerKind = .edgeGated →
      Carries (Link.join edges carried) c.layerEdgeDim edgeFeatures)
    (hc' : c.layerKind = .edgeGated →
      Carries ((reorder q (Link.join edges carried)).map (Link.rename p)) c.layerEdgeDim
        edgeFeatures')
    (training : Bool) :
    forwardStack ((reorder q edges).map (renumberEdge p)) edgeFeatures' training layers
        (x.reorderRows p)
        = ((forwardStack edges edgeFeatures training layers x).1.map (reorderRows p),
          (forwardStack edges edgeFeatures training layers x).2) ∧
      ∀ y, (forwardStack edges edgeFeatures training layers x).1 = .ok y → y.height = n := by
  have hjoined : ((reorder q (Link.join edges carried)).map (Link.rename p)).map Link.edge
      = (reorder q edges).map (renumberEdge p) := by
    rw [← Link.join_reorder p q hfits, Link.map_edge_join]
    intro m hm
    obtain ⟨m₀, hm₀, rfl⟩ := Option.map_eq_some_iff.1 hm
    rw [height_reorderRows, hfits m₀ hm₀, List.length_map, length_reorder]
  have hstack := forwardStack_reorderRows p edgeFeatures edgeFeatures' hl
    (Link.join_within hfits hedges) ((reorder_perm q _).map _) hc hc' training hx hn
  rwa [hjoined, Link.map_edge_join hfits] at hstack

omit [Scalar.OrderFree α] in
/-- The first layer of a stack refuses the wrong number of features, in any order. -/
theorem forwardStack_rearrange_edgeRows_ne (hkind : c.layerKind = .edgeGated)
    (hl : ∀ l ∈ layers, l.Shaped c) (hx : x.width = c.featureSize) (hn : x.height = n)
    (hedges : ∀ e ∈ edges, e.1 < n ∧ e.2 < n) {m : Matrix α} (hm : m.height ≠ edges.length)
    (training : Bool) :
    forwardStack ((reorder q edges).map (renumberEdge p)) (some (m.reorderRows q)) training
        layers (x.reorderRows p)
        = ((forwardStack edges (some m) training layers x).1.map (reorderRows p),
          (forwardStack edges (some m) training layers x).2) ∧
      ∀ y, (forwardStack edges (some m) training layers x).1 = .ok y → y.height = n := by
  cases layers with
  | nil =>
    refine ⟨rfl, fun y hy => ?_⟩
    cases hy
    exact hn
  | cons l rest =>
    have hshaped := hl l List.mem_cons_self
    have hlength : ((reorder q edges).map (renumberEdge p)).length = edges.length := by
      rw [List.length_map, length_reorder]
    cases l with
    | edgeGated l =>
      have hforward := forward_edgeRows_ne edges hshaped hx (hn ▸ hedges) hm training
      have hforward' := forward_edgeRows_ne ((reorder q edges).map (renumberEdge p)) hshaped
        (x := x.reorderRows p) hx (by
          rw [height_reorderRows, hn]
          exact rearranged_edges_lt p q hedges)
        (m := m.reorderRows q) (by rwa [height_reorderRows, hlength]) training
      rw [forwardStack, hforward', forwardStack, hforward, hlength, height_reorderRows,
        width_reorderRows]
      exact ⟨rfl, fun y hy => by simp at hy⟩
    | graphConv l => exact absurd (hkind.symm.trans hshaped.1) (by decide)
    | attention l => exact absurd (hkind.symm.trans hshaped.1) (by decide)
    | gatedGraph l => exact absurd (hkind.symm.trans hshaped.1) (by decide)

/-- A stack of layers on rearranged edges. -/
theorem forwardStack_rearrange (hl : ∀ l ∈ layers, l.Shaped c)
    (hx : x.width = c.featureSize) (hn : x.height = n)
    (hedges : ∀ e ∈ edges, e.1 < n ∧ e.2 < n)
    (hnone : edgeFeatures = none → c.layerEdgeDim = 0)
    (hsome : ∀ m ∈ edgeFeatures, 0 < c.layerEdgeDim ∧ m.width = c.layerEdgeDim)
    (training : Bool) :
    forwardStack ((reorder q edges).map (renumberEdge p)) (edgeFeatures.map (reorderRows q))
        training layers (x.reorderRows p)
        = ((forwardStack edges edgeFeatures training layers x).1.map (reorderRows p),
          (forwardStack edges edgeFeatures training layers x).2) ∧
      ∀ y, (forwardStack edges edgeFeatures training layers x).1 = .ok y → y.height = n := by
  by_cases hfits : ∀ m ∈ edgeFeatures, m.height = edges.length
  · -- each edge has its row of features
    have hcarries := Link.carries_join hfits hnone hsome
    have hcarries' : Carries ((reorder q (Link.join edges edgeFeatures)).map (Link.rename p))
        c.layerEdgeDim (edgeFeatures.map (reorderRows q)) := by
      rw [← Link.join_reorder p q hfits]
      refine Link.carries_join ?_ (fun h => hnone (Option.map_eq_none_iff.1 h)) ?_
      · intro m hm
        obtain ⟨m₀, hm₀, rfl⟩ := Option.map_eq_some_iff.1 hm
        rw [height_reorderRows, hfits m₀ hm₀, List.length_map, length_reorder]
      · intro m hm
        obtain ⟨m₀, hm₀, rfl⟩ := Option.map_eq_some_iff.1 hm
        exact hsome m₀ hm₀
    exact forwardStack_rearrange_join p q edgeFeatures hfits hl hx hn hedges _
      (fun _ => hcarries) (fun _ => hcarries') training
  · by_cases hkind : c.layerKind = .edgeGated
    · -- there is a matrix, and it has the wrong number of rows
      cases edgeFeatures with
      | none => exact absurd (by simp) hfits
      | some m =>
        have hm : m.height ≠ edges.length := by
          intro h
          refine hfits fun m' hm' => ?_
          rwa [← Option.some.inj hm']
        exact forwardStack_rearrange_edgeRows_ne p q hkind hl hx hn hedges hm training
    · -- the other layers do not look at edge features
      exact forwardStack_rearrange_join p q none (by simp) hl hx hn hedges _
        (fun h => absurd h hkind) (fun h => absurd h hkind) training

end Rearrange

end Layer

/-! ## Pooling -/

/-- The maxima over groups do not depend on the order of the grouped rows. -/
theorem Matrix.maxPool_reorderRows (x : Matrix α) {index : List Nat}
    (h : index.length = x.height) (count : Nat) :
    (x.reorderRows p).maxPool (reorder p index) count = x.maxPool index count := by
  have hzip : (reorder p index).zip (reorder p x.rows) = reorder p (index.zip x.rows) :=
    (reorder_zip p h).symm
  have hbelow : groupsBelow count (reorder p index) (reorder p x.rows)
      = groupsBelow count index x.rows := by
    unfold groupsBelow
    rw [hzip]
    exact (reorder_perm p _).all_eq
  have hsegment : ∀ g, (segment (reorder p index) (reorder p x.rows) g).Perm
      (segment index x.rows g) := by
    intro g
    unfold segment
    rw [hzip]
    exact ((reorder_perm p _).filter _).map _
  unfold maxPool
  by_cases hb : groupsBelow count index x.rows = true
  · have hb' : groupsBelow count (reorder p index) (x.reorderRows p).rows = true := hbelow.trans hb
    rw [if_pos hb, if_pos hb']
    refine congrArg Except.ok (eq_of_rows rfl ?_)
    exact List.map_congr_left fun g _ => maxRow_perm x.width (hsegment g)
  · have hb' : ¬ groupsBelow count (reorder p index) (x.reorderRows p).rows = true :=
      fun h => hb (hbelow.symm.trans h)
    rw [if_neg hb, if_neg hb']

/-! ## Batches -/

/-- A batch with its nodes numbered anew by `p`, and with its edges, and the rows of edge features
if there is one for each edge, listed in the order that `q` gives. -/
def Batch.rearrange (b : Batch α) (p : Equiv.Perm (Fin b.nodeCount))
    (q : Equiv.Perm (Fin b.edges.length)) : Batch α :=
  { b with
    features := b.features.reorderRows p
    edges := (reorder q b.edges).map (renumberEdge p)
    edgeFeatures := b.edgeFeatures.map (reorderRows q)
    graphOf := reorder p b.graphOf }

namespace Classifier

variable {m : Classifier α} {b : Batch α} (p : Equiv.Perm (Fin b.nodeCount))
  (q : Equiv.Perm (Fin b.edges.length))

omit [Scalar α] [Scalar.OrderFree α] in
theorem batchFault?_rearrange :
    m.batchFault? (b.rearrange p q) = none ↔ m.batchFault? b = none := by
  have hlength : (b.rearrange p q).graphOf.length = b.graphOf.length := length_reorder p _
  have hheight : (b.rearrange p q).features.height = b.features.height := height_reorderRows p _
  have hmem : ∀ g, g ∈ (b.rearrange p q).graphOf ↔ g ∈ b.graphOf :=
    fun g => (reorder_perm p b.graphOf).mem_iff
  rw [batchFault?_eq_none, batchFault?_eq_none, hlength, hheight]
  simp only [hmem]
  rfl

omit [Scalar.OrderFree α] in
theorem encodeEdges_rearrange :
    m.encodeEdges (b.rearrange p q)
      = (m.encodeEdges b).map fun edgeFeatures => edgeFeatures.map (reorderRows q) := by
  have hfeatures : (b.rearrange p q).edgeFeatures = b.edgeFeatures.map (reorderRows q) := rfl
  unfold encodeEdges
  rw [hfeatures]
  cases m.edgeEncoder with
  | none => rfl
  | some encoder =>
    cases b.edgeFeatures with
    | none => rfl
    | some e =>
      simp only [Option.map_some, EdgeEncoder.apply_reorderRows]
      cases encoder.apply e <;> rfl

/-- Layers, pooling and head give the same for a rearranged batch. -/
theorem score_rearrange (hm : m.Shaped) (hwidth : b.features.width = m.config.featureSize)
    (hgraphOf : b.graphOf.length = b.nodeCount)
    (hedges : ∀ e ∈ b.edges, e.1 < b.nodeCount ∧ e.2 < b.nodeCount)
    {edgeFeatures : Option (Matrix α)} (hencode : m.encodeEdges b = .ok edgeFeatures) :
    m.score (b.rearrange p q) (edgeFeatures.map (reorderRows q)) = m.score b edgeFeatures := by
  have hnone : edgeFeatures = none → m.config.layerEdgeDim = 0 := by
    intro h
    by_cases hd : 0 < m.config.edgeDim
    · obtain ⟨-, y, -, -, hy, -⟩ := edgeFeatures_of_encodeEdges hm hencode hd
      simp [h] at hy
    · exact if_neg hd
  have hsome : ∀ y ∈ edgeFeatures,
      0 < m.config.layerEdgeDim ∧ y.width = m.config.layerEdgeDim := by
    intro y hy
    by_cases hd : 0 < m.config.edgeDim
    · obtain ⟨-, y', -, -, hy', hw, -⟩ := edgeFeatures_of_encodeEdges hm hencode hd
      obtain rfl : y' = y := Option.some.inj (hy'.symm.trans hy)
      exact ⟨(layerEdgeDim_pos hm.valid hd).2, hw⟩
    · have hencoder := edgeEncoder_eq_none hm (Nat.eq_zero_of_not_pos hd)
      simp only [encodeEdges, hencoder, Except.ok.injEq] at hencode
      subst hencode
      simp at hy
  obtain ⟨hstack, hheight⟩ :=
    Layer.forwardStack_rearrange p q hm.layers hwidth rfl hedges hnone hsome m.training
  unfold score
  rw [show (b.rearrange p q).edges = (reorder q b.edges).map (renumberEdge p) from rfl,
    show (b.rearrange p q).features = b.features.reorderRows p from rfl,
    show (b.rearrange p q).graphOf = reorder p b.graphOf from rfl,
    show (b.rearrange p q).graphCount = b.graphCount from rfl, hstack]
  cases hx : (Layer.forwardStack b.edges edgeFeatures m.training m.layers b.features).1 with
  | error failure => simp only [Except.map, hx]
  | ok x =>
    have hpool := maxPool_reorderRows p x (hgraphOf.trans (hheight x hx).symm) b.graphCount
    simp only [Except.map, hpool, hx]

/-- The scores of a batch depend neither on the numbers of its nodes nor on the order of its edges,
and what the classifier is afterwards does not depend on them either. -/
theorem forward_rearrange (hm : m.Shaped) (hgraphOf : b.graphOf.length = b.nodeCount)
    (hedges : ∀ e ∈ b.edges, e.1 < b.nodeCount ∧ e.2 < b.nodeCount) :
    (m.forward (b.rearrange p q)).2 = (m.forward b).2 ∧
      ∀ y, (m.forward (b.rearrange p q)).1 = .ok y ↔ (m.forward b).1 = .ok y := by
  have hfault := batchFault?_rearrange (m := m) p q
  unfold forward
  rw [show (b.rearrange p q).graphCount = b.graphCount from rfl]
  cases m.divergence? with
  | some failure => exact ⟨rfl, fun y => Iff.rfl⟩
  | none =>
    by_cases hcount : b.graphCount = 0
    · simp only [hcount, if_true, implies_true, and_self]
    · simp only [hcount, if_false]
      cases hf : m.batchFault? b with
      | some fault =>
        -- only the graph that the message names may be another one
        cases hf' : m.batchFault? (b.rearrange p q) with
        | some fault' => simp
        | none => simp [hfault.1 hf'] at hf
      | none =>
        rw [hfault.2 hf, encodeEdges_rearrange]
        cases hencode : m.encodeEdges b with
        | error failure => exact ⟨rfl, fun y => Iff.rfl⟩
        | ok edgeFeatures =>
          have hscore := score_rearrange p q hm (batchFault?_eq_none.1 hf).1 hgraphOf hedges hencode
          simp only [Except.map, hscore, implies_true, and_self]

/-- A new classifier, in training and with real numbers; two nodes change places, and so do two
edges. -/
theorem forward_rearrange_initial :
    ∃ (m : Classifier ℝ) (b : Batch ℝ) (p : Equiv.Perm (Fin b.nodeCount))
      (q : Equiv.Perm (Fin b.edges.length)),
      m.config = Config.initial ∧ m.Shaped ∧ b.graphOf.length = b.nodeCount ∧
      (∀ e ∈ b.edges, e.1 < b.nodeCount ∧ e.2 < b.nodeCount) ∧
      b.edges = [(0, 1), (0, 0)] ∧ (b.rearrange p q).edges = [(1, 1), (1, 0)] ∧
      (m.forward (b.rearrange p q)).2 = (m.forward b).2 ∧
      ∀ y, (m.forward (b.rearrange p q)).1 = .ok y ↔ (m.forward b).1 = .ok y := by
  obtain ⟨m, hm⟩ := exists_build 0 Config.fault?_initial_real
  obtain ⟨hshaped, hconfig⟩ := build_shaped hm
  let swap : Equiv.Perm (Fin 2) := Equiv.swap 0 1
  let features : Matrix ℝ := Matrix.zeros 2 FeatureGraph.nodeWidth
  let b : Batch ℝ := ⟨features, [(0, 1), (0, 0)], none, [0, 0], none, 1⟩
  have hcount : b.nodeCount = 2 := List.length_replicate
  have hedges : ∀ e ∈ b.edges, e.1 < b.nodeCount ∧ e.2 < b.nodeCount := by
    rw [hcount]
    decide
  exact ⟨m, b, swap, swap, hconfig, hshaped, hcount.symm, hedges, rfl, by decide,
    forward_rearrange (b := b) swap swap hshaped hcount.symm hedges⟩

end Classifier

end PonziScreen
