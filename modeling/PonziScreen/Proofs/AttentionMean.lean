import Mathlib.Data.Finset.Lattice.Fold
import PonziScreen.Proofs.ExactScalar

/-!
# Attention as a mean

An attention layer divides exponentials of scores by their sum. Each node has a loop, so there is a
score at each node, and the greatest of them is subtracted from all; the greatest one then has the
exponential of zero, and the sum is no less than that. So the layer never divides by zero, its
weights are positive and add up to one at each node, and a node gets a mean of what it attends to.

This takes exact arithmetic and an exponential function that is positive and one at zero, and
nothing else (`ExactScalar`).

* `Attention.Pass` — the stages of a layer, and `Attention.Pass.forward_eq` — that it takes them
* `Attention.one_le_total`, `Attention.sum_edgeWeight` — the sums at a node
* `Attention.forward_averages` — the layer as a mean
-/

namespace PonziScreen

open PonziScreen.Matrix

namespace Attention

variable {α : Type} [Scalar α]

/-! ## Stages -/

/-- The nodes at which the edges of a layer end. -/
def targets (nodes : Nat) (edges : List (Nat × Nat)) : List Nat :=
  (withSelfLoops nodes edges).map Prod.snd

/-- The exponentials of scores, each of which is taken less the greatest one at its node. -/
def softmaxShares (nodes : Nat) (targets : List Nat) (scores : List α) :
    Except Failure (List α) := do
  let tops := (List.range nodes).map fun t => Scalar.maximum (segment targets scores t)
  (targets.zip scores).mapM fun p => do
    return Scalar.exp (p.2 - (← pick tops p.1))

/-- What a softmax divides by: for each node the sum of the exponentials at it. -/
def softmaxTotals (nodes : Nat) (targets : List Nat) (shares : List α) : List α :=
  (List.range nodes).map fun t => Scalar.sum (segment targets shares t)

/-- What a layer computes on its way to the new features. -/
structure Pass (layer : Attention α) (x : Matrix α) (edges : List (Nat × Nat)) where
  mapped : Matrix α
  scores : List α
  shares : List α
  weights : List α
  output : Matrix α
  mapped_eq : layer.map.apply x = .ok mapped
  scores_eq :
    (do
      let source ← mapped.mulVec layer.sourceScore
      let target ← mapped.mulVec layer.targetScore
      Attention.scores source target (withSelfLoops x.height edges)) = .ok scores
  shares_eq : softmaxShares x.height (targets x.height edges) scores = .ok shares
  /-- Each exponential is divided by the sum at its node. -/
  weights_eq :
    ((targets x.height edges).zip shares).mapM (fun p => do
      return p.2 / (← pick (softmaxTotals x.height (targets x.height edges) shares) p.1))
        = .ok weights
  output_eq :
    (do
      let messages ← mapped.gather ((withSelfLoops x.height edges).map Prod.fst)
      let sums ← (weighRows messages weights).scatterAdd (targets x.height edges) x.height
      sums.addRow layer.bias) = .ok output

section Stages

variable {layer : Attention α} {x : Matrix α} {edges : List (Nat × Nat)}

/-- A layer that finds no fault goes through these stages. -/
theorem Pass.forward_eq (p : Pass layer x edges)
    (h : nodeFault? x layer.channels edges = none) : layer.forward x edges = .ok p.output := by
  obtain ⟨source, hsource, hscores⟩ := bind_eq_ok.1 p.scores_eq
  obtain ⟨target, htarget, hscores⟩ := bind_eq_ok.1 hscores
  have hweights : softmaxAt x.height (targets x.height edges) p.scores = .ok p.weights := by
    show (softmaxShares x.height (targets x.height edges) p.scores >>= _) = _
    rw [p.shares_eq, ok_bind]
    exact p.weights_eq
  unfold forward
  rw [h]
  dsimp only
  rw [p.mapped_eq, ok_bind, hsource, ok_bind, htarget, ok_bind, hscores, ok_bind]
  show (softmaxAt x.height (targets x.height edges) p.scores >>= _) = _
  rw [hweights, ok_bind]
  exact p.output_eq

omit [Scalar α] in
/-- A layer looks at the edges between different nodes, and at a loop at each node. -/
theorem mem_withSelfLoops {n : Nat} {e : Nat × Nat} :
    e ∈ withSelfLoops n edges ↔ (e ∈ edges ∧ e.1 ≠ e.2) ∨ (e.1 = e.2 ∧ e.2 < n) := by
  obtain ⟨s, t⟩ := e
  simp only [withSelfLoops, List.mem_append, List.mem_filter, List.mem_map, List.mem_range,
    decide_eq_true_eq, Prod.mk.injEq]
  refine or_congr_right ⟨?_, ?_⟩
  · rintro ⟨i, hi, rfl, rfl⟩
    exact ⟨rfl, hi⟩
  · rintro ⟨rfl, hs⟩
    exact ⟨s, hs, rfl, rfl⟩

omit [Scalar α] in
theorem lt_of_mem_withSelfLoops {n : Nat} (hedges : ∀ e ∈ edges, e.1 < n ∧ e.2 < n) :
    ∀ e ∈ withSelfLoops n edges, e.1 < n ∧ e.2 < n := by
  intro e he
  obtain ⟨hmem, -⟩ | ⟨hloop, hlt⟩ := mem_withSelfLoops.1 he
  · exact hedges e hmem
  · exact ⟨hloop ▸ hlt, hlt⟩

omit [Scalar α] in
/-- Loops are replaced, so it does not matter whether there are any. -/
theorem withSelfLoops_filter (n : Nat) (edges : List (Nat × Nat)) :
    withSelfLoops n (edges.filter fun e => e.1 ≠ e.2) = withSelfLoops n edges := by
  simp only [withSelfLoops, List.filter_filter, Bool.and_self]

/-- Without the loops of its input a layer does the same. -/
theorem forward_filter (hx : x.width = layer.channels)
    (hedges : ∀ e ∈ edges, e.1 < x.height ∧ e.2 < x.height) :
    layer.forward x (edges.filter fun e => e.1 ≠ e.2) = layer.forward x edges := by
  have hfit : ∀ others : List (Nat × Nat), (∀ e ∈ others, e ∈ edges) →
      nodeFault? x layer.channels others = none := by
    intro others hothers
    rw [nodeFault?, if_neg (not_not.2 hx), edgeFault?_eq_none]
    exact fun e he => hedges e (hothers e he)
  unfold forward
  rw [hfit edges fun e he => he, hfit _ fun e he => List.mem_of_mem_filter he]
  simp only [withSelfLoops_filter]

end Stages

/-! ## Edges -/

/-- The edges that end at a node. -/
def incoming (edges : List (Nat × Nat)) (t : Nat) : List (Nat × Nat) :=
  edges.filter fun e => e.2 = t

/-- The score of an edge between mapped nodes. -/
def edgeScore (layer : Attention α) (mapped : Matrix α) (e : Nat × Nat) : α :=
  layer.scoreOf (mapped.row e.1) (mapped.row e.2)

/-- The exponential of the score of an edge, less the greatest score at the target. -/
def share (edges : List (Nat × Nat)) (score : Nat × Nat → α) (e : Nat × Nat) : α :=
  Scalar.exp (score e - Scalar.maximum ((incoming edges e.2).map score))

/-- The sum of the exponentials at a node. -/
def total (edges : List (Nat × Nat)) (score : Nat × Nat → α) (t : Nat) : α :=
  Scalar.sum ((incoming edges t).map (share edges score))

theorem edgeWeight_eq (edges : List (Nat × Nat)) (score : Nat × Nat → α) (e : Nat × Nat) :
    edgeWeight edges score e = share edges score e / total edges score e.2 := rfl

section Edges

variable {n : Nat} {edges : List (Nat × Nat)} {score : Nat × Nat → α}

theorem softmaxShares_eq_ok (h : ∀ e ∈ edges, e.2 < n) :
    softmaxShares n (edges.map Prod.snd) (edges.map score)
      = .ok (edges.map (share edges score)) := by
  unfold softmaxShares
  simp only [segment_map]
  exact mapM_pick h (fun a b => Scalar.exp (a - b)) score _

theorem softmaxTotals_eq :
    softmaxTotals n (edges.map Prod.snd) (edges.map (share edges score))
      = (List.range n).map (total edges score) := by
  simp only [softmaxTotals, segment_map]
  rfl

end Edges

/-! ## A pass, node by node -/

section Pass

variable {layer : Attention α} {channels : Nat} {x : Matrix α} {edges : List (Nat × Nat)}

/-- The edges that a layer looks at. -/
def Pass.looped (_ : Pass layer x edges) : List (Nat × Nat) := withSelfLoops x.height edges

/-- The score of an edge in a pass. -/
def Pass.score (p : Pass layer x edges) : Nat × Nat → α := layer.edgeScore p.mapped

/-- The stages of a pass as maps over edges and nodes. -/
structure Pass.ByNodes (p : Pass layer x edges) (channels : Nat) : Prop where
  mapped_width : p.mapped.width = channels
  mapped_rows : p.mapped.rows = (List.range x.height).map fun i => layer.map.row (x.row i)
  shares : p.shares = p.looped.map (share p.looped p.score)
  weights : p.weights = p.looped.map (edgeWeight p.looped p.score)
  output_width : p.output.width = channels
  output_rows : p.output.rows = (List.range x.height).map fun t => List.zipWith (· + ·)
    (sumRows channels ((incoming p.looped t).map fun e =>
      (p.mapped.row e.1).map (· * edgeWeight p.looped p.score e))) layer.bias

/-- The scores of edges are those of the mapped nodes. -/
theorem scores_mapped (hl : layer.Shaped channels) {mapped : Matrix α}
    (hwidth : mapped.width = channels)
    (hedges : ∀ e ∈ edges, e.1 < mapped.height ∧ e.2 < mapped.height) :
    (do
      let source ← mapped.mulVec layer.sourceScore
      let target ← mapped.mulVec layer.targetScore
      Attention.scores source target edges) = .ok (edges.map (layer.edgeScore mapped)) := by
  rw [mulVec_of_length (hl.sourceScore_length.trans hwidth.symm), ok_bind,
    mulVec_of_length (hl.targetScore_length.trans hwidth.symm), ok_bind, mapped.rows_eq_map_row,
    List.map_map, List.map_map]
  exact scores_eq_ok hedges _ _

/-- The rows of sources with some weights, summed at the targets and moved by the bias. -/
theorem output_yields (hl : layer.Shaped channels) {mapped : Matrix α}
    (hwidth : mapped.width = channels)
    (hedges : ∀ e ∈ edges, e.1 < mapped.height ∧ e.2 < mapped.height) (w : Nat × Nat → α) :
    Yields (do
        let messages ← mapped.gather (edges.map Prod.fst)
        let sums ← (weighRows messages (edges.map w)).scatterAdd (edges.map Prod.snd) mapped.height
        sums.addRow layer.bias) channels
      ((List.range mapped.height).map fun t => List.zipWith (· + ·)
        (sumRows channels ((incoming edges t).map fun e => (mapped.row e.1).map (· * w e)))
        layer.bias) := by
  refine Yields.bind (gather_yields ?_) fun m hmw hm => ?_
  · intro i hi
    obtain ⟨e, he, rfl⟩ := List.mem_map.1 hi
    exact (hedges e he).1
  have hweighed : (weighRows m (edges.map w)).rows
      = edges.map fun e => (mapped.row e.1).map (· * w e) := by
    show List.zipWith _ m.rows _ = _
    rw [hm, List.map_map, List.zipWith_map, List.zipWith_self]
    rfl
  refine (scatterAdd_yields hweighed fun e he => (hedges e he).2).bind fun sums hsw hs => ?_
  have hsums : sums.width = channels := hsw.trans (hmw.trans hwidth)
  have hall := addRow_yields (hl.bias_length.trans hsums.symm) hs
  rw [hsums] at hall
  have hmessages : (weighRows m (edges.map w)).width = channels := hmw.trans hwidth
  rw [hmessages] at hall
  exact hall

/-- A layer goes through all its stages if its input fits. -/
theorem exists_pass (hl : layer.Shaped channels) (hx : x.width = channels)
    (hedges : ∀ e ∈ edges, e.1 < x.height ∧ e.2 < x.height) :
    ∃ p : Pass layer x edges, p.ByNodes channels := by
  obtain ⟨mapped, hmapped, hwidth, hrows⟩ := Linear.apply_yields hl.map hx x.rows_eq_map_row
  have hheight : x.height = mapped.height := by rw [height_of_rows_eq hrows, List.length_range]
  have hloops : ∀ e ∈ withSelfLoops x.height edges, e.1 < mapped.height ∧ e.2 < mapped.height :=
    hheight ▸ lt_of_mem_withSelfLoops hedges
  have htargets : ∀ e ∈ withSelfLoops x.height edges, e.2 < x.height :=
    fun e he => hheight ▸ (hloops e he).2
  obtain ⟨output, houtput, houtputWidth, houtputRows⟩ := output_yields hl hwidth hloops
    (edgeWeight (withSelfLoops x.height edges) (layer.edgeScore mapped))
  rw [← hheight] at houtput houtputRows
  refine ⟨⟨mapped, _, _, _, output, hmapped, scores_mapped hl hwidth hloops,
    softmaxShares_eq_ok htargets, ?_, houtput⟩, hwidth, hrows, rfl, rfl, houtputWidth, houtputRows⟩
  rw [targets, softmaxTotals_eq]
  exact mapM_pick htargets (· / ·) _ _

end Pass

/-! ## The softmax at a node -/

section Softmax

variable {K : Type} [ExactScalar K] {edges : List (Nat × Nat)} {t : Nat} (score : Nat × Nat → K)

omit [ExactScalar K] in
theorem target_of_mem_incoming {e : Nat × Nat} (h : e ∈ incoming edges t) : e.2 = t := by
  simpa using (List.mem_filter.1 h).2

/-- The edge with the greatest score at a node has the exponential of zero. -/
theorem exists_share_eq_one (hone : Scalar.exp (0 : K) = 1) (ht : incoming edges t ≠ []) :
    ∃ e ∈ incoming edges t, share edges score e = 1 := by
  have hmax : Scalar.maximum ((incoming edges t).map score) ∈ (incoming edges t).map score :=
    Scalar.maximum_mem fun h => ht (List.map_eq_nil_iff.1 h)
  obtain ⟨e, he, htop⟩ := List.mem_map.1 hmax
  refine ⟨e, he, ?_⟩
  rw [share, target_of_mem_incoming he, ← htop, sub_self, hone]

variable [LinearOrder K] [IsStrictOrderedRing K]

/-- A sum of exponentials is no less than one. -/
theorem one_le_total (hexp : ∀ v : K, 0 < Scalar.exp v) (hone : Scalar.exp (0 : K) = 1)
    (ht : incoming edges t ≠ []) : 1 ≤ total edges score t := by
  obtain ⟨e, he, hshare⟩ := exists_share_eq_one score hone ht
  have hnonneg : ∀ y ∈ (incoming edges t).map (share edges score), 0 ≤ y := by
    intro y hy
    obtain ⟨d, -, rfl⟩ := List.mem_map.1 hy
    exact (hexp _).le
  calc (1 : K) = share edges score e := hshare.symm
    _ ≤ ((incoming edges t).map (share edges score)).sum :=
        List.single_le_sum hnonneg _ (List.mem_map_of_mem he)
    _ = total edges score t := (Scalar.sum_exact _).symm

theorem edgeWeight_pos (hexp : ∀ v : K, 0 < Scalar.exp v) (hone : Scalar.exp (0 : K) = 1)
    {e : Nat × Nat} (he : e ∈ incoming edges t) : 0 < edgeWeight edges score e := by
  rw [edgeWeight_eq, target_of_mem_incoming he]
  exact div_pos (hexp _)
    (zero_lt_one.trans_le (one_le_total score hexp hone (List.ne_nil_of_mem he)))

/-- The weights of the edges into a node add up to one. -/
theorem sum_edgeWeight (hexp : ∀ v : K, 0 < Scalar.exp v) (hone : Scalar.exp (0 : K) = 1)
    (ht : incoming edges t ≠ []) : ((incoming edges t).map (edgeWeight edges score)).sum = 1 := by
  have hweight : (incoming edges t).map (edgeWeight edges score)
      = (incoming edges t).map fun e => share edges score e * (total edges score t)⁻¹ :=
    List.map_congr_left fun e he => by
      rw [edgeWeight_eq, target_of_mem_incoming he, div_eq_mul_inv]
  have htotal : total edges score t ≠ 0 :=
    (zero_lt_one.trans_le (one_le_total score hexp hone ht)).ne'
  rw [hweight, List.sum_map_mul_right, ← Scalar.sum_exact]
  exact mul_inv_cancel₀ htotal

end Softmax

/-! ## A layer as a mean -/

section Mean

variable {K : Type} [ExactScalar K]

/-- A node and the sources of the edges that end at it. -/
def neighbours (edges : List (Nat × Nat)) (t : Nat) : Finset Nat :=
  insert t ((incoming edges t).map Prod.fst).toFinset

theorem neighbours_nonempty (edges : List (Nat × Nat)) (t : Nat) : (neighbours edges t).Nonempty :=
  Finset.insert_nonempty t _

variable {layer : Attention K} {channels : Nat} {x : Matrix K} {edges : List (Nat × Nat)}
  {p : Pass layer x edges} {t : Nat}

/-- What a layer sums at a node comes from the node and its neighbours. -/
theorem Pass.source_mem_neighbours {e : Nat × Nat} (he : e ∈ incoming p.looped t) :
    e.1 ∈ neighbours edges t := by
  have htarget := target_of_mem_incoming he
  obtain ⟨hmem, -⟩ | ⟨hloop, -⟩ := mem_withSelfLoops.1 (List.mem_of_mem_filter he)
  · refine Finset.mem_insert_of_mem (List.mem_toFinset.2 (List.mem_map_of_mem ?_))
    exact List.mem_filter.2 ⟨hmem, by simpa using htarget⟩
  · rw [hloop, htarget]
    exact Finset.mem_insert_self t _

/-- The loop at a node ends there. -/
theorem Pass.incoming_ne_nil (p : Pass layer x edges) (ht : t < x.height) :
    incoming p.looped t ≠ [] := by
  have hloop : (t, t) ∈ incoming p.looped t :=
    List.mem_filter.2 ⟨mem_withSelfLoops.2 (.inr ⟨rfl, ht⟩), by simp⟩
  exact List.ne_nil_of_mem hloop

namespace Pass.ByNodes

/-- The mapped nodes are multiplied with the weights of the map. -/
theorem cell_mapped (hp : p.ByNodes channels) (hl : layer.Shaped channels)
    (hx : x.width = channels) {i j : Nat} (hi : i < x.height) (hj : j < channels) :
    p.mapped.cell i j = ∑ k ∈ Finset.range channels, layer.map.weight.cell j k * x.cell i k := by
  have hrow : (x.row i).length = channels := by
    rw [row_eq_getElem hi]
    exact (x.uniform _ (List.getElem_mem hi)).trans hx
  rw [cell, row_of_rows_eq hp.mapped_rows hi, Linear.getD_row hl.map hrow hj]
  rfl

/-- What a softmax divides by at a node. -/
theorem getElem?_totals (hp : p.ByNodes channels) (ht : t < x.height) :
    (softmaxTotals x.height (targets x.height edges) p.shares)[t]?
      = some (total p.looped p.score t) := by
  show (softmaxTotals x.height (p.looped.map Prod.snd) p.shares)[t]? = _
  rw [hp.shares, softmaxTotals_eq, List.getElem?_map, List.getElem?_range ht]
  rfl

/-- The weights of the edges that end at a node. -/
theorem segment_weights (hp : p.ByNodes channels) :
    segment (targets x.height edges) p.weights t
      = (incoming p.looped t).map (edgeWeight p.looped p.score) := by
  rw [hp.weights]
  exact segment_map

theorem length_row (hp : p.ByNodes channels) {i : Nat} (hi : i < x.height) :
    (p.mapped.row i).length = channels := by
  have hheight : i < p.mapped.rows.length := by
    rw [hp.mapped_rows, List.length_map, List.length_range]
    exact hi
  rw [row_eq_getElem hheight]
  exact (p.mapped.uniform _ (List.getElem_mem hheight)).trans hp.mapped_width

/-- Less the bias, an entry of the output is a weighted sum of entries of mapped nodes. -/
theorem cell_output (hp : p.ByNodes channels) (hl : layer.Shaped channels)
    (hedges : ∀ e ∈ edges, e.1 < x.height ∧ e.2 < x.height) {j : Nat} (ht : t < x.height)
    (hj : j < channels) :
    p.output.cell t j - layer.bias.getD j 0
      = ((incoming p.looped t).map fun e =>
        p.mapped.cell e.1 j * edgeWeight p.looped p.score e).sum := by
  have hrows : ∀ r ∈ (incoming p.looped t).map (fun e =>
      (p.mapped.row e.1).map (· * edgeWeight p.looped p.score e)), r.length = channels := by
    intro r hr
    obtain ⟨e, he, rfl⟩ := List.mem_map.1 hr
    rw [List.length_map]
    exact hp.length_row (lt_of_mem_withSelfLoops hedges e (List.mem_of_mem_filter he)).1
  rw [cell, row_of_rows_eq hp.output_rows ht,
    getD_zipWith_add (hj.trans_eq (length_sumRows hrows).symm) (hj.trans_eq hl.bias_length.symm),
    getD_sumRows hj hrows, add_sub_cancel_right, List.map_map]
  refine congrArg List.sum (List.map_congr_left fun e _ => ?_)
  exact getD_map_mul _ _ j

end Pass.ByNodes

variable [LinearOrder K] [IsStrictOrderedRing K]

/-- Less the bias, an entry of the output lies between the least and the greatest entry of the
neighbours. -/
theorem Pass.ByNodes.between (hexp : ∀ v : K, 0 < Scalar.exp v) (hone : Scalar.exp (0 : K) = 1)
    (hp : p.ByNodes channels) (hl : layer.Shaped channels)
    (hedges : ∀ e ∈ edges, e.1 < x.height ∧ e.2 < x.height) {j : Nat} (ht : t < x.height)
    (hj : j < channels) :
    (neighbours edges t).inf' (neighbours_nonempty edges t) (p.mapped.cell · j)
        ≤ p.output.cell t j - layer.bias.getD j 0 ∧
      p.output.cell t j - layer.bias.getD j 0
        ≤ (neighbours edges t).sup' (neighbours_nonempty edges t) (p.mapped.cell · j) := by
  have hsum := sum_edgeWeight p.score hexp hone (p.incoming_ne_nil ht)
  rw [hp.cell_output hl hedges ht hj]
  constructor
  · exact le_sum_map_mul (fun e he => (edgeWeight_pos _ hexp hone he).le) hsum
      fun e he => Finset.inf'_le (p.mapped.cell · j) (Pass.source_mem_neighbours he)
  · exact sum_map_mul_le (fun e he => (edgeWeight_pos _ hexp hone he).le) hsum
      fun e he => Finset.le_sup' (p.mapped.cell · j) (Pass.source_mem_neighbours he)

/-- With exact arithmetic and an exponential function that is positive and one at zero, an attention
layer divides by sums that are no less than one. The weights of the edges into a node are positive
and add up to one, and the node gets a mean of what the map makes of its neighbours and of itself,
plus the bias. Loops among the edges make no difference. -/
theorem forward_averages (hexp : ∀ v : K, 0 < Scalar.exp v) (hone : Scalar.exp (0 : K) = 1)
    {layer : Attention K} {channels : Nat} (hl : layer.Shaped channels) {x : Matrix K}
    (hx : x.width = channels) {edges : List (Nat × Nat)}
    (hedges : ∀ e ∈ edges, e.1 < x.height ∧ e.2 < x.height) :
    (∃ p : Pass layer x edges, layer.forward x edges = .ok p.output ∧
      p.output.height = x.height ∧ p.output.width = channels ∧
      (∀ i < x.height, ∀ j < channels, p.mapped.cell i j
        = ∑ k ∈ Finset.range channels, layer.map.weight.cell j k * x.cell i k) ∧
      ∀ t < x.height,
        (∃ total ∈ (softmaxTotals x.height (targets x.height edges) p.shares)[t]?, 1 ≤ total) ∧
        (∀ w ∈ segment (targets x.height edges) p.weights t, 0 < w) ∧
        (segment (targets x.height edges) p.weights t).sum = 1 ∧
        ∀ j < channels,
          (neighbours edges t).inf' (neighbours_nonempty edges t) (p.mapped.cell · j)
            ≤ p.output.cell t j - layer.bias.getD j 0 ∧
          p.output.cell t j - layer.bias.getD j 0
            ≤ (neighbours edges t).sup' (neighbours_nonempty edges t) (p.mapped.cell · j)) ∧
    layer.forward x (edges.filter fun e => e.1 ≠ e.2) = layer.forward x edges := by
  have hwidth : x.width = layer.channels := hx.trans hl.channels_eq.symm
  obtain ⟨p, hp⟩ := exists_pass hl hx hedges
  refine ⟨⟨p, p.forward_eq ?_, ?_, hp.output_width, fun i hi j hj => hp.cell_mapped hl hx hi hj,
    fun t ht => ?_⟩, forward_filter hwidth hedges⟩
  · rw [nodeFault?, if_neg (not_not.2 hwidth), edgeFault?_eq_none]
    exact hedges
  · rw [height_of_rows_eq hp.output_rows, List.length_range]
  have hloop := p.incoming_ne_nil ht
  rw [hp.getElem?_totals ht, hp.segment_weights]
  refine ⟨⟨_, rfl, one_le_total _ hexp hone hloop⟩, ?_, sum_edgeWeight _ hexp hone hloop,
    fun j hj => hp.between hexp hone hl hedges ht hj⟩
  intro w hw
  obtain ⟨e, he, rfl⟩ := List.mem_map.1 hw
  exact edgeWeight_pos _ hexp hone he

end Mean

/-- Two nodes, two edges from the first to the second, and a loop. The map leaves rows as they are,
so the first node keeps its row, and the second one gets a row between both. -/
theorem forward_averages_pair :
    ∃ (layer : Attention ℝ) (x y : Matrix ℝ), layer.Shaped 2 ∧ x.rows = [[1, 1], [3, 3]] ∧
      layer.forward x [(0, 1), (1, 1), (0, 1)] = .ok y ∧
      y.cell 0 0 = 1 ∧ 1 ≤ y.cell 1 0 ∧ y.cell 1 0 ≤ 3 := by
  let _ : ExactScalar ℝ := exactReal
  let layer : Attention ℝ := { (draw 2 (.ofSeed 0)).1 with
    map := ⟨⟨2, [[1, 0], [0, 1]], by simp⟩, none⟩ }
  let x : Matrix ℝ := ⟨2, [[1, 1], [3, 3]], by simp⟩
  have hdrawn : (draw 2 (.ofSeed 0) : Attention ℝ × Generator).1.Shaped 2 := draw_shaped 2 _
  have hl : layer.Shaped 2 := ⟨rfl, ⟨rfl, rfl, rfl⟩, hdrawn.sourceScore_length,
    hdrawn.targetScore_length, hdrawn.bias_length⟩
  have hedges : ∀ e ∈ [(0, 1), (1, 1), (0, 1)], e.1 < x.height ∧ e.2 < x.height := by decide
  have hbias : layer.bias.getD 0 0 = 0 := Scalar.zero_real
  obtain ⟨⟨p, hforward, -, -, hmapped, hnodes⟩, -⟩ :=
    forward_averages (K := ℝ) Real.exp_pos Real.exp_zero hl (x := x) rfl hedges
  have hfirst : p.mapped.cell 0 0 = 1 := by
    rw [hmapped 0 (by decide) 0 (by decide)]
    simp [Finset.sum_range_succ, cell, row, layer, x]
  have hsecond : p.mapped.cell 1 0 = 3 := by
    rw [hmapped 1 (by decide) 0 (by decide)]
    simp [Finset.sum_range_succ, cell, row, layer, x]
  have halone : ∀ s ∈ neighbours [(0, 1), (1, 1), (0, 1)] 0, p.mapped.cell s 0 = 1 := by
    intro s hs
    obtain rfl : s = 0 := by simpa [neighbours, incoming] using hs
    exact hfirst
  have hboth : ∀ s ∈ neighbours [(0, 1), (1, 1), (0, 1)] 1,
      1 ≤ p.mapped.cell s 0 ∧ p.mapped.cell s 0 ≤ 3 := by
    intro s hs
    obtain rfl | rfl : s = 1 ∨ s = 0 := by simpa [neighbours, incoming] using hs
    · rw [hsecond]
      norm_num
    · rw [hfirst]
      norm_num
  obtain ⟨-, -, -, hmean⟩ := hnodes 0 (by decide)
  obtain ⟨-, -, -, hmean'⟩ := hnodes 1 (by decide)
  obtain ⟨hleast, hgreatest⟩ := hmean 0 (by decide)
  obtain ⟨hleast', hgreatest'⟩ := hmean' 0 (by decide)
  rw [hbias, sub_zero] at hleast hgreatest hleast' hgreatest'
  refine ⟨layer, x, p.output, hl, rfl, hforward, le_antisymm ?_ ?_, ?_, ?_⟩
  · exact hgreatest.trans (Finset.sup'_le _ _ fun s hs => (halone s hs).le)
  · exact (Finset.le_inf' _ _ fun s hs => (halone s hs).ge).trans hleast
  · exact (Finset.le_inf' _ _ fun s hs => (hboth s hs).1).trans hleast'
  · exact hgreatest'.trans (Finset.sup'_le _ _ fun s hs => (hboth s hs).2)

end Attention

end PonziScreen
