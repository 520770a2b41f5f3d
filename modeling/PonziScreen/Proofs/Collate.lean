import Mathlib.Algebra.GroupWithZero.Nat
import PonziScreen.Graph.Batch
import PonziScreen.Proofs.NodeEquations

/-!
# Graphs in a batch

A batch lists the nodes and the edges of its graphs one graph after another. `Batch.Joins` collects
what `Batch.collate` promises: all graphs are valid and of one width, and each list of the batch is
the concatenation of the lists of the graphs, with node numbers moved by an offset.

* `Batch.collate_joins` — a batch joins its graphs
* `Batch.ofGraph_eq_ok` — every valid graph is a batch by itself
* `Batch.mergedEdges_append`, `Batch.mergedIndex_append` — where the part of a graph stands
-/

namespace PonziScreen

open PonziScreen.Matrix

variable {α : Type}

/-! ## Single graphs -/

/-- A graph is valid if its edges stay inside and each has its row of features. -/
theorem Graph.fault?_eq_none {g : Graph α} :
    g.fault? = none ↔ (∀ e ∈ g.edges, e.1 < g.nodeCount ∧ e.2 < g.nodeCount) ∧
      ∀ e, g.edgeFeatures = some e → e.height = g.edgeCount := by
  rw [← edgeFault?_eq_none]
  unfold fault?
  cases edgeFault? g.nodeCount g.edges with
  | some fault => simp
  | none => cases g.edgeFeatures <;> simp

/-- The rows of edge features; none if edges have no features. -/
def Graph.edgeRows (g : Graph α) : List (List α) := (g.edgeFeatures.map Matrix.rows).getD []

/-- The label of a graph; empty if it has none. -/
def Graph.labelRow (g : Graph α) : List α := g.label.getD []

namespace Batch

/-! ## Offsets -/

/-- The number of nodes of some graphs together. -/
def totalNodes (graphs : List (Graph α)) : Nat := (graphs.map Graph.nodeCount).sum

theorem totalNodes_append (xs ys : List (Graph α)) :
    totalNodes (xs ++ ys) = totalNodes xs + totalNodes ys := by
  simp [totalNodes]

theorem length_flatMap_rows (graphs : List (Graph α)) :
    (graphs.flatMap fun g => g.features.rows).length = totalNodes graphs := by
  rw [List.length_flatMap]
  rfl

theorem mergedEdges_append (offset : Nat) (xs ys : List (Graph α)) :
    mergedEdges offset (xs ++ ys)
      = mergedEdges offset xs ++ mergedEdges (offset + totalNodes xs) ys := by
  induction xs generalizing offset with
  | nil => rfl
  | cons g rest ih => simp [mergedEdges, ih, totalNodes, Nat.add_assoc]

theorem mergedIndex_append (start : Nat) (xs ys : List (Graph α)) :
    mergedIndex start (xs ++ ys) = mergedIndex start xs ++ mergedIndex (start + xs.length) ys := by
  induction xs generalizing start with
  | nil => rfl
  | cons g rest ih => simp [mergedIndex, ih, Nat.add_assoc, Nat.add_comm 1]

theorem length_mergedIndex (start : Nat) (graphs : List (Graph α)) :
    (mergedIndex start graphs).length = totalNodes graphs := by
  induction graphs generalizing start with
  | nil => rfl
  | cons g rest ih => simp [mergedIndex, ih, totalNodes]

theorem mem_mergedIndex {start : Nat} {graphs : List (Graph α)} {i : Nat}
    (h : i ∈ mergedIndex start graphs) : start ≤ i ∧ i < start + graphs.length := by
  induction graphs generalizing start with
  | nil => simp [mergedIndex] at h
  | cons g rest ih =>
    rw [List.length_cons]
    rcases List.mem_append.1 h with h | h
    · rw [List.eq_of_mem_replicate h]
      omega
    · have := ih h
      omega

/-- The edges of valid graphs stay among the nodes of these graphs. -/
theorem mem_mergedEdges {offset : Nat} {graphs : List (Graph α)}
    (hvalid : ∀ g ∈ graphs, g.fault? = none) {e : Nat × Nat} (h : e ∈ mergedEdges offset graphs) :
    (offset ≤ e.1 ∧ e.1 < offset + totalNodes graphs) ∧
      offset ≤ e.2 ∧ e.2 < offset + totalNodes graphs := by
  induction graphs generalizing offset with
  | nil => simp [mergedEdges] at h
  | cons g rest ih =>
    have htotal : totalNodes (g :: rest) = g.nodeCount + totalNodes rest := rfl
    rcases List.mem_append.1 h with h | h
    · obtain ⟨d, hd, rfl⟩ := List.mem_map.1 h
      have := (Graph.fault?_eq_none.1 (hvalid g List.mem_cons_self)).1 d hd
      dsimp only
      omega
    · have := ih (fun k hk => hvalid k (List.mem_cons_of_mem _ hk)) h
      omega

theorem length_mergedEdges (offset : Nat) (graphs : List (Graph α)) :
    (mergedEdges offset graphs).length = (graphs.map Graph.edgeCount).sum := by
  induction graphs generalizing offset with
  | nil => rfl
  | cons g rest ih => simp [mergedEdges, ih, Graph.edgeCount]

/-! ## Joined graphs -/

/-- A batch holds the nodes and the edges of some valid graphs of one width, in order. -/
structure Joins (graphs : List (Graph α)) (b : Batch α) : Prop where
  valid : ∀ g ∈ graphs, g.fault? = none
  width : ∀ g ∈ graphs, g.features.width = b.features.width
  rows : b.features.rows = graphs.flatMap fun g => g.features.rows
  edges : b.edges = mergedEdges 0 graphs
  edgeWidth : ∀ g ∈ graphs, g.edgeFeatures.map Matrix.width = b.edgeFeatures.map Matrix.width
  edgeRows : ∀ e, b.edgeFeatures = some e → e.rows = graphs.flatMap Graph.edgeRows
  graphOf : b.graphOf = mergedIndex 0 graphs
  graphCount : b.graphCount = graphs.length

theorem Joins.graphCount_ne_zero {graphs : List (Graph α)} {b : Batch α} (h : Joins graphs b)
    (hne : graphs ≠ []) : b.graphCount ≠ 0 := by
  rw [h.graphCount]
  exact fun hlength => hne (List.length_eq_zero_iff.1 hlength)

theorem stack_eq_ok {width : Nat} {ms : List (Matrix α)} {m : Matrix α}
    (h : Matrix.stack width ms = .ok m) :
    (∀ k ∈ ms, k.width = width) ∧ m.width = width ∧ m.rows = ms.flatMap Matrix.rows := by
  unfold Matrix.stack at h
  split at h
  · rename_i hw
    cases h
    exact ⟨hw, rfl, rfl⟩
  · simp at h

theorem misfit?_eq_none {graphs : List (Graph α)} {first g : Graph α} {i : Nat}
    (h : misfit? graphs first i g = none) :
    g.fault? = none ∧ g.features.width = first.features.width ∧
      g.edgeFeatures.isSome = first.edgeFeatures.isSome ∧
      g.label.isSome = first.label.isSome := by
  unfold misfit? at h
  cases hf : g.fault? with
  | some fault => simp [hf] at h
  | none =>
    simp only [hf] at h
    split at h
    · simp at h
    · rename_i hwidth
      split at h
      · simp at h
      · rename_i hpresence
        split at h
        · simp at h
        · rename_i hlabel
          exact ⟨rfl, not_not.1 hwidth, not_not.1 hpresence, not_not.1 hlabel⟩

theorem firstMisfit?_eq_none {graphs : List (Graph α)} {first : Graph α}
    (h : firstMisfit? graphs first = none) : ∀ g ∈ graphs, g.fault? = none ∧
      g.features.width = first.features.width ∧
      g.edgeFeatures.isSome = first.edgeFeatures.isSome ∧
      g.label.isSome = first.label.isSome := by
  intro g hg
  obtain ⟨i, hi, rfl⟩ := List.mem_iff_getElem.1 hg
  have hmem : (graphs[i], i) ∈ graphs.zipIdx := List.mem_zipIdx_iff_getElem?.2 (by simp [hi])
  exact misfit?_eq_none (List.findSome?_eq_none_iff.1 h _ hmem)

/-- Where all graphs have edge features, these are the features of all of them. -/
theorem edgeFeatures_filterMap {graphs : List (Graph α)}
    (h : ∀ g ∈ graphs, g.edgeFeatures.isSome) :
    (graphs.filterMap Graph.edgeFeatures).flatMap Matrix.rows = graphs.flatMap Graph.edgeRows := by
  induction graphs with
  | nil => rfl
  | cons g rest ih =>
    obtain ⟨e, he⟩ := Option.isSome_iff_exists.1 (h g List.mem_cons_self)
    rw [List.filterMap_cons_some he, List.flatMap_cons, List.flatMap_cons,
      ih fun k hk => h k (List.mem_cons_of_mem _ hk)]
    simp [Graph.edgeRows, he]

variable [Scalar α]

/-- What a batch consists of. -/
theorem collate_parts {first : Graph α} {rest : List (Graph α)} {b : Batch α}
    (h : collate (first :: rest) = .ok b) :
    firstMisfit? (first :: rest) first = none ∧
      Matrix.stack first.features.width ((first :: rest).map Graph.features) = .ok b.features ∧
      (match first.edgeFeatures with
        | some e => ∃ m,
          Matrix.stack e.width ((first :: rest).filterMap Graph.edgeFeatures) = .ok m ∧
            b.edgeFeatures = some m
        | none => b.edgeFeatures = none) ∧
      (match first.label with
        | some y => ∃ m, labelMatrix y.length ((first :: rest).filterMap Graph.label) = .ok m ∧
          b.labels = some m
        | none => b.labels = none) ∧
      b.edges = mergedEdges 0 (first :: rest) ∧ b.graphOf = mergedIndex 0 (first :: rest) ∧
      b.graphCount = (first :: rest).length := by
  unfold collate at h
  cases hmisfit : firstMisfit? (first :: rest) first with
  | some failure => simp [hmisfit] at h
  | none =>
    simp only [hmisfit] at h
    obtain ⟨features, hfeatures, h⟩ := bind_eq_ok.1 h
    cases hedge : first.edgeFeatures with
    | none =>
      simp only [hedge, ok_bind] at h
      cases hlabel : first.label with
      | none =>
        simp only [hlabel] at h
        cases h
        exact ⟨rfl, hfeatures, rfl, rfl, rfl, rfl, rfl⟩
      | some y =>
        simp only [hlabel] at h
        obtain ⟨labels, hlabels, h⟩ := bind_eq_ok.1 h
        obtain ⟨l, hl, rfl⟩ := map_eq_ok.1 hlabels
        cases h
        exact ⟨rfl, hfeatures, rfl, ⟨l, hl, rfl⟩, rfl, rfl, rfl⟩
    | some e =>
      simp only [hedge, ok_bind] at h
      obtain ⟨edgeFeatures, hstack, h⟩ := bind_eq_ok.1 h
      obtain ⟨m, hm, rfl⟩ := map_eq_ok.1 hstack
      cases hlabel : first.label with
      | none =>
        simp only [hlabel] at h
        cases h
        exact ⟨rfl, hfeatures, ⟨m, hm, rfl⟩, rfl, rfl, rfl, rfl⟩
      | some y =>
        simp only [hlabel] at h
        obtain ⟨labels, hlabels, h⟩ := bind_eq_ok.1 h
        obtain ⟨l, hl, rfl⟩ := map_eq_ok.1 hlabels
        cases h
        exact ⟨rfl, hfeatures, ⟨m, hm, rfl⟩, ⟨l, hl, rfl⟩, rfl, rfl, rfl⟩

/-- The labels of a batch of labelled graphs: a row for each graph, all of one width. -/
theorem labels_of_collate {graphs : List (Graph α)} {b : Batch α} (hne : graphs ≠ [])
    (h : collate graphs = .ok b) (hlabelled : ∀ g ∈ graphs, g.label.isSome) :
    ∃ labels : Matrix α, b.labels = some labels ∧
      labels.rows = graphs.map Graph.labelRow ∧
      ∀ g ∈ graphs, g.labelRow.length = labels.width := by
  cases graphs with
  | nil => exact absurd rfl hne
  | cons first rest =>
    obtain ⟨-, -, -, hlabels, -⟩ := collate_parts h
    obtain ⟨y, hy⟩ := Option.isSome_iff_exists.1 (hlabelled first List.mem_cons_self)
    rw [hy] at hlabels
    obtain ⟨m, hm, hb⟩ := hlabels
    have hrows : (first :: rest).filterMap Graph.label
        = (first :: rest).map Graph.labelRow := by
      rw [← List.filterMap_eq_map]
      refine List.filterMap_congr fun g hg => ?_
      obtain ⟨l, hl⟩ := Option.isSome_iff_exists.1 (hlabelled g hg)
      rw [hl, Function.comp_apply, Graph.labelRow, hl, Option.getD_some]
    unfold labelMatrix Matrix.ofRows? at hm
    rw [hrows] at hm
    split at hm
    · rename_i m' hofRows
      split at hofRows
      · rename_i huniform
        cases hofRows
        cases hm
        exact ⟨_, hb, rfl, fun g hg => huniform _ (List.mem_map_of_mem hg)⟩
      · simp at hofRows
    · simp at hm

/-- A batch that graphs have been put into joins them. -/
theorem collate_joins {graphs : List (Graph α)} {b : Batch α} (hne : graphs ≠ [])
    (h : collate graphs = .ok b) : Joins graphs b := by
  cases graphs with
  | nil => exact absurd rfl hne
  | cons first rest =>
    obtain ⟨hmisfit, hstack, hedge, -, hedges, hgraphOf, hcount⟩ := collate_parts h
    have hfits := firstMisfit?_eq_none hmisfit
    obtain ⟨-, hw, hr⟩ := stack_eq_ok hstack
    have hwidth : ∀ g ∈ first :: rest, g.features.width = b.features.width :=
      fun g hg => (hfits g hg).2.1.trans hw.symm
    rw [List.flatMap_map] at hr
    cases hfirst : first.edgeFeatures with
    | none =>
      rw [hfirst] at hedge
      refine ⟨fun g hg => (hfits g hg).1, hwidth, hr, hedges, ?_, ?_, hgraphOf, hcount⟩
      · intro g hg
        have hnone : g.edgeFeatures = none := by simpa [hfirst] using (hfits g hg).2.2.1
        rw [hnone, hedge]
      · intro e he
        simp [hedge] at he
    | some e =>
      rw [hfirst] at hedge
      obtain ⟨m, hm, hb⟩ := hedge
      obtain ⟨hall, hmw, hmr⟩ := stack_eq_ok hm
      have hsome : ∀ g ∈ first :: rest, g.edgeFeatures.isSome := fun g hg => by
        simpa [hfirst] using (hfits g hg).2.2.1
      refine ⟨fun g hg => (hfits g hg).1, hwidth, hr, hedges, ?_, ?_, hgraphOf, hcount⟩
      · intro g hg
        obtain ⟨d, hd⟩ := Option.isSome_iff_exists.1 (hsome g hg)
        rw [hd, hb, Option.map_some, Option.map_some, hmw,
          hall d (List.mem_filterMap.2 ⟨g, hg, hd⟩)]
      · intro e' he'
        rw [hb] at he'
        cases he'
        rw [hmr, edgeFeatures_filterMap hsome]

/-- A valid graph is a batch by itself. -/
theorem ofGraph_eq_ok {g : Graph α} (h : g.fault? = none) : ∃ b, ofGraph g = .ok b := by
  have hmisfit : firstMisfit? [g] g = none := by simp [firstMisfit?, misfit?, h]
  have hstack : ∀ m : Matrix α, ∃ s, Matrix.stack m.width [m] = .ok s := fun m => by
    simp [Matrix.stack]
  have hlabels : ∀ y : List α, ∃ l, labelMatrix y.length [y] = .ok l := fun y => by
    simp [labelMatrix, Matrix.ofRows?]
  obtain ⟨features, hfeatures⟩ := hstack g.features
  unfold ofGraph collate
  simp only [hmisfit, List.map_cons, List.map_nil, hfeatures, ok_bind]
  cases hedge : g.edgeFeatures with
  | none =>
    cases hlabel : g.label with
    | none => exact ⟨_, rfl⟩
    | some y =>
      obtain ⟨l, hl⟩ := hlabels y
      simp [hlabel, hl, Except.map, bind, Except.bind, pure, Except.pure]
  | some e =>
    obtain ⟨s, hs⟩ := hstack e
    cases hlabel : g.label with
    | none => simp [hedge, hs, Except.map, bind, Except.bind, pure, Except.pure]
    | some y =>
      obtain ⟨l, hl⟩ := hlabels y
      simp [hedge, hlabel, hs, hl, Except.map, bind, Except.bind, pure, Except.pure]

end Batch

end PonziScreen
