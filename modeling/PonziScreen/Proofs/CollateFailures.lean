import Mathlib.Order.Bounds.Basic
import PonziScreen.Proofs.Collate
import PonziScreen.Proofs.Occurrences

/-!
# Which graphs make a batch

A graph that is put into a batch is looked at by itself and next to the first graph of the batch:
there are five demands, in a fixed order (`Batch.Demand.all`). The first graph that breaks one is
reported, by the first demand that it breaks. Only where all graphs meet all demands are their rows
stacked, and then the widths of rows can still differ (`Batch.Even`).

That the stacked rows can be stored and numbered is taken for granted; matrices without columns,
which take no room, may together have more rows than can be numbered.

* `Batch.misfit?_cases` — one graph fits, or it is reported by the first demand that it breaks
* `Batch.collate_of_met` — graphs that all fit make a batch if their rows are even
* `Batch.collate_outcome` — what becomes of any list of graphs
-/

namespace PonziScreen

open PonziScreen.Matrix

variable {α : Type}

namespace Batch

/-! ## Demands -/

/-- What is asked of a graph in a batch. -/
inductive Demand where
  /-- Its edges end at nodes that it has. -/
  | edgeRange
  /-- If its edges have features, there is a row for each edge. -/
  | edgeRows
  /-- Its nodes have as many features as those of the first graph. -/
  | width
  /-- Its edges have features exactly if those of the first graph have. -/
  | edgePresence
  /-- It has a label exactly if the first graph has. -/
  | labelPresence

namespace Demand

/-- All demands, in the order in which they are looked at. -/
def all : List Demand := [edgeRange, edgeRows, width, edgePresence, labelPresence]

/-- One of some graphs has something in common with the first of them. -/
def Agrees {β : Type} (part : Graph α → β) (graphs : List (Graph α)) (g : Graph α) : Prop :=
  ∀ first ∈ graphs.head?, part g = part first

/-- One of some graphs meets a demand. -/
def MetBy (graphs : List (Graph α)) (g : Graph α) : Demand → Prop
  | edgeRange => ∀ e ∈ g.edges, e.1 < g.nodeCount ∧ e.2 < g.nodeCount
  | edgeRows => ∀ m ∈ g.edgeFeatures, m.height = g.edgeCount
  | width => Agrees (fun k => k.features.width) graphs g
  | edgePresence => Agrees (fun k => k.edgeFeatures.isSome) graphs g
  | labelPresence => Agrees (fun k => k.label.isSome) graphs g

/-- What is reported if the graph at position `i` breaks a demand. An edge is the first one out of
range. A missing label is that of the first graph without one, wherever it stands. -/
def Reports (graphs : List (Graph α)) (i : Nat) (g : Graph α) (failure : Failure) : Demand → Prop
  | edgeRange => ∃ e, IsFirst (fun e => ¬ (e.1 < g.nodeCount ∧ e.2 < g.nodeCount)) g.edges e ∧
      failure = .shapeMismatch (.edgeRange e.1 e.2 g.nodeCount)
  | edgeRows => ∃ m ∈ g.edgeFeatures, failure = .shapeMismatch (.edgeRows m.height g.edgeCount)
  | width => ∃ first ∈ graphs.head?,
      failure = .shapeMismatch (.graphWidth i g.features.width first.features.width)
  | edgePresence => failure = .shapeMismatch (.edgePresence i)
  | labelPresence => ∃ k, IsLeast {k | ∃ d ∈ graphs[k]?, d.label = none} k ∧
      failure = .missingLabel k

/-- The first demand that a graph breaks. -/
def FirstBroken (graphs : List (Graph α)) (g : Graph α) (d : Demand) : Prop :=
  IsFirst (fun d => ¬ d.MetBy graphs g) all d

/-- Uneven rows are no demand's report. -/
theorem Reports.ne_unevenRows {graphs : List (Graph α)} {i : Nat} {g : Graph α} {failure : Failure}
    {d : Demand} (h : d.Reports graphs i g failure) : failure ≠ .unevenRows := by
  cases d with
  | edgeRange =>
    obtain ⟨_, -, rfl⟩ := h
    exact Failure.noConfusion
  | edgeRows =>
    obtain ⟨_, -, rfl⟩ := h
    exact Failure.noConfusion
  | width =>
    obtain ⟨_, -, rfl⟩ := h
    exact Failure.noConfusion
  | edgePresence =>
    obtain rfl := h
    exact Failure.noConfusion
  | labelPresence =>
    obtain ⟨_, -, rfl⟩ := h
    exact Failure.noConfusion

end Demand

/-- One of some graphs meets all demands. -/
def Fits (graphs : List (Graph α)) (g : Graph α) : Prop := ∀ d : Demand, d.MetBy graphs g

/-- A part that some graphs have is of one size in all of them. -/
def SameSize {β : Type} (part : Graph α → Option β) (size : β → Nat)
    (graphs : List (Graph α)) : Prop :=
  ∀ g ∈ graphs, ∀ k ∈ graphs, ∀ y ∈ part g, ∀ z ∈ part k, size y = size z

/-- Rows that are stacked have one width: those of edge features, and labels. -/
structure Even (graphs : List (Graph α)) : Prop where
  edgeWidths : SameSize Graph.edgeFeatures Matrix.width graphs
  labelLengths : SameSize Graph.label List.length graphs

/-! ## One graph -/

section Graph

variable {graphs : List (Graph α)} {first g : Graph α}

/-- The fault of an edge list is its first edge out of range. -/
theorem edgeFault?_eq_some {n : Nat} {edges : List (Nat × Nat)} {fault : ShapeFault} :
    edgeFault? n edges = some fault ↔
      ∃ e, IsFirst (fun e => ¬ (e.1 < n ∧ e.2 < n)) edges e ∧ fault = .edgeRange e.1 e.2 n := by
  have hsearch : (edges.find? fun e => n ≤ e.1 || n ≤ e.2)
      = edges.find? fun e => decide (¬ (e.1 < n ∧ e.2 < n)) := by
    congr 1
    funext e
    rw [Bool.eq_iff_iff]
    simp only [Bool.or_eq_true, decide_eq_true_eq]
    omega
  rw [edgeFault?, hsearch, Option.map_eq_some_iff]
  simp only [find?_eq_some_iff_isFirst]
  exact exists_congr fun e => and_congr_right fun _ => eq_comm

/-- A graph by itself is valid, or it breaks the first demand, or the second one. -/
theorem fault?_cases (graphs : List (Graph α)) (i : Nat) (g : Graph α) :
    (g.fault? = none ∧ Demand.edgeRange.MetBy graphs g ∧ Demand.edgeRows.MetBy graphs g) ∨
    ∃ fault d, g.fault? = some fault ∧ Demand.FirstBroken graphs g d ∧
      d.Reports graphs i g (.shapeMismatch fault) := by
  cases hfault : g.fault? with
  | none =>
    obtain ⟨hrange, hrows⟩ := Graph.fault?_eq_none.1 hfault
    exact .inl ⟨rfl, hrange, hrows⟩
  | some fault =>
    right
    unfold Graph.fault? at hfault
    cases hedges : edgeFault? g.nodeCount g.edges with
    | some outside =>
      rw [hedges] at hfault
      obtain rfl := Option.some.inj hfault
      obtain ⟨e, he, rfl⟩ := edgeFault?_eq_some.1 hedges
      have hbroken : ¬ Demand.edgeRange.MetBy graphs g := fun hmet => he.holds (hmet e he.mem)
      exact ⟨_, .edgeRange, rfl, ⟨[], _, rfl, hbroken, by simp⟩, e, he, rfl⟩
    | none =>
      have hrange : Demand.edgeRange.MetBy graphs g := edgeFault?_eq_none.1 hedges
      rw [hedges] at hfault
      cases hm : g.edgeFeatures with
      | none => simp [hm] at hfault
      | some m =>
        by_cases hrows : m.height = g.edgeCount
        · simp [hm, hrows] at hfault
        · simp only [hm, if_neg hrows, Option.some.injEq] at hfault
          have hbroken : ¬ Demand.edgeRows.MetBy graphs g := fun hmet => hrows (hmet m hm)
          exact ⟨fault, .edgeRows, rfl, ⟨[.edgeRange], _, rfl, hbroken, by simp [hrange]⟩, m, hm,
            congrArg _ hfault.symm⟩

/-- The first two demands are what makes a graph valid. -/
theorem validate_eq_ok (graphs : List (Graph α)) (g : Graph α) :
    g.validate = .ok () ↔ Demand.edgeRange.MetBy graphs g ∧ Demand.edgeRows.MetBy graphs g := by
  refine Iff.trans ?_ Graph.fault?_eq_none
  unfold Graph.validate
  cases g.fault? <;> simp

/-- Where one of some graphs has a label and another has none, the reported graph is the first one
without a label. -/
theorem isLeast_unlabelled {i : Nat} (h : ∃ g ∈ graphs, g.label = none) :
    IsLeast {k | ∃ d ∈ graphs[k]?, d.label = none} (unlabelled graphs i) := by
  cases hfind : graphs.findIdx? fun g => g.label.isNone with
  | none =>
    obtain ⟨g, hg, hlabel⟩ := h
    have hlabelled := List.findIdx?_eq_none_iff.1 hfind g hg
    simp [hlabel] at hlabelled
  | some k =>
    obtain ⟨hk, hnone, hbefore⟩ := List.findIdx?_eq_some_iff_getElem.1 hfind
    rw [unlabelled, hfind, Option.getD_some]
    refine ⟨⟨graphs[k], List.getElem?_eq_getElem hk, Option.isNone_iff_eq_none.1 hnone⟩, ?_⟩
    rintro l ⟨d, hd, hlabel⟩
    by_contra hlt
    obtain ⟨hl, rfl⟩ := List.getElem?_eq_some_iff.1 hd
    exact hbefore l (Nat.lt_of_not_le hlt) (by rw [hlabel]; rfl)

theorem agrees_iff {β : Type} (hfirst : graphs.head? = some first) (part : Graph α → β) :
    Demand.Agrees part graphs g ↔ part g = part first := by
  simp [Demand.Agrees, hfirst]

/-- Of two graphs that disagree on having a label, one has none. -/
theorem exists_unlabelled (hfirst : first ∈ graphs) (hg : g ∈ graphs)
    (h : g.label.isSome ≠ first.label.isSome) : ∃ k ∈ graphs, k.label = none := by
  cases hown : g.label with
  | none => exact ⟨g, hg, hown⟩
  | some y =>
    refine ⟨first, hfirst, ?_⟩
    cases hother : first.label with
    | none => rfl
    | some z => simp [hown, hother] at h

/-- One of some graphs meets all demands, or it is reported by the first one that it breaks. -/
theorem misfit?_cases (hfirst : graphs.head? = some first) (i : Nat) (hg : g ∈ graphs) :
    (misfit? graphs first i g = none ∧ Fits graphs g) ∨
    ∃ failure d, misfit? graphs first i g = some failure ∧ Demand.FirstBroken graphs g d ∧
      d.Reports graphs i g failure := by
  have hwidth : Demand.width.MetBy graphs g ↔ g.features.width = first.features.width :=
    agrees_iff hfirst fun k => k.features.width
  have hedges : Demand.edgePresence.MetBy graphs g
      ↔ g.edgeFeatures.isSome = first.edgeFeatures.isSome :=
    agrees_iff hfirst fun k => k.edgeFeatures.isSome
  have hlabel : Demand.labelPresence.MetBy graphs g ↔ g.label.isSome = first.label.isSome :=
    agrees_iff hfirst fun k => k.label.isSome
  unfold misfit?
  obtain ⟨hvalid, hrange, hrows⟩ | ⟨fault, d, hfault, hbroken, hreports⟩ := fault?_cases graphs i g
  swap
  · rw [hfault]
    exact .inr ⟨_, d, rfl, hbroken, hreports⟩
  rw [hvalid]
  dsimp only
  by_cases hw : g.features.width = first.features.width
  swap
  · rw [if_pos hw]
    exact .inr ⟨_, .width, rfl, ⟨[.edgeRange, .edgeRows], _, rfl, mt hwidth.1 hw,
      by simp [hrange, hrows]⟩, first, hfirst, rfl⟩
  rw [if_neg (not_not.2 hw)]
  by_cases he : g.edgeFeatures.isSome = first.edgeFeatures.isSome
  swap
  · rw [if_pos he]
    exact .inr ⟨_, .edgePresence, rfl, ⟨[.edgeRange, .edgeRows, .width], _, rfl, mt hedges.1 he,
      by simp [hrange, hrows, hwidth.2 hw]⟩, rfl⟩
  rw [if_neg (not_not.2 he)]
  by_cases hl : g.label.isSome = first.label.isSome
  swap
  · have hnone := exists_unlabelled (List.mem_of_head? hfirst) hg hl
    rw [if_pos hl]
    exact .inr ⟨_, .labelPresence, rfl, ⟨[.edgeRange, .edgeRows, .width, .edgePresence], _, rfl,
      mt hlabel.1 hl, by simp [hrange, hrows, hwidth.2 hw, hedges.2 he]⟩, _,
      isLeast_unlabelled hnone, rfl⟩
  rw [if_neg (not_not.2 hl)]
  refine .inl ⟨rfl, fun d => ?_⟩
  cases d with
  | edgeRange => exact hrange
  | edgeRows => exact hrows
  | width => exact hwidth.2 hw
  | edgePresence => exact hedges.2 he
  | labelPresence => exact hlabel.2 hl

end Graph

/-! ## All graphs -/

section Graphs

variable {graphs : List (Graph α)} {first : Graph α}

/-- Graphs fit together if each of them meets all demands. -/
theorem firstMisfit?_eq_none_iff (hfirst : graphs.head? = some first) :
    firstMisfit? graphs first = none ↔ ∀ g ∈ graphs, Fits graphs g := by
  constructor
  · intro h g hg
    obtain ⟨i, hi⟩ := List.mem_iff_getElem?.1 hg
    have hnone := List.findSome?_eq_none_iff.1 h (g, i) (List.mk_mem_zipIdx_iff_getElem?.2 hi)
    obtain ⟨-, hmet⟩ | ⟨failure, d, hmisfit, -⟩ := misfit?_cases hfirst i hg
    · exact hmet
    · simp [hmisfit] at hnone
  · intro h
    refine List.findSome?_eq_none_iff.2 ?_
    rintro ⟨g, i⟩ hgi
    have hg := List.fst_mem_of_mem_zipIdx hgi
    obtain ⟨hnone, -⟩ | ⟨failure, d, -, hbroken, -⟩ := misfit?_cases hfirst i hg
    · exact hnone
    · exact absurd (h g hg d) hbroken.holds

/-- The failure for graphs that do not fit together is that of the first one that breaks a
demand. -/
theorem firstMisfit?_eq_some (hfirst : graphs.head? = some first) {failure : Failure}
    (h : firstMisfit? graphs first = some failure) :
    ∃ before g after d, graphs = before ++ g :: after ∧
      (∀ k ∈ before, Fits graphs k) ∧ Demand.FirstBroken graphs g d ∧
      d.Reports graphs before.length g failure := by
  -- the search goes over the graphs together with their positions
  obtain ⟨front, ⟨g, i⟩, back, hsplit, hmisfit, hfront⟩ := List.findSome?_eq_some_iff.1 h
  have hgraphs : graphs = front.map Prod.fst ++ g :: back.map Prod.fst := by
    have hfst := congrArg (List.map Prod.fst) hsplit
    rwa [List.zipIdx_map_fst, List.map_append, List.map_cons] at hfst
  have hposition : i = (front.map Prod.fst).length := by
    have hget : graphs.zipIdx[front.length]? = some (g, i) := by
      rw [hsplit, List.getElem?_append_right (Nat.le_refl _), Nat.sub_self]
      rfl
    simp only [List.getElem?_zipIdx, Option.map_eq_some_iff, Prod.mk.injEq] at hget
    obtain ⟨-, -, -, hi⟩ := hget
    rw [List.length_map, ← hi, Nat.zero_add]
  obtain ⟨hnone, -⟩ | ⟨failure', d, hsome, hbroken, hreports⟩ :=
    misfit?_cases hfirst i (hgraphs ▸ List.mem_append_right _ List.mem_cons_self : g ∈ graphs)
  · rw [hmisfit] at hnone
    cases hnone
  · rw [hmisfit, Option.some.injEq] at hsome
    subst hsome hposition
    refine ⟨_, g, _, d, hgraphs, fun k hk => ?_, hbroken, hreports⟩
    obtain ⟨⟨k, j⟩, hkj, rfl⟩ := List.mem_map.1 hk
    obtain ⟨-, hmet⟩ | ⟨failure', d, hsome, -⟩ := misfit?_cases hfirst j
      (hgraphs ▸ List.mem_append_left _ hk : k ∈ graphs)
    · exact hmet
    · rw [hfront _ hkj] at hsome
      cases hsome

end Graphs

/-! ## Stacking -/

section Stacking

variable {β γ : Type} {part : Graph α → Option β} {size : β → Nat}
  {join : Nat → List β → Except Failure γ} {graphs : List (Graph α)} {first : Graph α}

/-- Stacking succeeds if every row has the width that is asked for. -/
def Stacks (size : β → Nat) (join : Nat → List β → Except Failure γ) : Prop :=
  ∀ width items, ((∀ y ∈ items, size y = width) ∧ ∃ s, join width items = .ok s) ∨
    (¬ ∀ y ∈ items, size y = width) ∧ join width items = .error .unevenRows

theorem stacks_stack : Stacks Matrix.width (Matrix.stack (α := α)) := by
  intro width items
  unfold Matrix.stack
  by_cases h : ∀ m ∈ items, m.width = width
  · exact .inl ⟨h, _, dif_pos h⟩
  · exact .inr ⟨h, dif_neg h⟩

theorem stacks_labelMatrix : Stacks List.length (labelMatrix (α := α)) := by
  intro width items
  unfold labelMatrix Matrix.ofRows?
  by_cases h : ∀ y ∈ items, y.length = width
  · exact .inl ⟨h, _, by rw [dif_pos h]⟩
  · exact .inr ⟨h, by rw [dif_neg h]⟩

/-- A part of all graphs put together, if the first graph has it. -/
def joined (part : Graph α → Option β) (size : β → Nat) (join : Nat → List β → Except Failure γ)
    (first : Graph α) (graphs : List (Graph α)) : Except Failure (Option γ) :=
  match part first with
  | some y => (join (size y) (graphs.filterMap part)).map some
  | none => .ok none

/-- Sizes are the same everywhere if they are those of the first graph. -/
theorem sameSize_iff (hfirst : first ∈ graphs) {y : β} (hy : part first = some y) :
    SameSize part size graphs ↔ ∀ z ∈ graphs.filterMap part, size z = size y := by
  constructor
  · intro h z hz
    obtain ⟨g, hg, hgz⟩ := List.mem_filterMap.1 hz
    exact h g hg first hfirst z hgz y hy
  · intro h g hg k hk z hz w hw
    rw [h z (List.mem_filterMap.2 ⟨g, hg, hz⟩), h w (List.mem_filterMap.2 ⟨k, hk, hw⟩)]

/-- A part that all graphs have, or none has, can be put together if it has one size. -/
theorem joined_cases (hjoin : Stacks size join) (hfirst : first ∈ graphs)
    (hpresence : ∀ g ∈ graphs, (part g).isSome = (part first).isSome) :
    (SameSize part size graphs ∧ ∃ s, joined part size join first graphs = .ok s) ∨
      ¬ SameSize part size graphs ∧
        joined part size join first graphs = .error .unevenRows := by
  unfold joined
  cases hy : part first with
  | none =>
    refine .inl ⟨fun g hg k hk z hz => ?_, _, rfl⟩
    have hnone : part g = none := by simpa [hy] using hpresence g hg
    simp [hnone] at hz
  | some y =>
    rw [sameSize_iff hfirst hy]
    dsimp only
    obtain ⟨hsame, s, hs⟩ | ⟨hdiffer, hs⟩ := hjoin (size y) (graphs.filterMap part)
    · exact .inl ⟨hsame, some s, by rw [hs]; rfl⟩
    · exact .inr ⟨hdiffer, by rw [hs]; rfl⟩

end Stacking

/-! ## Outcomes -/

section Outcome

variable [Scalar α] {first : Graph α} {rest : List (Graph α)}

/-- Graphs that meet all demands are put together part by part. -/
theorem collate_eq_joined (h : firstMisfit? (first :: rest) first = none) :
    collate (first :: rest) = do
      let features ← Matrix.stack first.features.width ((first :: rest).map Graph.features)
      let edgeFeatures ←
        joined Graph.edgeFeatures Matrix.width Matrix.stack first (first :: rest)
      let labels ← joined Graph.label List.length labelMatrix first (first :: rest)
      return {
        features, edges := mergedEdges 0 (first :: rest), edgeFeatures
        graphOf := mergedIndex 0 (first :: rest), labels, graphCount := (first :: rest).length } :=
    by
  unfold collate joined
  simp only [h]
  cases first.edgeFeatures <;> cases first.label <;> rfl

/-- Graphs that meet all demands make a batch if their rows have one width. -/
theorem collate_of_met (h : firstMisfit? (first :: rest) first = none) :
    (Even (first :: rest) ∧ ∃ b, collate (first :: rest) = .ok b) ∨
      ¬ Even (first :: rest) ∧ collate (first :: rest) = .error .unevenRows := by
  have hfits := firstMisfit?_eq_none h
  have hwidth : ∀ m ∈ (first :: rest).map Graph.features, m.width = first.features.width := by
    intro m hm
    obtain ⟨g, hg, rfl⟩ := List.mem_map.1 hm
    exact (hfits g hg).2.1
  have hfeatures : ∃ s, Matrix.stack first.features.width ((first :: rest).map Graph.features)
      = .ok s := ⟨_, dif_pos hwidth⟩
  obtain ⟨features, hfeatures⟩ := hfeatures
  -- node features fit already; edge features come before labels
  rw [collate_eq_joined h, hfeatures, ok_bind]
  obtain ⟨hedges, edgeFeatures, hjoined⟩ | ⟨hedges, hjoined⟩ :=
    joined_cases stacks_stack List.mem_cons_self fun g hg => (hfits g hg).2.2.1
  swap
  · rw [hjoined]
    exact .inr ⟨fun heven => hedges heven.edgeWidths, rfl⟩
  rw [hjoined, ok_bind]
  obtain ⟨hlabels, labels, hjoined⟩ | ⟨hlabels, hjoined⟩ :=
    joined_cases stacks_labelMatrix List.mem_cons_self fun g hg => (hfits g hg).2.2.2
  · rw [hjoined]
    exact .inl ⟨⟨hedges, hlabels⟩, _, rfl⟩
  · rw [hjoined]
    exact .inr ⟨fun heven => hlabels heven.labelLengths, rfl⟩

theorem collate_of_misfit {failure : Failure}
    (h : firstMisfit? (first :: rest) first = some failure) :
    collate (first :: rest) = .error failure := by
  unfold collate
  simp only [h]

/-- Graphs make a batch, or one of them does not fit, or all fit and their rows are uneven. -/
theorem collate_cases (graphs : List (Graph α)) :
    ((∀ g ∈ graphs, Fits graphs g) ∧ Even graphs ∧ ∃ b, collate graphs = .ok b) ∨
    (∃ before g after d failure, graphs = before ++ g :: after ∧ (∀ k ∈ before, Fits graphs k) ∧
      Demand.FirstBroken graphs g d ∧ d.Reports graphs before.length g failure ∧
      collate graphs = .error failure) ∨
    (∀ g ∈ graphs, Fits graphs g) ∧ ¬ Even graphs ∧ collate graphs = .error .unevenRows := by
  cases graphs with
  | nil => exact .inl ⟨by simp, ⟨by simp [SameSize], by simp [SameSize]⟩, empty, rfl⟩
  | cons first rest =>
    have hhead : (first :: rest).head? = some first := rfl
    cases hmisfit : firstMisfit? (first :: rest) first with
    | none =>
      have hfits := (firstMisfit?_eq_none_iff hhead).1 hmisfit
      obtain hbatch | huneven := collate_of_met hmisfit
      · exact .inl ⟨hfits, hbatch⟩
      · exact .inr (.inr ⟨hfits, huneven⟩)
    | some failure =>
      obtain ⟨before, g, after, d, hgraphs, hbefore, hbroken, hreports⟩ :=
        firstMisfit?_eq_some hhead hmisfit
      exact .inr (.inl ⟨before, g, after, d, failure, hgraphs, hbefore, hbroken, hreports,
        collate_of_misfit hmisfit⟩)

/-- Graphs make a batch if each of them fits and their rows have one width. Otherwise, if there is
one that does not fit, the first such graph is reported by its first broken demand; only if all fit,
uneven rows are. -/
theorem collate_outcome (graphs : List (Graph α)) :
    ((∃ b, collate graphs = .ok b) ↔ graphs = [] ∨ (∀ g ∈ graphs, Fits graphs g) ∧ Even graphs) ∧
    ((∃ g ∈ graphs, ¬ Fits graphs g) → ∃ before g after d failure,
      graphs = before ++ g :: after ∧ (∀ k ∈ before, Fits graphs k) ∧
      Demand.FirstBroken graphs g d ∧ d.Reports graphs before.length g failure ∧
      collate graphs = .error failure) ∧
    (collate graphs = .error .unevenRows ↔ (∀ g ∈ graphs, Fits graphs g) ∧ ¬ Even graphs) ∧
    ∀ g : Graph α, g.validate = .ok () ↔
      Demand.edgeRange.MetBy graphs g ∧ Demand.edgeRows.MetBy graphs g := by
  refine and_assoc.1 (and_assoc.1 ⟨and_assoc.2 ?_, validate_eq_ok graphs⟩)
  obtain ⟨hfits, heven, b, hb⟩ |
    ⟨before, g, after, d, failure, hgraphs, hbefore, hbroken, hreports, herror⟩ |
    ⟨hfits, huneven, herror⟩ := collate_cases graphs
  · refine ⟨⟨fun _ => .inr ⟨hfits, heven⟩, fun _ => ⟨b, hb⟩⟩, ?_, ?_⟩
    · rintro ⟨g, hg, hmisfit⟩
      exact absurd (hfits g hg) hmisfit
    · rw [hb]
      exact ⟨nofun, fun h => absurd heven h.2⟩
  · have hg : g ∈ graphs := hgraphs ▸ List.mem_append_right _ List.mem_cons_self
    have hmisfit : ¬ ∀ g ∈ graphs, Fits graphs g := fun hfits => hbroken.holds (hfits g hg d)
    rw [herror]
    refine ⟨⟨nofun, ?_⟩, fun _ => ?_, ?_⟩
    · rintro (rfl | ⟨hfits, -⟩)
      · exact absurd hg List.not_mem_nil
      · exact absurd hfits hmisfit
    · exact ⟨before, g, after, d, failure, hgraphs, hbefore, hbroken, hreports, rfl⟩
    · exact ⟨fun h => absurd (Except.error.inj h) hreports.ne_unevenRows,
        fun h => absurd h.1 hmisfit⟩
  · rw [herror]
    refine ⟨⟨nofun, ?_⟩, ?_, fun _ => ⟨hfits, huneven⟩, fun _ => rfl⟩
    · rintro (rfl | ⟨-, heven⟩)
      · exact absurd herror nofun
      · exact absurd heven huneven
    · rintro ⟨g, hg, hmisfit⟩
      exact absurd (hfits g hg) hmisfit

end Outcome

end Batch

end PonziScreen
