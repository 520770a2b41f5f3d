import PonziScreen.Proofs.ReadOnly
import PonziScreen.Proofs.Rebatching
import PonziScreen.Proofs.RefusedSteps

/-!
# Which graph has no label

An evaluation counts the graphs of the batches that it has added. At a batch without labels it stops
and reports the count as the number of a graph without a label. A batch has no labels if none of its
graphs has one. Unless there are no graphs in it, its first graph is then the reported one; a batch
of no graphs is reported as well, by a number that belongs to no graph of it.

* `Batch.labels_cases` — which batches have labels
* `Classifier.addBatches_cons_cases` — one batch of an evaluation
* `Classifier.addBatches_eq_missingLabel` — where an evaluation finds no labels
* `Classifier.evaluate_missingLabel` — what a missing label says about the graphs
-/

namespace PonziScreen

open PonziScreen.Matrix

variable {α σ : Type} [Scalar α] [Scalar σ] [Widen α σ]

/-! ## Labels of a batch -/

namespace Batch

/-- Batches that graphs have been put into, group by group. Unlike in `Batch.Collated` a group may
be empty, and its graphs need no labels. -/
def Collates (groups : List (List (Graph α))) (batches : List (Batch α)) : Prop :=
  List.Forall₂ (fun graphs b => collate graphs = .ok b) groups batches

variable {graphs : List (Graph α)} {b : Batch α}

theorem graphCount_of_collate (h : collate graphs = .ok b) : b.graphCount = graphs.length := by
  cases graphs with
  | nil =>
    obtain rfl := Except.ok.inj h
    rfl
  | cons first rest => exact (collate_joins (List.cons_ne_nil first rest) h).graphCount

/-- All graphs of a batch have a label, and so has the batch, or none has. -/
theorem labels_cases (h : collate graphs = .ok b) :
    (b.labels = none ∧ ∀ g ∈ graphs, g.label = none) ∨
      (∃ labels, b.labels = some labels) ∧ graphs ≠ [] ∧ ∀ g ∈ graphs, g.label.isSome := by
  cases graphs with
  | nil =>
    obtain rfl := Except.ok.inj h
    exact .inl ⟨rfl, by simp⟩
  | cons first rest =>
    obtain ⟨hmisfit, -, -, hlabels, -⟩ := collate_parts h
    have hsame : ∀ g ∈ first :: rest, g.label.isSome = first.label.isSome :=
      fun g hg => (firstMisfit?_eq_none hmisfit g hg).2.2.2
    cases hfirst : first.label with
    | none =>
      rw [hfirst] at hlabels hsame
      exact .inl ⟨hlabels, fun g hg => by simpa using hsame g hg⟩
    | some y =>
      rw [hfirst] at hlabels hsame
      obtain ⟨labels, -, hlabels⟩ := hlabels
      exact .inr ⟨⟨labels, hlabels⟩, List.cons_ne_nil first rest, hsame⟩

end Batch

namespace Classifier

open Evaluation

variable {m : Classifier α}

/-! ## One batch -/

/-- Whatever keeps a classifier from scoring a batch, it is no missing label. -/
theorem forward_ne_missingLabel (hm : m.Shaped) {b : Batch α} {n : Nat} :
    (m.forward b).1 ≠ .error (.missingLabel n) := by
  intro h
  obtain ⟨hinfinite, hfinite⟩ := forward_outcome hm b
  cases hmean : Scalar.isFinite m.outputMean with
  | false =>
    obtain ⟨detail, hdiverged⟩ := hinfinite hmean
    simp [hdiverged] at h
  | true =>
    obtain ⟨haccepted, hrefused⟩ := hfinite hmean
    by_cases haccepts : b.graphCount = 0 ∨ m.Accepts b
    · obtain ⟨scores, hscores, -⟩ := haccepted haccepts
      simp [hscores] at h
    · obtain ⟨fault, hfault⟩ := hrefused haccepts
      simp [hfault] at h

/-- Scores and labels of two shapes are refused; others are added, and all graphs are counted. -/
theorem addScores_cases (t : Tally σ) (b : Batch α) (scores labels : Matrix α) :
    (∃ fault, addScores t b scores labels = .error (.shapeMismatch fault)) ∨
      ∃ t', t'.graphs = t.graphs + b.graphCount ∧ addScores t b scores labels = .ok t' := by
  unfold addScores crossEntropy
  split
  · exact .inl ⟨_, rfl⟩
  · split <;> exact .inr ⟨_, rfl, rfl⟩

/-- At a batch an evaluation finds no labels, or it fails for another reason, or it goes on with
more graphs. -/
theorem addBatches_cons_cases (hm : m.Shaped) (he : m.training = false) {graphs : List (Graph α)}
    {b : Batch α} (hb : Batch.collate graphs = .ok b) (t : Tally σ) :
    ((∀ g ∈ graphs, g.label = none) ∧
      ∀ rest, (addBatches m t (b :: rest)).1 = .error (.missingLabel t.graphs)) ∨
    (graphs ≠ [] ∧ ∀ g ∈ graphs, g.label.isSome) ∧
      ((∃ failure, (∀ n, failure ≠ .missingLabel n) ∧
        ∀ rest, (addBatches m t (b :: rest)).1 = .error failure) ∨
      ∃ t', t'.graphs = t.graphs + graphs.length ∧
        ∀ rest, addBatches m t (b :: rest) = addBatches m t' rest) := by
  obtain ⟨hlabels, hunlabelled⟩ | ⟨⟨labels, hlabels⟩, hlabelled⟩ := Batch.labels_cases hb
  · exact .inl ⟨hunlabelled, fun rest => by simp [addBatches, hlabels]⟩
  refine .inr ⟨hlabelled, ?_⟩
  have hsame := forward_snd_of_eval he b
  cases hforward : m.forward b with
  | mk result m' =>
    rw [hforward] at hsame
    obtain rfl : m' = m := hsame
    cases result with
    | error failure =>
      refine .inl ⟨failure, ?_, fun rest => by simp [addBatches, hlabels, hforward]⟩
      rintro n rfl
      exact forward_ne_missingLabel hm (congrArg Prod.fst hforward)
    | ok scores =>
      obtain ⟨fault, hadd⟩ | ⟨t', ht', hadd⟩ := addScores_cases t b scores labels
      · exact .inl ⟨.shapeMismatch fault, fun n => Failure.noConfusion,
          fun rest => by simp [addBatches, hlabels, hforward, hadd]⟩
      · rw [Batch.graphCount_of_collate hb] at ht'
        exact .inr ⟨t', ht', fun rest => by simp [addBatches, hlabels, hforward, hadd]⟩

/-! ## All batches -/

section Batches

variable {groups : List (List (Graph α))} {batches : List (Batch α)}

/-- An evaluation that succeeds has found labels everywhere. -/
theorem labelled_of_addBatches (hm : m.Shaped) (he : m.training = false)
    (hb : Batch.Collates groups batches)
    {t t' : Tally σ} (h : (addBatches m t batches).1 = .ok t') :
    ∀ g ∈ groups.flatten, g.label.isSome := by
  induction hb generalizing t with
  | nil => simp
  | @cons graphs b groups batches hfirst hrest ih =>
    obtain ⟨-, hmissing⟩ | ⟨⟨-, hlabelled⟩, ⟨failure, -, hfailure⟩ | ⟨t₁, -, hstep⟩⟩ :=
      addBatches_cons_cases hm he hfirst t
    · simp [hmissing] at h
    · simp [hfailure] at h
    · rw [hstep] at h
      intro g hg
      rw [List.flatten_cons] at hg
      rcases List.mem_append.1 hg with hg | hg
      · exact hlabelled g hg
      · exact ih h g hg

omit [Scalar α] in
/-- Labelled graphs come before the unlabelled ones. -/
theorem exists_cons_of_labelled {graphs k : List (Graph α)} {before after : List (List (Graph α))}
    (hne : graphs ≠ []) (hlabelled : ∀ g ∈ graphs, g.label.isSome)
    (hgroups : graphs :: groups = before ++ k :: after) (hunlabelled : ∀ g ∈ k, g.label = none) :
    ∃ rest, before = graphs :: rest := by
  cases before with
  | nil =>
    obtain rfl := List.head_eq_of_cons_eq hgroups
    obtain ⟨g, hg⟩ := List.exists_mem_of_ne_nil graphs hne
    have hnone := hlabelled g hg
    rw [hunlabelled g hg] at hnone
    cases hnone
  | cons first rest => exact ⟨rest, by rw [List.head_eq_of_cons_eq hgroups]⟩

/-- An evaluation finds no labels exactly if it gets through the batches before one of unlabelled
graphs, and it reports the number of graphs that it has got through. -/
theorem addBatches_eq_missingLabel (hm : m.Shaped) (he : m.training = false)
    (hb : Batch.Collates groups batches)
    (t : Tally σ) {n : Nat} :
    (addBatches m t batches).1 = .error (.missingLabel n) ↔
      ∃ before graphs after, groups = before ++ graphs :: after ∧
        t.graphs + before.flatten.length = n ∧
        (∃ t', (addBatches m t (batches.take before.length)).1 = .ok t') ∧
        ∀ g ∈ graphs, g.label = none := by
  -- one batch after another; the tally carries the number of graphs that came before
  induction hb generalizing t with
  | nil => simp [addBatches]
  | @cons graphs b groups batches hfirst hrest ih =>
    obtain ⟨hunlabelled, hmissing⟩ | ⟨⟨hne, hlabelled⟩, ⟨failure, hother, hfailure⟩ |
      ⟨t₁, ht₁, hstep⟩⟩ := addBatches_cons_cases hm he hfirst t
    · constructor
      · intro h
        rw [hmissing, Except.error.injEq, Failure.missingLabel.injEq] at h
        exact ⟨[], graphs, groups, rfl, h, ⟨t, rfl⟩, hunlabelled⟩
      · rintro ⟨before, k, after, hgroups, hn, ⟨t', ht'⟩, -⟩
        cases before with
        | nil => rw [hmissing, ← hn, List.flatten_nil, List.length_nil, Nat.add_zero]
        | cons first before => simp [hmissing] at ht'
    · constructor
      · intro h
        rw [hfailure, Except.error.injEq] at h
        exact absurd h (hother n)
      · rintro ⟨before, k, after, hgroups, -, ⟨t', ht'⟩, hunlabelled⟩
        obtain ⟨before, rfl⟩ := exists_cons_of_labelled hne hlabelled hgroups hunlabelled
        simp [hfailure] at ht'
    · rw [hstep, ih t₁]
      constructor
      · rintro ⟨before, k, after, rfl, hn, ⟨t', ht'⟩, hunlabelled⟩
        refine ⟨graphs :: before, k, after, rfl, ?_, ⟨t', ?_⟩, hunlabelled⟩
        · rw [List.flatten_cons, List.length_append, ← hn, ht₁, Nat.add_assoc]
        · rw [List.length_cons, List.take_succ_cons, hstep]
          exact ht'
      · rintro ⟨before, k, after, hgroups, hn, ⟨t', ht'⟩, hunlabelled⟩
        obtain ⟨before, rfl⟩ := exists_cons_of_labelled hne hlabelled hgroups hunlabelled
        rw [List.length_cons, List.take_succ_cons, hstep] at ht'
        rw [List.flatten_cons, List.length_append, ← Nat.add_assoc, ← ht₁] at hn
        exact ⟨before, k, after, List.tail_eq_of_cons_eq hgroups, hn, ⟨t', ht'⟩, hunlabelled⟩

/-! ## An evaluation -/

/-- The failure of an evaluation is that of its batches. -/
theorem evaluate_eq_error {failure : Failure} :
    (m.evaluate batches : Except Failure (Evaluation σ) × Classifier α).1 = .error failure ↔
      (addBatches m.eval (⟨0, Scalar.zero, 0⟩ : Tally σ) batches).1 = .error failure := by
  unfold evaluate
  cases addBatches m.eval (⟨0, Scalar.zero, 0⟩ : Tally σ) batches with
  | mk total m' => cases total <;> simp [Except.map]

theorem exists_evaluate_iff_addBatches :
    (∃ r : Evaluation σ, (m.evaluate batches).1 = .ok r) ↔
      ∃ t', (addBatches m.eval (⟨0, Scalar.zero, 0⟩ : Tally σ) batches).1 = .ok t' := by
  unfold evaluate
  cases addBatches m.eval (⟨0, Scalar.zero, 0⟩ : Tally σ) batches with
  | mk total m' => cases total <;> simp [Except.map]

/-- An evaluation reports a missing label exactly if it succeeds on the batches before one of
unlabelled graphs, and by the number of graphs in them. -/
theorem evaluate_eq_missingLabel (hm : m.Shaped) (hb : Batch.Collates groups batches) {n : Nat} :
    (m.evaluate batches : Except Failure (Evaluation σ) × Classifier α).1
        = .error (.missingLabel n) ↔
      ∃ before graphs after, groups = before ++ graphs :: after ∧ before.flatten.length = n ∧
        (∃ r : Evaluation σ, (m.evaluate (batches.take before.length)).1 = .ok r) ∧
        ∀ g ∈ graphs, g.label = none := by
  simp only [evaluate_eq_error, exists_evaluate_iff_addBatches]
  rw [addBatches_eq_missingLabel (eval_shaped hm) rfl hb]
  simp only [Nat.zero_add]

/-- An evaluation reports a missing label exactly if it succeeds on the batches before one of
unlabelled graphs, and by the number of graphs in them. All these graphs are labelled. The next
graph, the reported one, has no label, or else the batch holds no graph. -/
theorem evaluate_missingLabel (hm : m.Shaped) (hb : Batch.Collates groups batches) {n : Nat} :
    ((m.evaluate batches : Except Failure (Evaluation σ) × Classifier α).1
        = .error (.missingLabel n) ↔
      ∃ before graphs after, groups = before ++ graphs :: after ∧ before.flatten.length = n ∧
        (∃ r : Evaluation σ, (m.evaluate (batches.take before.length)).1 = .ok r) ∧
        ∀ g ∈ graphs, g.label = none) ∧
    ((m.evaluate batches : Except Failure (Evaluation σ) × Classifier α).1
        = .error (.missingLabel n) →
      (∀ i < n, ∃ g ∈ groups.flatten[i]?, g.label.isSome) ∧
      ((∃ g ∈ groups.flatten[n]?, g.label = none) ∨
        ∃ before after, groups = before ++ [] :: after ∧ before.flatten.length = n)) := by
  refine ⟨evaluate_eq_missingLabel hm hb, fun h => ?_⟩
  obtain ⟨before, graphs, after, rfl, rfl, hscored, hunlabelled⟩ :=
    (evaluate_eq_missingLabel hm hb).1 h
  obtain ⟨t', ht'⟩ := exists_evaluate_iff_addBatches.1 hscored
  have htake := List.forall₂_take before.length hb
  rw [List.take_left] at htake
  have hlabelled := labelled_of_addBatches (eval_shaped hm) rfl htake ht'
  rw [List.flatten_append, List.flatten_cons]
  constructor
  · intro i hi
    rw [List.getElem?_append_left hi]
    exact ⟨_, List.getElem?_eq_getElem hi, hlabelled _ (List.getElem_mem hi)⟩
  · cases graphs with
    | nil => exact .inr ⟨before, after, rfl, rfl⟩
    | cons g rest =>
      rw [List.getElem?_append_right (Nat.le_refl _), Nat.sub_self]
      exact .inl ⟨g, rfl, hunlabelled g List.mem_cons_self⟩

end Batches

/-- A graph of one node. -/
def singleNode (label : Option (List Float32)) : Graph Float32 where
  features := ⟨1, [[1]], by simp⟩
  edges := []
  edgeFeatures := none
  label := label

/-- A labelled graph and an unlabelled one, each in a batch by itself. -/
theorem evaluate_missingLabel_second :
    ∃ batches, (oneColumn : Classifier Float32).Shaped ∧
      Batch.Collates [[singleNode (some [0, 1])], [singleNode none]] batches ∧
      (oneColumn.evaluate batches : Except Failure (Evaluation Float) × Classifier Float32).1
        = .error (.missingLabel 1) ∧
      ∃ g ∈ [[singleNode (some [0, 1])], [singleNode none]].flatten[1]?, g.label = none := by
  have hshaped : (oneColumn : Classifier Float32).Shaped := oneColumn_shaped (by decide)
  have hb : Batch.Collates [[singleNode (some [0, 1])], [singleNode none]] [_, _] :=
    .cons rfl (.cons rfl .nil)
  obtain ⟨hreport, hmeans⟩ := evaluate_missingLabel (σ := Float) (n := 1) hshaped hb
  have hmissing := hreport.2 ⟨[[singleNode (some [0, 1])]], [singleNode none], [], rfl, rfl,
    ⟨_, rfl⟩, by simp [singleNode]⟩
  obtain ⟨-, hunlabelled | ⟨before, after, hgroups, -⟩⟩ := hmeans hmissing
  · exact ⟨_, hshaped, hb, hmissing, hunlabelled⟩
  · have hempty : [] ∈ [[singleNode (some [0, 1])], [singleNode none]] := by
      rw [hgroups]
      simp
    simp at hempty

/-- A batch of no graphs is reported as well. By itself it has no graph that could be unlabelled.
Before the batch of a labelled graph, that graph is the reported one. -/
theorem evaluate_noGraphs :
    ∃ batches, (oneColumn : Classifier Float32).Shaped ∧
      Batch.Collates [[], [singleNode (some [0, 1])]] (Batch.empty :: batches) ∧
      (oneColumn.evaluate [Batch.empty]
        : Except Failure (Evaluation Float) × Classifier Float32).1 = .error (.missingLabel 0) ∧
      ([[]] : List (List (Graph Float32))).flatten[0]? = none ∧
      (oneColumn.evaluate (Batch.empty :: batches)
        : Except Failure (Evaluation Float) × Classifier Float32).1 = .error (.missingLabel 0) ∧
      [[], [singleNode (some [0, 1])]].flatten[0]? = some (singleNode (some [0, 1])) :=
  ⟨[_], oneColumn_shaped (by decide), .cons rfl (.cons rfl .nil), rfl, rfl, rfl, rfl⟩

end Classifier

end PonziScreen
