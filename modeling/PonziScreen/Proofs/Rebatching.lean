import Mathlib.Data.Real.Basic
import PonziScreen.Network.Evaluation
import PonziScreen.Proofs.Acceptance
import PonziScreen.Proofs.BatchIndependence

/-!
# Evaluation and the choice of batches

The outcome of an evaluation depends on the graphs of a data set, not on how they were put into
batches, nor on their order.

A batch is evaluated as a whole, so a graph only counts through totals. In evaluation mode these
totals are sums over the graphs of what each of them contributes when it is taken alone: whether its
class is right, and its loss (`Classifier.addGraphs`). Whether an evaluation succeeds is a condition
on single graphs as well (`Classifier.Grades`).

* `Classifier.addBatches_eq_ok`, `Classifier.grades_of_addBatches` — one step for each batch
* `Scalar.Exact` — what it takes for a mean over a batch to become the sum again
* `Classifier.evaluate_rebatch` — batches of the same graphs are evaluated alike, and the outcome is
  the average over the graphs
-/

namespace PonziScreen

open PonziScreen.Matrix

variable {α σ : Type} [Scalar α] [Scalar σ] [Widen α σ]

/-! ## Batches of a data set -/

/-- Batches that labelled graphs have been put into, group by group. -/
def Batch.Collated (groups : List (List (Graph α))) (batches : List (Batch α)) : Prop :=
  List.Forall₂ (fun graphs b => graphs ≠ [] ∧ (∀ g ∈ graphs, g.label.isSome) ∧
    Batch.collate graphs = .ok b) groups batches

namespace Classifier

/-- The scores of a graph in evaluation mode. -/
def rowAlone (m : Classifier α) (g : Graph α) : List α :=
  match Batch.ofGraph g with
  | .ok b => m.scoreRow b 0
  | .error _ => []

/-- The scores of the graphs of a batch are those of each graph alone. -/
theorem map_scoreRow (m : Classifier α) {graphs : List (Graph α)} {b : Batch α}
    (hb : Batch.Joins graphs b) :
    (List.range b.graphCount).map (m.scoreRow b) = graphs.map m.rowAlone := by
  rw [hb.graphCount]
  apply List.ext_getElem
  · simp
  · intro i h₁ h₂
    have hi : i < graphs.length := by simpa using h₂
    obtain ⟨hsplit, hlength⟩ := eq_append_of_getElem? (List.getElem?_eq_getElem hi)
    obtain ⟨s, hs⟩ := Batch.ofGraph_eq_ok (hb.valid _ (List.getElem_mem hi))
    have hone := Batch.collate_joins (List.cons_ne_nil graphs[i] []) hs
    have hblock := scoreRow_block m (hsplit ▸ hb) hone
    rw [hlength] at hblock
    rw [List.getElem_map, List.getElem_map, List.getElem_range, rowAlone, hs, hblock]

/-- What a graph has to be for an evaluation to get past it. -/
structure Grades (m : Classifier α) (g : Graph α) : Prop where
  finite : m.divergence? = none
  fits : m.Fits g
  label : g.labelRow.length = m.config.outChannels

/-- Whether the class of a graph is right. -/
def right (m : Classifier α) (g : Graph α) : Bool := argmax (m.rowAlone g) = argmax g.labelRow

/-- The loss of a graph. -/
def lossAlone (m : Classifier α) (g : Graph α) : α := rowLoss (m.rowAlone g) g.labelRow

/-- The mean loss of the graphs of a batch. -/
def batchLoss (m : Classifier α) (graphs : List (Graph α)) : α :=
  (graphs.map m.lossAlone).foldl (· - ·) Scalar.zero / Scalar.ofNat graphs.length

/-- Totals with the graphs of one more batch. -/
def addGraphs (m : Classifier α) (t : Tally σ) (graphs : List (Graph α)) : Tally σ where
  correct := t.correct + graphs.countP m.right
  loss := t.loss + (Widen.widen (m.batchLoss graphs) : σ) * Scalar.ofNat graphs.length
  graphs := t.graphs + graphs.length

/-- Totals over batches of graphs. -/
def tallyOf (m : Classifier α) (groups : List (List (Graph α))) : Tally σ :=
  groups.foldl m.addGraphs ⟨0, Scalar.zero, 0⟩

end Classifier

/-! ## One batch -/

theorem Evaluation.agreements_map (f g : Graph α → List α) (graphs : List (Graph α)) :
    agreements ((graphs.map f).map argmax) ((graphs.map g).map argmax)
      = graphs.countP fun k => argmax (f k) = argmax (g k) := by
  rw [agreements, List.map_map, List.map_map, List.zipWith_map, List.zipWith_self, List.count,
    List.countP_map]
  refine List.countP_congr fun k _ => ?_
  simp

theorem Evaluation.graphs_ofTally (t : Tally σ) : (ofTally t).graphs = t.graphs := by
  unfold ofTally
  by_cases h : t.graphs = 0
  · rw [if_pos h, h]
  · rw [if_neg h]

/-- The accuracy only depends on counts. -/
theorem Evaluation.accuracy_ofTally {t t' : Tally σ} (hcorrect : t'.correct = t.correct)
    (hgraphs : t'.graphs = t.graphs) : (ofTally t').accuracy = (ofTally t).accuracy := by
  unfold ofTally
  rw [hcorrect, hgraphs]
  split <;> rfl

namespace Classifier

variable {m : Classifier α} {graphs : List (Graph α)} {b : Batch α}

/-- Scores and labels of graphs are compared graph by graph. -/
theorem addScores_eq_ok (hne : graphs ≠ []) (hcount : b.graphCount = graphs.length) (t : Tally σ)
    {scores labels : Matrix α} (hscores : scores.rows = graphs.map m.rowAlone)
    (hlabels : labels.rows = graphs.map Graph.labelRow) (hwidth : scores.width = labels.width) :
    Evaluation.addScores t b scores labels = .ok (m.addGraphs t graphs) := by
  have hscoresHeight := height_of_rows_eq hscores
  have hlabelsHeight := height_of_rows_eq hlabels
  have hpos : graphs.length ≠ 0 := fun h => hne (List.length_eq_zero_iff.1 h)
  have hloss : crossEntropy scores labels = .ok (m.batchLoss graphs) := by
    unfold crossEntropy
    rw [if_neg (by simp [hscoresHeight, hlabelsHeight, hwidth]), hscoresHeight, if_neg hpos,
      hscores, hlabels, List.zipWith_map, List.zipWith_self]
    rfl
  have hright : Evaluation.agreements scores.argmaxRows labels.argmaxRows
      = graphs.countP m.right := by
    rw [argmaxRows, argmaxRows, hscores, hlabels, Evaluation.agreements_map]
    rfl
  rw [Evaluation.addScores, hloss, ok_bind, hright, hcount]
  rfl

/-- Scores and labels of different widths are refused. -/
theorem addScores_refused (t : Tally σ) {scores labels : Matrix α}
    (h : scores.width ≠ labels.width) :
    ∃ failure, Evaluation.addScores t b scores labels = .error failure := by
  refine ⟨.shapeMismatch (.lossShapes scores.height scores.width labels.height labels.width), ?_⟩
  rw [Evaluation.addScores, crossEntropy, if_pos (.inr h)]
  rfl

/-- A batch of graphs that grade is added, and the evaluation goes on. -/
theorem addBatches_cons (hm : m.Shaped) (he : m.training = false) (hne : graphs ≠ [])
    (hlabelled : ∀ g ∈ graphs, g.label.isSome) (hb : Batch.collate graphs = .ok b)
    (hgrades : ∀ g ∈ graphs, m.Grades g) (t : Tally σ) (rest : List (Batch α)) :
    Evaluation.addBatches m t (b :: rest) =
      Evaluation.addBatches m (m.addGraphs t graphs) rest := by
  have hjoins := Batch.collate_joins hne hb
  obtain ⟨labels, hlabels, hrows, hwidths⟩ := Batch.labels_of_collate hne hb hlabelled
  obtain ⟨g, hg⟩ := List.exists_mem_of_ne_nil graphs hne
  have hreads : m.Reads b :=
    (reads_iff_of_joins hjoins hne).2 ⟨(hgrades g hg).finite, fun k hk => (hgrades k hk).fits⟩
  obtain ⟨hsame, scores, hscores, hwidth, hscoreRows⟩ :=
    forward_eval_yields hm he hreads (hjoins.graphCount_ne_zero hne)
  rw [map_scoreRow m hjoins] at hscoreRows
  have hforward : m.forward b = (.ok scores, m) := Prod.ext hscores hsame
  have hfit : scores.width = labels.width := by
    rw [hwidth, ← (hgrades g hg).label, hwidths g hg]
  have hadd := addScores_eq_ok (m := m) hne hjoins.graphCount t hscoreRows hrows hfit
  simp only [Evaluation.addBatches, hlabels, hforward, hadd]

/-- An evaluation that gets past a batch grades all its graphs. -/
theorem grades_of_addBatches_cons (hm : m.Shaped) (he : m.training = false) (hne : graphs ≠ [])
    (hlabelled : ∀ g ∈ graphs, g.label.isSome) (hb : Batch.collate graphs = .ok b) {t t' : Tally σ}
    {rest : List (Batch α)} (h : (Evaluation.addBatches m t (b :: rest)).1 = .ok t') :
    ∀ g ∈ graphs, m.Grades g := by
  have hjoins := Batch.collate_joins hne hb
  have hcount := hjoins.graphCount_ne_zero hne
  obtain ⟨labels, hlabels, hrows, hwidths⟩ := Batch.labels_of_collate hne hb hlabelled
  simp only [Evaluation.addBatches, hlabels] at h
  cases hforward : m.forward b with
  | mk result m' =>
    cases result with
    | error failure => simp [hforward] at h
    | ok scores =>
      have hok : (m.forward b).1 = .ok scores := by rw [hforward]
      have hreads := reads_of_forward hm hcount hok
      obtain ⟨hfinite, hfits⟩ := (reads_iff_of_joins hjoins hne).1 hreads
      obtain ⟨-, y, hy, hwidth, -⟩ := forward_eval_yields hm he hreads hcount
      obtain rfl : y = scores := Except.ok.inj (hy.symm.trans hok)
      by_cases hfit : y.width = labels.width
      · intro g hg
        exact ⟨hfinite, hfits g hg, by rw [hwidths g hg, ← hfit, hwidth]⟩
      · obtain ⟨failure, hrefused⟩ := addScores_refused (b := b) t hfit
        simp [hforward, hrefused] at h

/-! ## All batches -/

variable {groups : List (List (Graph α))} {batches : List (Batch α)}

/-- Batches of graphs that grade are added, one after another. -/
theorem addBatches_eq_ok (hm : m.Shaped) (he : m.training = false)
    (hb : Batch.Collated groups batches) (hgrades : ∀ g ∈ groups.flatten, m.Grades g)
    (t : Tally σ) :
    Evaluation.addBatches m t batches = (.ok (groups.foldl m.addGraphs t), m) := by
  induction hb generalizing t with
  | nil => rfl
  | @cons graphs b groups batches hfirst hrest ih =>
    obtain ⟨hne, hlabelled, hcollate⟩ := hfirst
    rw [List.flatten_cons] at hgrades
    rw [addBatches_cons hm he hne hlabelled hcollate
      fun g hg => hgrades g (List.mem_append_left _ hg)]
    exact ih (fun g hg => hgrades g (List.mem_append_right _ hg)) _

/-- An evaluation that succeeds grades all graphs. -/
theorem grades_of_addBatches (hm : m.Shaped) (he : m.training = false)
    (hb : Batch.Collated groups batches) {t t' : Tally σ}
    (h : (Evaluation.addBatches m t batches).1 = .ok t') : ∀ g ∈ groups.flatten, m.Grades g := by
  induction hb generalizing t with
  | nil => simp
  | @cons graphs b groups batches hfirst hrest ih =>
    obtain ⟨hne, hlabelled, hcollate⟩ := hfirst
    have hgrades := grades_of_addBatches_cons hm he hne hlabelled hcollate h
    rw [addBatches_cons hm he hne hlabelled hcollate hgrades] at h
    intro g hg
    rw [List.flatten_cons] at hg
    rcases List.mem_append.1 hg with hg | hg
    · exact hgrades g hg
    · exact ih h g hg

theorem foldl_addGraphs_counts (m : Classifier α) (groups : List (List (Graph α)))
    (t : Tally σ) :
    (groups.foldl m.addGraphs t).correct = t.correct + groups.flatten.countP m.right ∧
      (groups.foldl m.addGraphs t).graphs = t.graphs + groups.flatten.length := by
  induction groups generalizing t with
  | nil => exact ⟨rfl, rfl⟩
  | cons graphs rest ih =>
    obtain ⟨hcorrect, hgraphs⟩ := ih (m.addGraphs t graphs)
    rw [List.foldl_cons, hcorrect, hgraphs, List.flatten_cons, List.countP_append,
      List.length_append, ← Nat.add_assoc, ← Nat.add_assoc]
    exact ⟨rfl, rfl⟩

/-- The totals, but for the loss, are counts. -/
theorem tallyOf_counts (m : Classifier α) (groups : List (List (Graph α))) :
    (m.tallyOf groups : Tally σ).correct = groups.flatten.countP m.right ∧
      (m.tallyOf groups : Tally σ).graphs = groups.flatten.length := by
  obtain ⟨hcorrect, hgraphs⟩ := foldl_addGraphs_counts m groups
    (⟨0, Scalar.zero, 0⟩ : Tally σ)
  exact ⟨hcorrect.trans (Nat.zero_add _), hgraphs.trans (Nat.zero_add _)⟩

/-- The outcome for batches of graphs that grade. -/
theorem evaluate_eq_ok (hm : m.Shaped) (hb : Batch.Collated groups batches)
    (hgrades : ∀ g ∈ groups.flatten, m.eval.Grades g) :
    (m.evaluate batches : Except Failure (Evaluation σ) × Classifier α).1
      = .ok (Evaluation.ofTally (m.eval.tallyOf groups)) := by
  have h := addBatches_eq_ok (eval_shaped hm) rfl hb hgrades (⟨0, Scalar.zero, 0⟩ : Tally σ)
  rw [evaluate, h]
  rfl

theorem exists_evaluate_iff (hm : m.Shaped) (hb : Batch.Collated groups batches) :
    (∃ r : Evaluation σ, (m.evaluate batches).1 = .ok r)
      ↔ ∀ g ∈ groups.flatten, m.eval.Grades g := by
  constructor
  · rintro ⟨r, hr⟩
    obtain ⟨t, ht, -⟩ := map_eq_ok.1 hr
    exact grades_of_addBatches (eval_shaped hm) rfl hb ht
  · intro h
    exact ⟨_, evaluate_eq_ok hm hb h⟩

end Classifier

/-! ## Exact arithmetic -/

/-- Exact arithmetic: the scalars of the model and those of the totals stand for real numbers, and
nothing that an evaluation does with its losses rounds them. What the classifier does to get its
scores does not matter. -/
structure Scalar.Exact (α σ : Type) [Scalar α] [Scalar σ] [Widen α σ] where
  value : α → ℝ
  total : σ → ℝ
  total_injective : Function.Injective total
  value_ofNat : ∀ n : Nat, value (Scalar.ofNat n) = n
  value_sub : ∀ x y, value (x - y) = value x - value y
  value_div : ∀ x y, value (x / y) = value x / value y
  total_ofNat : ∀ n : Nat, total (Scalar.ofNat n) = n
  total_add : ∀ x y, total (x + y) = total x + total y
  total_mul : ∀ x y, total (x * y) = total x * total y
  total_div : ∀ x y, total (x / y) = total x / total y
  total_widen : ∀ x, total (Widen.widen x) = value x

noncomputable instance : Widen ℝ ℝ where
  widen x := x

/-- The real numbers are exact. -/
noncomputable def Scalar.Exact.real : Scalar.Exact ℝ ℝ where
  value x := x
  total x := x
  total_injective := Function.injective_id
  value_ofNat _ := rfl
  value_sub _ _ := rfl
  value_div _ _ := rfl
  total_ofNat _ := rfl
  total_add _ _ := rfl
  total_mul _ _ := rfl
  total_div _ _ := rfl
  total_widen _ := rfl

namespace Scalar.Exact

variable (ex : Scalar.Exact α σ)

theorem value_zero : ex.value Scalar.zero = 0 := (ex.value_ofNat 0).trans Nat.cast_zero

theorem total_zero : ex.total Scalar.zero = 0 := (ex.total_ofNat 0).trans Nat.cast_zero

theorem value_foldl_sub (xs : List α) (x : α) :
    ex.value (xs.foldl (· - ·) x) = ex.value x - (xs.map ex.value).sum := by
  induction xs generalizing x with
  | nil => simp
  | cons y rest ih =>
    rw [List.foldl_cons, ih, ex.value_sub, List.map_cons, List.sum_cons, sub_sub]

/-- The mean loss of a batch, times the number of its graphs, is the sum of their losses again. -/
theorem total_loss_addGraphs (m : Classifier α) (t : Tally σ) (graphs : List (Graph α)) :
    ex.total (m.addGraphs t graphs).loss
      = ex.total t.loss - (graphs.map fun g => ex.value (m.lossAlone g)).sum := by
  have hmean : ex.value (m.batchLoss graphs) * graphs.length
      = -(graphs.map fun g => ex.value (m.lossAlone g)).sum := by
    rw [Classifier.batchLoss, ex.value_div, ex.value_foldl_sub, ex.value_zero, ex.value_ofNat,
      List.map_map, zero_sub]
    cases graphs with
    | nil => simp
    | cons g rest => exact div_mul_cancel₀ _ (Nat.cast_ne_zero.2 (Nat.succ_ne_zero rest.length))
  rw [Classifier.addGraphs, ex.total_add, ex.total_mul, ex.total_widen, ex.total_ofNat, hmean,
    sub_eq_add_neg]

theorem total_loss_foldl (m : Classifier α) (t : Tally σ) (groups : List (List (Graph α))) :
    ex.total (groups.foldl m.addGraphs t).loss
      = ex.total t.loss - (groups.flatten.map fun g => ex.value (m.lossAlone g)).sum := by
  induction groups generalizing t with
  | nil => simp
  | cons graphs rest ih =>
    rw [List.foldl_cons, ih, total_loss_addGraphs, List.flatten_cons, List.map_append,
      List.sum_append, sub_sub]

/-- The total loss is a sum over graphs. -/
theorem total_loss_tallyOf (m : Classifier α) (groups : List (List (Graph α))) :
    ex.total (m.tallyOf groups).loss
      = -(groups.flatten.map fun g => ex.value (m.lossAlone g)).sum := by
  rw [Classifier.tallyOf, total_loss_foldl, ex.total_zero, zero_sub]

theorem total_ofTally (t : Tally σ) :
    ex.total (Evaluation.ofTally t).accuracy = t.correct / t.graphs ∧
      ex.total (Evaluation.ofTally t).meanLoss = ex.total t.loss / t.graphs := by
  unfold Evaluation.ofTally
  by_cases hzero : t.graphs = 0
  · rw [if_pos hzero, hzero, Nat.cast_zero, div_zero, div_zero]
    exact ⟨ex.total_zero, ex.total_zero⟩
  · rw [if_neg hzero]
    exact ⟨by rw [ex.total_div, ex.total_ofNat, ex.total_ofNat],
      by rw [ex.total_div, ex.total_ofNat]⟩

end Scalar.Exact

/-! ## Two ways to make batches -/

namespace Classifier

/-- Evaluates a classifier on a single graph. -/
def evaluateAlone (m : Classifier α) (g : Graph α) : Except Failure (Evaluation σ) := do
  (m.evaluate [← Batch.ofGraph g]).1

variable {m : Classifier α} {groups groups' : List (List (Graph α))}
  {batches batches' : List (Batch α)}

omit [Scalar σ] [Widen α σ] in
theorem valid_of_collated (hb : Batch.Collated groups batches) :
    ∀ g ∈ groups.flatten, g.fault? = none ∧ g.label.isSome := by
  induction hb with
  | nil => simp
  | @cons graphs b groups batches hfirst hrest ih =>
    obtain ⟨hne, hlabelled, hcollate⟩ := hfirst
    intro g hg
    rw [List.flatten_cons] at hg
    rcases List.mem_append.1 hg with hg | hg
    · exact ⟨(Batch.collate_joins hne hcollate).valid g hg, hlabelled g hg⟩
    · exact ih g hg

/-- A graph that grades is evaluated alone. -/
theorem evaluateAlone_eq_ok (hm : m.Shaped) {g : Graph α} (hvalid : g.fault? = none)
    (hlabel : g.label.isSome) (hgrades : m.eval.Grades g) :
    (m.evaluateAlone g : Except Failure (Evaluation σ))
      = .ok (Evaluation.ofTally (m.eval.tallyOf [[g]])) := by
  obtain ⟨s, hs⟩ := Batch.ofGraph_eq_ok hvalid
  have hcollated : Batch.Collated [[g]] [s] :=
    .cons ⟨List.cons_ne_nil g [], fun k hk => List.mem_singleton.1 hk ▸ hlabel, hs⟩ .nil
  rw [evaluateAlone, hs, ok_bind]
  refine evaluate_eq_ok hm hcollated fun k hk => ?_
  rw [List.flatten_cons, List.flatten_nil, List.append_nil, List.mem_singleton] at hk
  exact hk ▸ hgrades

/-- Graphs that grade in batches are evaluated alone as well. -/
theorem mapM_evaluateAlone (hm : m.Shaped) (hb : Batch.Collated groups batches)
    (hgrades : ∀ g ∈ groups.flatten, m.eval.Grades g) :
    groups.flatten.mapM m.evaluateAlone
      = .ok (groups.flatten.map fun g =>
        (Evaluation.ofTally (m.eval.tallyOf [[g]]) : Evaluation σ)) := by
  refine mapM_eq_ok fun g hg => ?_
  obtain ⟨hvalid, hlabel⟩ := valid_of_collated hb g hg
  exact evaluateAlone_eq_ok hm hvalid hlabel (hgrades g hg)

omit [Scalar α] in
theorem sum_ite_eq_countP (p : Graph α → Bool) (graphs : List (Graph α)) :
    (graphs.map fun g => if p g then (1 : ℝ) else 0).sum = graphs.countP p := by
  induction graphs with
  | nil => simp
  | cons g rest ih =>
    rw [List.map_cons, List.sum_cons, ih, List.countP_cons, add_comm]
    cases p g <;> simp

/-- The outcome is the average of the outcomes of single graphs. -/
theorem average_of_singles (ex : Scalar.Exact α σ) (m : Classifier α)
    (groups : List (List (Graph α))) :
    let r : Evaluation σ := Evaluation.ofTally (m.tallyOf groups)
    let singles : List (Evaluation σ) :=
      groups.flatten.map fun g => Evaluation.ofTally (m.tallyOf [[g]])
    ex.total r.accuracy = (singles.map fun s => ex.total s.accuracy).sum / singles.length ∧
      ex.total r.meanLoss = (singles.map fun s => ex.total s.meanLoss).sum / singles.length := by
  intro r singles
  have haccuracy : ∀ g, ex.total (Evaluation.ofTally (m.tallyOf [[g]])).accuracy
      = if m.right g then 1 else 0 := by
    intro g
    obtain ⟨hcorrect, hgraphs⟩ := tallyOf_counts (σ := σ) m [[g]]
    rw [(ex.total_ofTally _).1, hcorrect, hgraphs]
    cases hright : m.right g <;> simp [hright]
  have hloss : ∀ g, ex.total (Evaluation.ofTally (m.tallyOf [[g]])).meanLoss
      = -ex.value (m.lossAlone g) := by
    intro g
    rw [(ex.total_ofTally _).2, ex.total_loss_tallyOf, (tallyOf_counts m [[g]]).2]
    simp
  obtain ⟨hcorrect, hgraphs⟩ := tallyOf_counts (σ := σ) m groups
  constructor
  · rw [(ex.total_ofTally _).1, hcorrect, hgraphs, List.map_map, List.length_map,
      ← sum_ite_eq_countP]
    congr 2
    exact List.map_congr_left fun g _ => (haccuracy g).symm
  · rw [(ex.total_ofTally _).2, ex.total_loss_tallyOf, hgraphs, List.map_map, List.length_map,
      List.sum_neg, List.map_map]
    congr 2
    exact List.map_congr_left fun g _ => (hloss g).symm

/-- However the graphs of a data set are put into batches, the evaluation of a classifier succeeds
or fails alike. If it succeeds, it counts the graphs and has the same accuracy and, in exact
arithmetic, the same mean loss; both are the averages of what single graphs have. -/
theorem evaluate_rebatch (hm : m.Shaped) (hb : Batch.Collated groups batches)
    (hb' : Batch.Collated groups' batches') (hperm : groups.flatten.Perm groups'.flatten) :
    ((∃ r : Evaluation σ, (m.evaluate batches).1 = .ok r) ↔
      ∃ r : Evaluation σ, (m.evaluate batches').1 = .ok r) ∧
    ∀ r r' : Evaluation σ, (m.evaluate batches).1 = .ok r → (m.evaluate batches').1 = .ok r' →
      r'.graphs = r.graphs ∧ r'.accuracy = r.accuracy ∧
      ∃ singles : List (Evaluation σ), groups.flatten.mapM m.evaluateAlone = .ok singles ∧
        r.graphs = singles.length ∧
        ∀ ex : Scalar.Exact α σ, r'.meanLoss = r.meanLoss ∧
          ex.total r.accuracy = (singles.map fun s => ex.total s.accuracy).sum / singles.length ∧
          ex.total r.meanLoss =
            (singles.map fun s => ex.total s.meanLoss).sum / singles.length := by
  refine ⟨?_, ?_⟩
  · rw [exists_evaluate_iff hm hb, exists_evaluate_iff hm hb']
    exact ⟨fun h g hg => h g (hperm.mem_iff.2 hg), fun h g hg => h g (hperm.mem_iff.1 hg)⟩
  · intro r r' hr hr'
    have hgrades := (exists_evaluate_iff hm hb).1 ⟨r, hr⟩
    have hgrades' := (exists_evaluate_iff hm hb').1 ⟨r', hr'⟩
    obtain rfl : Evaluation.ofTally (m.eval.tallyOf groups) = r :=
      Except.ok.inj ((evaluate_eq_ok hm hb hgrades).symm.trans hr)
    obtain rfl : Evaluation.ofTally (m.eval.tallyOf groups') = r' :=
      Except.ok.inj ((evaluate_eq_ok hm hb' hgrades').symm.trans hr')
    -- the counts are the same for both
    obtain ⟨hcorrect, hgraphs⟩ := tallyOf_counts (σ := σ) m.eval groups
    obtain ⟨hcorrect', hgraphs'⟩ := tallyOf_counts (σ := σ) m.eval groups'
    rw [← hperm.countP_eq, ← hcorrect] at hcorrect'
    rw [← hperm.length_eq, ← hgraphs] at hgraphs'
    refine ⟨?_, Evaluation.accuracy_ofTally hcorrect' hgraphs', _, mapM_evaluateAlone hm hb hgrades,
      ?_, fun ex => ⟨ex.total_injective ?_, average_of_singles ex m.eval groups⟩⟩
    · rw [Evaluation.graphs_ofTally, Evaluation.graphs_ofTally, hgraphs']
    · rw [Evaluation.graphs_ofTally, hgraphs, List.length_map]
    · rw [(ex.total_ofTally _).2, (ex.total_ofTally _).2, ex.total_loss_tallyOf,
        ex.total_loss_tallyOf, hgraphs', (hperm.map _).sum_eq]

/-- A new classifier, and three graphs, two of them alike, in uneven batches. -/
theorem evaluate_rebatch_initial :
    ∃ (m : Classifier ℝ) (g h : Graph ℝ) (batches batches' : List (Batch ℝ))
      (r r' : Evaluation ℝ),
      m.config = Config.initial ∧ m.Shaped ∧ g.label = some [0, 1] ∧ h.label = some [1, 0] ∧
      Batch.Collated [[g], [h, g]] batches ∧ Batch.Collated [[g, g], [h]] batches' ∧
      (m.evaluate batches).1 = .ok r ∧ (m.evaluate batches').1 = .ok r' ∧
      r'.graphs = r.graphs ∧ r'.accuracy = r.accuracy ∧ r'.meanLoss = r.meanLoss := by
  obtain ⟨m, hm⟩ := exists_build 0 Config.fault?_initial_real
  obtain ⟨hshaped, hconfig⟩ := build_shaped hm
  let g : Graph ℝ := ⟨Matrix.zeros 2 FeatureGraph.nodeWidth, [(0, 1)], none, some [0, 1]⟩
  let h : Graph ℝ := ⟨Matrix.zeros 1 FeatureGraph.nodeWidth, [], none, some [1, 0]⟩
  have hcollated : Batch.Collated [[g], [h, g]] [_, _] :=
    .cons ⟨by simp, by simp [g], rfl⟩ (.cons ⟨by simp, by simp [g, h], rfl⟩ .nil)
  have hcollated' : Batch.Collated [[g, g], [h]] [_, _] :=
    .cons ⟨by simp, by simp [g], rfl⟩ (.cons ⟨by simp, by simp [h], rfl⟩ .nil)
  have hgrade : ∀ k : Graph ℝ, k.features.width = FeatureGraph.nodeWidth →
      k.labelRow.length = 2 → m.eval.Grades k := by
    intro k hwidth hlabel
    have hevalConfig : m.eval.config = Config.initial := hconfig
    refine ⟨divergence?_eq (eval_shaped hshaped), ⟨?_, ?_⟩, ?_⟩
    · rw [hevalConfig, hwidth]
      rfl
    · rw [hevalConfig]
      exact fun hpos => absurd hpos (by decide)
    · rw [hevalConfig, hlabel]
      rfl
  have hgrades : ∀ k ∈ [[g], [h, g]].flatten, m.eval.Grades k := by
    intro k hk
    have hcases : k = g ∨ k = h ∨ k = g := by simpa using hk
    rcases hcases with rfl | rfl | rfl
    · exact hgrade g rfl rfl
    · exact hgrade h rfl rfl
    · exact hgrade g rfl rfl
  have hperm : [[g], [h, g]].flatten.Perm [[g, g], [h]].flatten := .cons g (.swap g h [])
  obtain ⟨hiff, hsame⟩ := evaluate_rebatch (σ := ℝ) hshaped hcollated hcollated' hperm
  obtain ⟨r, hr⟩ := (exists_evaluate_iff (σ := ℝ) hshaped hcollated).2 hgrades
  obtain ⟨r', hr'⟩ := hiff.1 ⟨r, hr⟩
  obtain ⟨hgraphs, haccuracy, singles, -, -, hexact⟩ := hsame r r' hr hr'
  exact ⟨m, g, h, _, _, r, r', hconfig, hshaped, rfl, rfl, hcollated, hcollated', hr, hr', hgraphs,
    haccuracy, (hexact .real).1⟩

end Classifier

end PonziScreen
