import PonziScreen.Proofs.CrossEntropy
import PonziScreen.Proofs.LayerEquations
import PonziScreen.Proofs.MissingLabels

/-!
# The range of the loss

The loss of a classifier is taken over scores that have been squashed, not over the numbers that
were squashed. The two scores of a graph are therefore less than one apart. If the score of the
right class falls short of the other by `d`, the loss is `ln (1 + exp d)` (`rowCost_pair`), which is
never close to zero, however sure the classifier is, and never above `ln (1 + e)`. A wrong answer
means that `d` is not negative, and costs `ln 2` at least.

* `Classifier.rowAlone_squashed` — two scores between zero and one
* `Classifier.cost_mem_range`, `Classifier.log_two_le_cost` — the loss of a graph
* `Classifier.evaluate_lossRange` — the outcome of an evaluation
-/

namespace PonziScreen

open PonziScreen.Matrix

/-! ## Two scores -/

/-- By how much the score of the right one of two classes falls short of the other score. -/
def shortfall (s₀ s₁ : ℝ) (isPonzi : Bool) : ℝ := if isPonzi then s₀ - s₁ else s₁ - s₀

section Pairs

variable {s₀ s₁ : ℝ} {isPonzi : Bool}

theorem log_add_exp_sub (a b : ℝ) :
    Real.log (Real.exp a + Real.exp b) - b = Real.log (1 + Real.exp (a - b)) := by
  have hsum : Real.exp a + Real.exp b = (1 + Real.exp (a - b)) * Real.exp b := by
    rw [add_mul, one_mul, ← Real.exp_add, sub_add_cancel, add_comm]
  have hpos : 0 < 1 + Real.exp (a - b) := add_pos one_pos (Real.exp_pos _)
  rw [hsum, Real.log_mul hpos.ne' (Real.exp_ne_zero b), Real.log_exp, add_sub_cancel_right]

/-- The cross entropy of two scores with the label of one class. -/
theorem rowCost_pair (s₀ s₁ : ℝ) (isPonzi : Bool) :
    rowCost [s₀, s₁] (if isPonzi then [0, 1] else [1, 0])
      = Real.log (1 + Real.exp (shortfall s₀ s₁ isPonzi)) := by
  cases isPonzi with
  | false =>
    show _ = Real.log (1 + Real.exp (s₁ - s₀))
    rw [← log_add_exp_sub, add_comm (Real.exp s₁)]
    simp [rowCost, logSumExp]
  | true =>
    show _ = Real.log (1 + Real.exp (s₀ - s₁))
    rw [← log_add_exp_sub]
    simp [rowCost, logSumExp]

/-- Scores between zero and one are less than one apart. -/
theorem shortfall_mem (h₀ : s₀ ∈ Set.Ioo 0 1) (h₁ : s₁ ∈ Set.Ioo 0 1) :
    shortfall s₀ s₁ isPonzi ∈ Set.Ioo (-1) 1 := by
  obtain ⟨hlow₀, hhigh₀⟩ := h₀
  obtain ⟨hlow₁, hhigh₁⟩ := h₁
  cases isPonzi with
  | false => exact ⟨by simp only [shortfall]; grind, by simp only [shortfall]; grind⟩
  | true => exact ⟨by simp only [shortfall]; grind, by simp only [shortfall]; grind⟩

theorem log_one_add_exp_mem {d : ℝ} (hd : d ∈ Set.Ioo (-1) 1) :
    Real.log (1 + Real.exp d)
      ∈ Set.Ioo (Real.log (1 + 1 / Real.exp 1)) (Real.log (1 + Real.exp 1)) := by
  obtain ⟨hlow, hhigh⟩ := hd
  have hinverse : 1 / Real.exp 1 = Real.exp (-1) := by rw [Real.exp_neg, one_div]
  have hpos : ∀ v : ℝ, 0 < 1 + Real.exp v := fun v => add_pos one_pos (Real.exp_pos v)
  rw [hinverse]
  exact ⟨Real.log_lt_log (hpos _) (add_lt_add_right (Real.exp_lt_exp.2 hlow) 1),
    Real.log_lt_log (hpos _) (add_lt_add_right (Real.exp_lt_exp.2 hhigh) 1)⟩

/-- The first greatest of two scores; of two equal ones it is the first. -/
theorem argmax_pair (s₀ s₁ : ℝ) : argmax [s₀, s₁] = if s₀ < s₁ then 1 else 0 := by
  by_cases h : s₀ < s₁ <;> simp [argmax, argmaxFrom, Scalar.lt, h]

/-- The score of the right class is not the greater one if the answer is wrong. -/
theorem shortfall_nonneg (h : argmax [s₀, s₁] ≠ isPonzi.toNat) : 0 ≤ shortfall s₀ s₁ isPonzi := by
  rw [argmax_pair] at h
  cases isPonzi with
  | false =>
    have hlt : s₀ < s₁ := by
      by_contra hle
      exact h (if_neg hle)
    exact sub_nonneg.2 hlt.le
  | true =>
    have hle : ¬ s₀ < s₁ := fun hlt => h (if_pos hlt)
    exact sub_nonneg.2 (not_lt.1 hle)

end Pairs

/-- The mean of some numbers of an interval is in the interval. -/
theorem mean_mem_Ioo {xs : List ℝ} {low high : ℝ} (hne : xs ≠ [])
    (h : ∀ x ∈ xs, x ∈ Set.Ioo low high) : xs.sum / xs.length ∈ Set.Ioo low high := by
  have hlength : (0 : ℝ) < xs.length := Nat.cast_pos.2 (List.length_pos_of_ne_nil hne)
  have hlow := List.sum_lt_sum_of_ne_nil hne (fun _ => low) id fun x hx => (h x hx).1
  have hhigh := List.sum_lt_sum_of_ne_nil hne id (fun _ => high) fun x hx => (h x hx).2
  simp only [List.map_const', List.sum_replicate, nsmul_eq_mul, List.map_id] at hlow hhigh
  exact ⟨(lt_div_iff₀' hlength).2 hlow, (div_lt_iff₀' hlength).2 hhigh⟩

/-! ## One graph -/

namespace Classifier

/-- The class that a classifier in evaluation mode gives a graph. -/
def answer {α : Type} [Scalar α] (m : Classifier α) (g : Graph α) : Nat := argmax (m.rowAlone g)

/-- The plain cross entropy of the scores of a graph. -/
noncomputable def cost (m : Classifier ℝ) (g : Graph ℝ) : ℝ := rowCost (m.rowAlone g) g.labelRow

section Graphs

variable {m : Classifier ℝ} {g : Graph ℝ}

/-- A graph has two scores, both of them squashed. -/
theorem rowAlone_squashed (hm : m.Shaped) (hvalid : g.fault? = none) :
    ∃ s₀ ∈ Set.Ioo (0 : ℝ) 1, ∃ s₁ ∈ Set.Ioo (0 : ℝ) 1, m.rowAlone g = [s₀, s₁] := by
  obtain ⟨b, hb⟩ := Batch.ofGraph_eq_ok hvalid
  obtain ⟨pooled, hscore⟩ : ∃ pooled, m.rowAlone g = m.headRow pooled :=
    ⟨_, by rw [rowAlone, hb]; rfl⟩
  obtain ⟨-, -, hchannels, -⟩ := Config.fault?_eq_none.1 hm.valid
  have hlength := Linear.length_row hm.output (m.norm.evalRow ((m.hidden.row pooled).map relu))
  rw [hchannels] at hlength
  obtain ⟨v₀, v₁, hv⟩ := List.length_eq_two.1 hlength
  refine ⟨Real.sigmoid v₀, ⟨Real.sigmoid_pos v₀, Real.sigmoid_lt_one v₀⟩,
    Real.sigmoid v₁, ⟨Real.sigmoid_pos v₁, Real.sigmoid_lt_one v₁⟩, ?_⟩
  rw [hscore, headRow, hv, List.map_cons, List.map_cons, List.map_nil, sigmoid_real, sigmoid_real]

/-- The loss that is computed for a graph is the cost, with its sign turned. -/
theorem lossAlone_eq (hm : m.Shaped) (hvalid : g.fault? = none) : m.lossAlone g = -m.cost g := by
  obtain ⟨s₀, -, s₁, -, hrow⟩ := rowAlone_squashed hm hvalid
  rw [lossAlone, cost, hrow]
  exact rowLoss_real (List.cons_ne_nil s₀ [s₁])

theorem labelRow_withLabel (isPonzi : Bool) (k : Graph ℝ) :
    (k.withLabel isPonzi).labelRow = if isPonzi then [0, 1] else [1, 0] := by
  rw [Graph.labelRow, Graph.withLabel, Option.getD_some, Scalar.zero_real, Scalar.one_real]

/-- The cost of a labelled graph by how much the score of its class falls short of the other. -/
theorem cost_withLabel (hm : m.Shaped) {k : Graph ℝ} {isPonzi : Bool}
    (hvalid : (k.withLabel isPonzi).fault? = none) :
    ∃ s₀ ∈ Set.Ioo (0 : ℝ) 1, ∃ s₁ ∈ Set.Ioo (0 : ℝ) 1,
      m.rowAlone (k.withLabel isPonzi) = [s₀, s₁] ∧
      m.cost (k.withLabel isPonzi) = Real.log (1 + Real.exp (shortfall s₀ s₁ isPonzi)) := by
  obtain ⟨s₀, h₀, s₁, h₁, hrow⟩ := rowAlone_squashed hm hvalid
  refine ⟨s₀, h₀, s₁, h₁, hrow, ?_⟩
  rw [cost, hrow, labelRow_withLabel, rowCost_pair]

/-- No graph costs little, and none costs much. -/
theorem cost_mem_range (hm : m.Shaped) (hvalid : g.fault? = none)
    (hlabel : ∃ k isPonzi, g = Graph.withLabel isPonzi k) :
    m.cost g ∈ Set.Ioo (Real.log (1 + 1 / Real.exp 1)) (Real.log (1 + Real.exp 1)) := by
  obtain ⟨k, isPonzi, rfl⟩ := hlabel
  obtain ⟨s₀, h₀, s₁, h₁, -, hcost⟩ := cost_withLabel hm hvalid
  rw [hcost]
  exact log_one_add_exp_mem (shortfall_mem h₀ h₁)

/-- A wrong answer costs no less than a guess between two equal scores. -/
theorem log_two_le_cost (hm : m.Shaped) {k : Graph ℝ} {isPonzi : Bool}
    (hvalid : (k.withLabel isPonzi).fault? = none)
    (hwrong : m.answer (k.withLabel isPonzi) ≠ isPonzi.toNat) :
    Real.log 2 ≤ m.cost (k.withLabel isPonzi) := by
  obtain ⟨s₀, -, s₁, -, hrow, hcost⟩ := cost_withLabel hm hvalid
  rw [answer, hrow] at hwrong
  have hexp : 1 ≤ Real.exp (shortfall s₀ s₁ isPonzi) := Real.one_le_exp (shortfall_nonneg hwrong)
  rw [hcost]
  exact Real.log_le_log two_pos (by linarith)

/-- The mean loss over graphs is the mean of their costs. -/
theorem meanLoss_ofTally (hm : m.Shaped) {groups : List (List (Graph ℝ))}
    (hvalid : ∀ g ∈ groups.flatten, g.fault? = none) :
    (Evaluation.ofTally (m.tallyOf groups) : Evaluation ℝ).meanLoss
      = (groups.flatten.map m.cost).sum / groups.flatten.length := by
  have hloss := Scalar.Exact.real.total_loss_tallyOf m groups
  have hmean := (Scalar.Exact.real.total_ofTally (m.tallyOf groups)).2
  have hcosts : (groups.flatten.map fun g => Scalar.Exact.real.value (m.lossAlone g)).sum
      = -(groups.flatten.map m.cost).sum := by
    rw [List.sum_neg, List.map_map]
    exact congrArg List.sum (List.map_congr_left fun g hg => lossAlone_eq hm (hvalid g hg))
  rw [hloss, hcosts, neg_neg, (tallyOf_counts m groups).2] at hmean
  exact hmean

end Graphs

/-! ## An evaluation -/

section Batches

variable {α σ : Type} [Scalar α] [Scalar σ] [Widen α σ] {m : Classifier α}
  {groups : List (List (Graph α))} {batches : List (Batch α)}

/-- Batches on which an evaluation succeeds hold labelled graphs, one at least each. -/
theorem collated_of_addBatches (hm : m.Shaped) (he : m.training = false)
    (hb : Batch.Collates groups batches) {t t' : Tally σ}
    (h : (Evaluation.addBatches m t batches).1 = .ok t') : Batch.Collated groups batches := by
  induction hb generalizing t with
  | nil => exact .nil
  | @cons graphs b groups batches hfirst hrest ih =>
    obtain ⟨-, hmissing⟩ | ⟨⟨hne, hlabelled⟩, ⟨failure, -, hfailure⟩ | ⟨t₁, -, hstep⟩⟩ :=
      addBatches_cons_cases hm he hfirst t
    · simp [hmissing] at h
    · simp [hfailure] at h
    · rw [hstep] at h
      exact .cons ⟨hne, hlabelled, hfirst⟩ (ih h)

omit [Scalar σ] [Widen α σ] in
/-- The classes of the graphs of a batch are the answers for each graph. -/
theorem predict_eq (hm : m.Shaped) (he : m.training = false) {graphs : List (Graph α)}
    {b : Batch α} (hne : graphs ≠ []) (hb : Batch.collate graphs = .ok b)
    (hgrades : ∀ g ∈ graphs, m.Grades g) :
    (m.predict b).1 = .ok (graphs.map m.answer) := by
  have hjoins := Batch.collate_joins hne hb
  obtain ⟨g, hg⟩ := List.exists_mem_of_ne_nil graphs hne
  have hreads : m.Reads b :=
    (reads_iff_of_joins hjoins hne).2 ⟨(hgrades g hg).finite, fun k hk => (hgrades k hk).fits⟩
  obtain ⟨-, scores, hscores, -, hrows⟩ :=
    forward_eval_yields hm he hreads (hjoins.graphCount_ne_zero hne)
  rw [map_scoreRow m hjoins] at hrows
  show (m.forward b).1.map argmaxRows = _
  rw [hscores, Except.map, argmaxRows, hrows, List.map_map]
  rfl

omit [Scalar σ] [Widen α σ] in
theorem predict_collated (hm : m.Shaped) (he : m.training = false)
    (hb : Batch.Collated groups batches) (hgrades : ∀ g ∈ groups.flatten, m.Grades g) :
    List.Forall₂ (fun graphs b => (m.predict b).1 = .ok (graphs.map m.answer)) groups batches := by
  induction hb with
  | nil => exact .nil
  | @cons graphs b groups batches hfirst hrest ih =>
    obtain ⟨hne, -, hcollate⟩ := hfirst
    rw [List.flatten_cons] at hgrades
    exact .cons (predict_eq hm he hne hcollate fun g hg => hgrades g (List.mem_append_left _ hg))
      (ih fun g hg => hgrades g (List.mem_append_right _ hg))

/-- What an evaluation that succeeds says about its batches. -/
theorem evaluate_ok (hm : m.Shaped) (hb : Batch.Collates groups batches) {r : Evaluation σ}
    (hr : (m.evaluate batches).1 = .ok r) :
    Batch.Collated groups batches ∧ (∀ g ∈ groups.flatten, m.eval.Grades g) ∧
      r = Evaluation.ofTally (m.eval.tallyOf groups) := by
  obtain ⟨t, ht⟩ := exists_evaluate_iff_addBatches.1 ⟨r, hr⟩
  have hcollated := collated_of_addBatches (eval_shaped hm) rfl hb ht
  have hgrades := (exists_evaluate_iff hm hcollated).1 ⟨r, hr⟩
  exact ⟨hcollated, hgrades,
    Except.ok.inj (hr.symm.trans (evaluate_eq_ok hm hcollated hgrades))⟩

end Batches

section Exact

variable {m : Classifier ℝ} {groups : List (List (Graph ℝ))} {batches : List (Batch ℝ)}

/-- The share of right answers is a share. -/
theorem accuracy_ofTally_mem (m : Classifier ℝ) (groups : List (List (Graph ℝ))) :
    (Evaluation.ofTally (m.tallyOf groups) : Evaluation ℝ).accuracy ∈ Set.Icc 0 1 := by
  have haccuracy := (Scalar.Exact.real.total_ofTally (m.tallyOf groups)).1
  obtain ⟨hcorrect, hgraphs⟩ := tallyOf_counts (σ := ℝ) m groups
  have hle : (groups.flatten.countP m.right : ℝ) ≤ groups.flatten.length :=
    Nat.cast_le.2 List.countP_le_length
  rw [hcorrect, hgraphs] at haccuracy
  rw [show (Evaluation.ofTally (m.tallyOf groups) : Evaluation ℝ).accuracy = _ from haccuracy]
  exact ⟨by positivity, div_le_one_of_le₀ hle (Nat.cast_nonneg _)⟩

/-- The outcome of an evaluation of labelled graphs, in batches of any kind. The accuracy is between
zero and one. The mean loss is the mean of the costs of the graphs, each of which is what an
evaluation of the graph alone gives. All of them are above `ln (1 + 1/e)`, so none is zero, and
below `ln (1 + e)`; and a graph whose predicted class is not that of its label costs `ln 2` at
least. -/
theorem evaluate_lossRange (hm : m.Shaped) (hb : Batch.Collates groups batches)
    (hne : groups.flatten ≠ [])
    (hlabels : ∀ g ∈ groups.flatten, ∃ k isPonzi, g = Graph.withLabel isPonzi k)
    {r : Evaluation ℝ} (hr : (m.evaluate batches).1 = .ok r) :
    r.accuracy ∈ Set.Icc 0 1 ∧
    r.meanLoss ∈ Set.Ioo (Real.log (1 + 1 / Real.exp 1)) (Real.log (1 + Real.exp 1)) ∧
    0 < r.meanLoss ∧
    r.meanLoss = (groups.flatten.map m.eval.cost).sum / groups.flatten.length ∧
    List.Forall₂ (fun graphs b => (m.eval.predict b).1 = .ok (graphs.map m.eval.answer))
      groups batches ∧
    ∀ g ∈ groups.flatten,
      (∃ s : Evaluation ℝ, m.evaluateAlone g = .ok s ∧ s.meanLoss = m.eval.cost g) ∧
      m.eval.cost g ∈ Set.Ioo (Real.log (1 + 1 / Real.exp 1)) (Real.log (1 + Real.exp 1)) ∧
      ∀ k isPonzi, g = Graph.withLabel isPonzi k → m.eval.answer g ≠ isPonzi.toNat →
        Real.log 2 ≤ m.eval.cost g := by
  have hshaped := eval_shaped hm
  obtain ⟨hcollated, hgrades, rfl⟩ := evaluate_ok hm hb hr
  have hvalid : ∀ g ∈ groups.flatten, g.fault? = none :=
    fun g hg => (valid_of_collated hcollated g hg).1
  have hrange : ∀ g ∈ groups.flatten, m.eval.cost g
      ∈ Set.Ioo (Real.log (1 + 1 / Real.exp 1)) (Real.log (1 + Real.exp 1)) :=
    fun g hg => cost_mem_range hshaped (hvalid g hg) (hlabels g hg)
  have hmean := meanLoss_ofTally hshaped hvalid
  have hmeanRange : (Evaluation.ofTally (m.eval.tallyOf groups) : Evaluation ℝ).meanLoss
      ∈ Set.Ioo (Real.log (1 + 1 / Real.exp 1)) (Real.log (1 + Real.exp 1)) := by
    rw [hmean, ← List.length_map (f := m.eval.cost)]
    refine mean_mem_Ioo (mt List.map_eq_nil_iff.1 hne) fun c hc => ?_
    obtain ⟨g, hg, rfl⟩ := List.mem_map.1 hc
    exact hrange g hg
  have hpos : 0 < Real.log (1 + 1 / Real.exp 1) :=
    Real.log_pos (lt_add_of_pos_right 1 (one_div_pos.2 (Real.exp_pos 1)))
  refine ⟨accuracy_ofTally_mem m.eval groups, hmeanRange, hpos.trans hmeanRange.1, hmean,
    predict_collated hshaped rfl hcollated hgrades, fun g hg => ⟨?_, hrange g hg, ?_⟩⟩
  · have hsingle : ∀ k ∈ [[g]].flatten, k.fault? = none := by
      intro k hk
      obtain rfl : k = g := by simpa using hk
      exact hvalid k hg
    refine ⟨_, evaluateAlone_eq_ok hm (hvalid g hg) (valid_of_collated hcollated g hg).2
      (hgrades g hg), ?_⟩
    rw [meanLoss_ofTally hshaped hsingle]
    simp
  · rintro k isPonzi rfl hwrong
    exact log_two_le_cost hshaped (hvalid _ hg) hwrong

/-- A new classifier, and a graph with both labels. The answer is the same for both, so it is wrong
for one of them. -/
theorem evaluate_lossRange_bothLabels :
    ∃ (m : Classifier ℝ) (k : Graph ℝ) (batches : List (Batch ℝ)) (r : Evaluation ℝ),
      m.config = Config.initial ∧ m.Shaped ∧
      Batch.Collates [[k.withLabel true], [k.withLabel false, k.withLabel true]] batches ∧
      (m.evaluate batches).1 = .ok r ∧ r.accuracy ∈ Set.Icc 0 1 ∧
      r.meanLoss ∈ Set.Ioo (Real.log (1 + 1 / Real.exp 1)) (Real.log (1 + Real.exp 1)) ∧
      (Real.log 2 ≤ m.eval.cost (k.withLabel true) ∨
        Real.log 2 ≤ m.eval.cost (k.withLabel false)) := by
  obtain ⟨m, hm⟩ := exists_build 0 Config.fault?_initial_real
  obtain ⟨hshaped, hconfig⟩ := build_shaped hm
  let k : Graph ℝ := ⟨Matrix.zeros 2 FeatureGraph.nodeWidth, [(0, 1)], none, none⟩
  let groups := [[k.withLabel true], [k.withLabel false, k.withLabel true]]
  have hcollated : Batch.Collated groups [_, _] :=
    .cons ⟨by simp, by simp [Graph.withLabel], rfl⟩
      (.cons ⟨by simp, by simp [Graph.withLabel], rfl⟩ .nil)
  have hcollates : Batch.Collates groups [_, _] := hcollated.imp fun _ _ h => h.2.2
  have hgraphs : ∀ g ∈ groups.flatten, ∃ isPonzi, g = k.withLabel isPonzi := by
    intro g hg
    have hcases : g = k.withLabel true ∨ g = k.withLabel false ∨ g = k.withLabel true := by
      simpa [groups] using hg
    rcases hcases with rfl | rfl | rfl <;> exact ⟨_, rfl⟩
  have hlabels : ∀ g ∈ groups.flatten, ∃ k isPonzi, g = Graph.withLabel isPonzi k :=
    fun g hg => ⟨k, hgraphs g hg⟩
  have hgrades : ∀ g ∈ groups.flatten, m.eval.Grades g := by
    intro g hg
    obtain ⟨isPonzi, rfl⟩ := hgraphs g hg
    have hevalConfig : m.eval.config = Config.initial := hconfig
    refine ⟨divergence?_eq (eval_shaped hshaped), ⟨?_, ?_⟩, ?_⟩
    · rw [hevalConfig]
      rfl
    · rw [hevalConfig]
      exact fun hpos => absurd hpos (by decide)
    · rw [hevalConfig]
      cases isPonzi <;> rfl
  obtain ⟨r, hr⟩ := (exists_evaluate_iff (σ := ℝ) hshaped hcollated).2 hgrades
  obtain ⟨haccuracy, hloss, -, -, -, hcosts⟩ :=
    evaluate_lossRange hshaped hcollates (by simp [groups]) hlabels hr
  have hwrong : ∀ isPonzi, m.eval.answer (k.withLabel isPonzi) ≠ isPonzi.toNat →
      Real.log 2 ≤ m.eval.cost (k.withLabel isPonzi) := fun isPonzi =>
    (hcosts _ (by cases isPonzi <;> simp [groups])).2.2 k isPonzi rfl
  have hsame : m.eval.answer (k.withLabel true) = m.eval.answer (k.withLabel false) := rfl
  refine ⟨m, k, _, r, hconfig, hshaped, hcollates, hr, haccuracy, hloss, ?_⟩
  by_cases hanswer : m.eval.answer (k.withLabel true) = 1
  · exact .inr (hwrong false (by rw [← hsame, hanswer]; decide))
  · exact .inl (hwrong true hanswer)

end Exact

end Classifier

end PonziScreen
