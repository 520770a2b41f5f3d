import PonziScreen.Proofs.RealRows
import PonziScreen.Proofs.Rebatching
import PonziScreen.Proofs.Reorder

/-!
# The cross entropy

The loss of a row subtracts the greatest score before exponentials are taken, and adds it again
after the logarithm. In exact arithmetic the two cancel, whatever number is subtracted
(`logSumExp_map_add`), so the loss is the plain cross entropy with the softmax of the scores.

The plain form shows what the loss does not depend on: a constant added to a row cancels in the
difference of the logarithm and the score, and the order of rows and columns in sums. And it is not
negative, since no score is above the logarithm of the sum of all exponentials.

* `rowLoss_real` — the loss of a row, with its sign turned
* `crossEntropy_real` — the loss of a matrix as a mean over the rows
* `crossEntropy_plain` — the loss entry by entry, and what leaves it as it is
-/

namespace PonziScreen

open PonziScreen.Matrix

/-! ## Rows -/

/-- The logarithm of the sum of the exponentials of some scores. -/
noncomputable def logSumExp (scores : List ℝ) : ℝ := Real.log (scores.map Real.exp).sum

/-- The cross entropy of the softmax of some scores with labels. -/
noncomputable def rowCost (scores labels : List ℝ) : ℝ :=
  (List.zipWith (fun s y => y * (logSumExp scores - s)) scores labels).sum

section Rows

variable {scores labels : List ℝ}

theorem sum_exp_pos (hne : scores ≠ []) : 0 < (scores.map Real.exp).sum := by
  obtain ⟨s, rest, rfl⟩ := List.exists_cons_of_ne_nil hne
  have hrest : 0 ≤ (rest.map Real.exp).sum := by
    refine List.sum_nonneg fun e he => ?_
    obtain ⟨v, -, rfl⟩ := List.mem_map.1 he
    exact (Real.exp_pos v).le
  rw [List.map_cons, List.sum_cons]
  exact add_pos_of_pos_of_nonneg (Real.exp_pos s) hrest

/-- A number added to all scores comes out of the logarithm again. -/
theorem logSumExp_map_add (hne : scores ≠ []) (c : ℝ) :
    logSumExp (scores.map (· + c)) = logSumExp scores + c := by
  have hsum : ((scores.map (· + c)).map Real.exp).sum
      = (scores.map Real.exp).sum * Real.exp c := by
    rw [List.map_map, ← List.sum_map_mul_right]
    simp only [Function.comp_def, Real.exp_add]
  rw [logSumExp, logSumExp, hsum, Real.log_mul (sum_exp_pos hne).ne' (Real.exp_ne_zero c),
    Real.log_exp]

/-- The greatest score is subtracted in vain. -/
theorem rowLoss_real (hne : scores ≠ []) : rowLoss scores labels = -rowCost scores labels := by
  let top : ℝ := Scalar.maximum scores
  have hprogram : rowLoss scores labels = (List.zipWith (fun s y =>
      y * (s - (Real.log (scores.map fun v => Real.exp (v - top)).sum + top)))
      scores labels).sum := by
    unfold rowLoss
    simp only [Scalar.sum_real]
    rfl
  have hlog : Real.log (scores.map fun v => Real.exp (v - top)).sum + top = logSumExp scores := by
    have hshift := logSumExp_map_add hne (-top)
    rw [logSumExp, List.map_map, ← sub_eq_add_neg, eq_sub_iff_add_eq] at hshift
    simpa only [Function.comp_def, ← sub_eq_add_neg] using hshift
  rw [hprogram, hlog, rowCost, List.sum_neg, List.map_zipWith]
  simp only [← mul_neg, neg_sub]

/-- A number added to all scores of a row makes no difference. -/
theorem rowCost_map_add (c : ℝ) : rowCost (scores.map (· + c)) labels = rowCost scores labels := by
  by_cases hne : scores = []
  · rw [hne]
    rfl
  · rw [rowCost, logSumExp_map_add hne, List.zipWith_map_left, rowCost]
    simp only [add_sub_add_right_eq_sub]

end Rows

/-! ## Other orders -/

section Orders

variable {α β γ : Type} {n : Nat} (p : Equiv.Perm (Fin n))

/-- Lists of one length may be combined before or after their items are put into another order. -/
theorem zipWith_reorder (f : α → β → γ) {xs : List α} {ys : List β} (h : xs.length = ys.length) :
    List.zipWith f (reorder p xs) (reorder p ys) = reorder p (List.zipWith f xs ys) := by
  rw [← List.map_uncurry_zip_eq_zipWith, ← reorder_zip p h, ← reorder_map,
    List.map_uncurry_zip_eq_zipWith]

/-- The order of scores and labels makes no difference. -/
theorem rowCost_reorder {scores labels : List ℝ} (h : scores.length = labels.length) :
    rowCost (reorder p scores) (reorder p labels) = rowCost scores labels := by
  have hlog : logSumExp (reorder p scores) = logSumExp scores := by
    rw [logSumExp, logSumExp, ((reorder_perm p scores).map Real.exp).sum_eq]
  rw [rowCost, hlog, zipWith_reorder p _ h, (reorder_perm p _).sum_eq, rowCost]

namespace Matrix

/-- A matrix of width `n` with its columns in another order. Matrices of other widths stay as they
are. -/
def reorderColumns (m : Matrix α) : Matrix α :=
  m.mapRows m.width (reorder p) fun r hr => (length_reorder p r).trans hr

/-- A matrix with a constant added to one row. -/
def raiseRow [Add α] (m : Matrix α) (i : Nat) (c : α) : Matrix α where
  width := m.width
  rows := m.rows.modify i (List.map (· + c))
  uniform := by
    intro r hr
    obtain ⟨k, hk, rfl⟩ := List.mem_iff_getElem.1 hr
    rw [List.length_modify] at hk
    rw [List.getElem_modify]
    split
    · rw [List.length_map]
      exact m.uniform _ (List.getElem_mem hk)
    · exact m.uniform _ (List.getElem_mem hk)

end Matrix

end Orders

/-! ## Matrices -/

/-- The mean of the cross entropies of the rows of two matrices. -/
noncomputable def meanCost (input target : Matrix ℝ) : ℝ :=
  (List.zipWith rowCost input.rows target.rows).sum / input.height

section Matrices

variable {input target : Matrix ℝ}

/-- The loss of matrices of one shape, with a row and a column at least. -/
theorem crossEntropy_real (hheight : input.height = target.height)
    (hwidth : input.width = target.width) (hrows : 0 < input.height) (hcolumns : 0 < input.width) :
    crossEntropy input target = .ok (meanCost input target) := by
  have hsub : ∀ losses : List ℝ, losses.foldl (· - ·) 0 = -losses.sum := fun losses => by
    simpa [Scalar.Exact.real] using Scalar.Exact.real.value_foldl_sub losses 0
  have hlosses : List.zipWith rowLoss input.rows target.rows
      = (List.zipWith rowCost input.rows target.rows).map (- ·) := by
    rw [List.map_zipWith, ← List.map_uncurry_zip_eq_zipWith, ← List.map_uncurry_zip_eq_zipWith]
    refine List.map_congr_left fun q hq => rowLoss_real fun hnil => ?_
    have hlength := input.uniform q.1 (List.of_mem_zip hq).1
    rw [hnil] at hlength
    exact hcolumns.ne hlength
  have hshape : ¬ (input.height ≠ target.height ∨ input.width ≠ target.width) := by
    simp [hheight, hwidth]
  unfold crossEntropy
  rw [if_neg hshape, if_neg hrows.ne']
  dsimp only
  rw [Scalar.zero_real, hsub, hlosses, ← List.sum_neg, neg_neg]
  rfl

/-- The mean of the costs, entry by entry. -/
theorem meanCost_eq (hheight : input.height = target.height)
    (hwidth : input.width = target.width) :
    meanCost input target = (∑ i ∈ Finset.range input.height, ∑ k ∈ Finset.range input.width,
      target.entry i k * (Real.log (∑ j ∈ Finset.range input.width, Real.exp (input.entry i j))
        - input.entry i k)) / input.height := by
  have hrow : ∀ i, rowCost (rowOf input.width (input.entry i)) (rowOf input.width (target.entry i))
      = ∑ k ∈ Finset.range input.width, target.entry i k
        * (Real.log (∑ j ∈ Finset.range input.width, Real.exp (input.entry i j))
          - input.entry i k) := by
    intro i
    rw [rowCost, logSumExp, map_rowOf, zipWith_rowOf, sum_rowOf, sum_rowOf]
  have htarget : target.rows = (List.range input.height).map fun i =>
      rowOf input.width (target.entry i) := by
    rw [hheight, hwidth]
    exact target.rows_eq_map_rowOf
  rw [meanCost, htarget, input.rows_eq_map_rowOf, List.zipWith_map, List.zipWith_self]
  simp only [hrow]
  rfl

/-- No score is above the logarithm of the sum of the exponentials. -/
theorem le_log_sum_exp (s : Nat → ℝ) {n k : Nat} (hk : k < n) :
    s k ≤ Real.log (∑ j ∈ Finset.range n, Real.exp (s j)) := by
  have hle : Real.exp (s k) ≤ ∑ j ∈ Finset.range n, Real.exp (s j) :=
    Finset.single_le_sum (f := fun j => Real.exp (s j)) (fun j _ => (Real.exp_pos _).le)
      (Finset.mem_range.2 hk)
  exact (Real.le_log_iff_exp_le ((Real.exp_pos _).trans_le hle)).2 hle

theorem meanCost_raiseRow (i : Nat) (c : ℝ) :
    meanCost (input.raiseRow i c) target = meanCost input target := by
  have hheight : (input.raiseRow i c).height = input.height := List.length_modify ..
  rw [meanCost, hheight, meanCost]
  congr 2
  apply List.ext_getElem
  · simp [raiseRow]
  · intro k h₁ h₂
    simp only [raiseRow, List.getElem_zipWith, List.getElem_modify]
    split
    · exact rowCost_map_add c
    · rfl

theorem meanCost_reorderRows (hheight : input.height = target.height) {n : Nat}
    (p : Equiv.Perm (Fin n)) :
    meanCost (input.reorderRows p) (target.reorderRows p) = meanCost input target := by
  rw [meanCost, height_reorderRows]
  show (List.zipWith rowCost (reorder p input.rows) (reorder p target.rows)).sum / _ = _
  rw [zipWith_reorder p _ hheight, (reorder_perm p _).sum_eq, meanCost]

theorem meanCost_reorderColumns (hwidth : input.width = target.width) {n : Nat}
    (p : Equiv.Perm (Fin n)) :
    meanCost (input.reorderColumns p) (target.reorderColumns p) = meanCost input target := by
  have hheight : (input.reorderColumns p).height = input.height := List.length_map _
  rw [meanCost, hheight, meanCost]
  show (List.zipWith rowCost (input.rows.map (reorder p)) (target.rows.map (reorder p))).sum / _ = _
  congr 2
  rw [List.zipWith_map, ← List.map_uncurry_zip_eq_zipWith, ← List.map_uncurry_zip_eq_zipWith]
  refine List.map_congr_left fun q hq => rowCost_reorder p ?_
  obtain ⟨hscores, hlabels⟩ := List.of_mem_zip hq
  rw [input.uniform _ hscores, target.uniform _ hlabels, hwidth]

/-- Without negative labels no cost is negative. -/
theorem meanCost_nonneg (hheight : input.height = target.height)
    (hwidth : input.width = target.width)
    (h : ∀ i < input.height, ∀ k < input.width, 0 ≤ target.entry i k) :
    0 ≤ meanCost input target := by
  rw [meanCost_eq hheight hwidth]
  refine div_nonneg (Finset.sum_nonneg fun i hi => Finset.sum_nonneg fun k hk => ?_)
    (Nat.cast_nonneg _)
  have hlabel := h i (Finset.mem_range.1 hi) k (Finset.mem_range.1 hk)
  exact mul_nonneg hlabel (sub_nonneg.2 (le_log_sum_exp (input.entry i) (Finset.mem_range.1 hk)))

end Matrices

/-- The cross entropy of two matrices in exact arithmetic. It is an error if they have different
shapes. Otherwise, with a row and a column at least, it is the mean over the rows of the plain
cross entropies; it stays the same when a constant is added to a row of the scores, or when the
rows or the columns of both matrices are put into another order; and it is not negative if no label
is. -/
theorem crossEntropy_plain (input target : Matrix ℝ) :
    (input.height ≠ target.height ∨ input.width ≠ target.width →
      crossEntropy input target = .error (.shapeMismatch
        (.lossShapes input.height input.width target.height target.width))) ∧
    (input.height = target.height → input.width = target.width → 0 < input.height →
      0 < input.width → ∃ loss, crossEntropy input target = .ok loss ∧
        loss = (∑ i ∈ Finset.range input.height, ∑ k ∈ Finset.range input.width,
          target.entry i k * (Real.log (∑ j ∈ Finset.range input.width, Real.exp (input.entry i j))
            - input.entry i k)) / input.height ∧
        (∀ i c, crossEntropy (input.raiseRow i c) target = .ok loss) ∧
        ((∀ i < input.height, ∀ k < input.width, 0 ≤ target.entry i k) → 0 ≤ loss) ∧
        (∀ p : Equiv.Perm (Fin input.height),
          crossEntropy (input.reorderRows p) (target.reorderRows p) = .ok loss) ∧
        ∀ p : Equiv.Perm (Fin input.width),
          crossEntropy (input.reorderColumns p) (target.reorderColumns p) = .ok loss) := by
  refine ⟨fun hshape => if_pos hshape, fun hheight hwidth hrows hcolumns =>
    ⟨meanCost input target, crossEntropy_real hheight hwidth hrows hcolumns,
      meanCost_eq hheight hwidth, fun i c => ?_, meanCost_nonneg hheight hwidth, fun p => ?_,
      fun p => ?_⟩⟩
  · have hraised : (input.raiseRow i c).height = input.height := List.length_modify ..
    rw [← meanCost_raiseRow i c]
    exact crossEntropy_real (hraised.trans hheight) hwidth (hrows.trans_eq hraised.symm) hcolumns
  · have hinput := height_reorderRows p input
    rw [← meanCost_reorderRows hheight p]
    exact crossEntropy_real (hinput.trans (hheight.trans (height_reorderRows p target).symm)) hwidth
      (hrows.trans_eq hinput.symm) hcolumns
  · have hinput : (input.reorderColumns p).height = input.height := List.length_map _
    have htarget : (target.reorderColumns p).height = target.height := List.length_map _
    rw [← meanCost_reorderColumns hwidth p]
    exact crossEntropy_real (hinput.trans (hheight.trans htarget.symm)) hwidth
      (hrows.trans_eq hinput.symm) hcolumns

/-- Two rows whose scores are even, high ones in the first: each costs the logarithm of two. It
makes no difference to raise the second row, or to swap the columns. -/
theorem crossEntropy_plain_even :
    ∃ input target : Matrix ℝ, input.rows = [[5, 5], [0, 0]] ∧ target.rows = [[1, 0], [0, 1]] ∧
      crossEntropy input target = .ok (Real.log 2) ∧
      crossEntropy (input.raiseRow 1 3) target = .ok (Real.log 2) ∧
      crossEntropy (input.reorderColumns (Equiv.swap (0 : Fin 2) 1))
        (target.reorderColumns (Equiv.swap (0 : Fin 2) 1)) = .ok (Real.log 2) ∧
      crossEntropy input (Matrix.fill 2 1 1) = .error (.shapeMismatch (.lossShapes 2 2 2 1)) := by
  let input : Matrix ℝ := ⟨2, [[5, 5], [0, 0]], by simp⟩
  let target : Matrix ℝ := ⟨2, [[1, 0], [0, 1]], by simp⟩
  have hhigh : Real.log (Real.exp 5 + Real.exp 5) = Real.log 2 + 5 := by
    rw [← two_mul, Real.log_mul two_ne_zero (Real.exp_ne_zero 5), Real.log_exp]
  have hlow : Real.log (1 + 1) = Real.log 2 := by norm_num
  obtain ⟨-, hplain⟩ := crossEntropy_plain input target
  obtain ⟨loss, hloss, hequation, hraise, -, -, hcolumns⟩ :=
    hplain rfl rfl (by decide) (by decide)
  have htwo : loss = Real.log 2 := by
    rw [hequation]
    simp [Finset.sum_range_succ, Matrix.entry, row, height, input, target, hhigh, hlow]
  subst htwo
  obtain ⟨hrefused, -⟩ := crossEntropy_plain input (Matrix.fill 2 1 1)
  exact ⟨input, target, rfl, rfl, hloss, hraise 1 3, hcolumns (Equiv.swap (0 : Fin 2) 1),
    hrefused (.inr (by decide))⟩

end PonziScreen
