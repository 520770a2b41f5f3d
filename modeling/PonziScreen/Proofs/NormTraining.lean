import PonziScreen.Proofs.RealRows
import PonziScreen.Proofs.Shape

/-!
# Normalisation in training

In training a normalisation puts every column of a batch through a line: the column is centred,
divided by the root of its variance made a little greater, and then moved to the weight and the bias
of its channel. What a line does to a mean and to a variance (`average_line`, `dispersion_line`)
says what is left of those of the batch. The running estimates have no part in it, and a constant
added to a column is gone when the column is centred.

* `NormChannel.mean_rowOf`, `NormChannel.variance_rowOf` — the statistics of the program
* `BatchNorm.forward_standardised` — the result entry by entry
* `BatchNorm.forward_training` — the columns of the result, and the running estimates afterwards
-/

namespace PonziScreen

open PonziScreen.Matrix

/-! ## Mean and variance -/

/-- The mean of the first values of a function. -/
noncomputable def average (n : Nat) (v : Nat → ℝ) : ℝ := (∑ i ∈ Finset.range n, v i) / n

/-- The variance of the first values of a function, which are the whole population. -/
noncomputable def dispersion (n : Nat) (v : Nat → ℝ) : ℝ :=
  average n fun i => (v i - average n v) ^ 2

section Average

variable {n : Nat} {v w : Nat → ℝ}

theorem average_congr (h : ∀ i < n, v i = w i) : average n v = average n w := by
  rw [average, average, Finset.sum_congr rfl fun i hi => h i (Finset.mem_range.1 hi)]

theorem dispersion_congr (h : ∀ i < n, v i = w i) : dispersion n v = dispersion n w := by
  rw [dispersion, dispersion, average_congr h]
  exact average_congr fun i hi => by rw [h i hi]

theorem average_line (hn : 0 < n) (a b : ℝ) :
    average n (fun i => a * v i + b) = a * average n v + b := by
  have hcount : (n : ℝ) ≠ 0 := Nat.cast_ne_zero.2 hn.ne'
  rw [average, average, Finset.sum_add_distrib, ← Finset.mul_sum, Finset.sum_const,
    Finset.card_range, nsmul_eq_mul]
  field_simp

/-- Distances are stretched by the slope. -/
theorem dispersion_line (hn : 0 < n) (a b : ℝ) :
    dispersion n (fun i => a * v i + b) = a ^ 2 * dispersion n v := by
  have hsquare : ∀ i, (a * v i + b - (a * average n v + b)) ^ 2
      = a ^ 2 * (v i - average n v) ^ 2 + 0 := fun i => by ring
  rw [dispersion, average_line hn]
  simp only [hsquare]
  rw [average_line hn, add_zero, dispersion]

theorem dispersion_nonneg (n : Nat) (v : Nat → ℝ) : 0 ≤ dispersion n v :=
  div_nonneg (Finset.sum_nonneg fun _ _ => sq_nonneg _) (Nat.cast_nonneg n)

end Average

/-! ## Columns -/

namespace Matrix

/-- A matrix with a constant added to one column. -/
def raiseColumn {α : Type} [Add α] (m : Matrix α) (j : Nat) (c : α) : Matrix α :=
  m.mapRows m.width (fun r => r.modify j (· + c)) fun r hr => by rw [List.length_modify, hr]

theorem entry_raiseColumn {m : Matrix ℝ} {i k : Nat} (hi : i < m.height) (hk : k < m.width)
    (j : Nat) (c : ℝ) :
    (m.raiseColumn j c).entry i k = m.entry i k + if j = k then c else 0 := by
  have hrow : (m.raiseColumn j c).row i = (m.row i).modify j (· + c) := by
    have hi' : i < m.rows.length := hi
    simp [row, raiseColumn, mapRows, hi']
  have hk' : k < (m.row i).length := (length_row hi).symm ▸ hk
  rw [entry, hrow, entry, List.getD_eq_getElem _ _ (by rwa [List.length_modify]),
    List.getD_eq_getElem _ _ hk', List.getElem_modify]
  split
  · rfl
  · rw [add_zero]

/-- A column by its entries. -/
theorem columns_eq_map_rowOf (m : Matrix ℝ) :
    m.columns = (List.range m.width).map fun j => rowOf m.height fun i => m.entry i j := by
  refine List.map_congr_left fun j hj => ?_
  have hj : j < m.width := List.mem_range.1 hj
  rw [m.rows_eq_map_rowOf, List.filterMap_map, rowOf, ← List.filterMap_eq_map]
  refine List.filterMap_congr fun i _ => ?_
  simp [rowOf, hj]

end Matrix

/-! ## One channel -/

namespace NormChannel

/-- What is learned of a channel, without the running estimates. -/
def learned {α : Type} (c : NormChannel α) : α × α := (c.weight, c.bias)

variable {n : Nat} {v : Nat → ℝ}

theorem epsilon_real : (epsilon : ℝ) = 1 / 100000 := by
  rw [epsilon, Scalar.ratio_real, Nat.cast_one, Nat.cast_ofNat]

theorem mean_rowOf : mean (rowOf n v) = average n v := by
  rw [mean, Scalar.sum_real, length_rowOf]
  rfl

theorem variance_rowOf : variance (rowOf n v) = dispersion n v := by
  rw [variance, mean_rowOf, map_rowOf, mean_rowOf, dispersion]
  simp only [← pow_two]

/-- A share of nine tenths is kept. -/
theorem blend_real (old new : ℝ) : blend old new = 9 / 10 * old + 1 / 10 * new := by
  simp only [blend, momentum, Scalar.one_real, Scalar.ratio_real]
  norm_num
  ring

/-- The estimates after a column, by its mean and its variance. -/
theorem observe_rowOf {c : NormChannel ℝ} (hn : 2 ≤ n) :
    c.observe (rowOf n v) = { c with
      runningMean := 9 / 10 * c.runningMean + 1 / 10 * average n v
      runningVar := 9 / 10 * c.runningVar + 1 / 10 * (n * dispersion n v / (n - 1)) } := by
  have hsample : dispersion n v * Scalar.ratio n (n - 1) = n * dispersion n v / (n - 1) := by
    rw [Scalar.ratio_real, Nat.cast_pred (by omega)]
    ring
  rw [observe, length_rowOf, mean_rowOf, variance_rowOf, hsample, blend_real, blend_real]

theorem normalise_real (c : NormChannel ℝ) (mean var x : ℝ) :
    c.normalise mean var x = c.weight / √(var + 1 / 100000) * x
      + (c.bias - c.weight / √(var + 1 / 100000) * mean) := by
  have hscale : c.normalise mean var x
      = (x - mean) * (c.weight / √(var + 1 / 100000)) + c.bias := by
    rw [normalise, epsilon_real]
    rfl
  rw [hscale]
  ring

/-- A normalised column has the mean and, nearly, the variance that are learned. -/
theorem statistics_normalise (c : NormChannel ℝ) (hn : 0 < n) :
    average n (fun i => c.normalise (average n v) (dispersion n v) (v i)) = c.bias ∧
      dispersion n (fun i => c.normalise (average n v) (dispersion n v) (v i))
        = c.weight ^ 2 * dispersion n v / (dispersion n v + 1 / 100000) := by
  have hroot : √(dispersion n v + 1 / 100000) ^ 2 = dispersion n v + 1 / 100000 :=
    Real.sq_sqrt (add_nonneg (dispersion_nonneg n v) (by norm_num))
  simp only [normalise_real]
  constructor
  · rw [average_line hn]
    ring
  · rw [dispersion_line hn, div_pow, hroot, div_mul_eq_mul_div]

end NormChannel

/-! ## Normalisations -/

namespace BatchNorm

/-- The entry that a normalisation makes of an entry of a batch. -/
noncomputable def standardised (b : BatchNorm ℝ) (x : Matrix ℝ) (i j : Nat) : ℝ :=
  (b.channels.getD j .initial).normalise (average x.height fun k => x.entry k j)
    (dispersion x.height fun k => x.entry k j) (x.entry i j)

theorem normaliseRow_rowOf {channels : List (NormChannel ℝ)} {w : Nat} (h : channels.length = w)
    (statistics : Nat → ℝ × ℝ) (v : Nat → ℝ) :
    normaliseRow channels ((List.range w).map statistics) (rowOf w v) = rowOf w fun j =>
      (channels.getD j .initial).normalise (statistics j).1 (statistics j).2 (v j) := by
  apply List.ext_getElem
  · simp [normaliseRow, h]
  · intro j h₁ h₂
    have hj : j < channels.length := by simpa [h] using h₂
    simp [normaliseRow, rowOf, hj]

theorem batchStatistics_eq (x : Matrix ℝ) :
    batchStatistics x = (List.range x.width).map fun j =>
      (average x.height fun i => x.entry i j, dispersion x.height fun i => x.entry i j) := by
  rw [batchStatistics, columns_eq_map_rowOf, List.map_map]
  refine List.map_congr_left fun j _ => ?_
  rw [Function.comp_apply, NormChannel.mean_rowOf, NormChannel.variance_rowOf]

variable {b : BatchNorm ℝ} {x : Matrix ℝ}

/-- What a normalisation answers in training, and what is left of it. -/
theorem forward_standardised (hwidth : x.width = b.width) (hheight : 2 ≤ x.height) :
    ∃ y, b.forward x true = (.ok y, b.observe x) ∧ y.width = b.width ∧
      y.rows = (List.range x.height).map fun i => rowOf b.width (b.standardised x i) := by
  refine ⟨b.normalise x hwidth (batchStatistics x)
    (by simp [batchStatistics, Matrix.columns, hwidth, width]), ?_, rfl, ?_⟩
  · unfold forward
    rw [dif_pos hwidth, if_pos rfl, if_neg (by omega)]
  · show x.rows.map (normaliseRow b.channels (batchStatistics x)) = _
    rw [x.rows_eq_map_rowOf, List.map_map, batchStatistics_eq, hwidth]
    exact List.map_congr_left fun i _ => normaliseRow_rowOf rfl _ _

/-- Only weights and biases count, and the entries of a column up to a constant. -/
theorem standardised_congr {b' : BatchNorm ℝ} {x' : Matrix ℝ} {j : Nat} {c : ℝ}
    (hlearned : (b'.channels.getD j .initial).learned = (b.channels.getD j .initial).learned)
    (hheight : x'.height = x.height)
    (hentry : ∀ i < x.height, x'.entry i j = x.entry i j + c) {i : Nat} (hi : i < x.height) :
    b'.standardised x' i j = b.standardised x i j := by
  have hpos : 0 < x.height := by omega
  have hline : ∀ k < x.height, x'.entry k j = 1 * x.entry k j + c := fun k hk => by
    rw [hentry k hk, one_mul]
  have hmean : average x'.height (fun k => x'.entry k j)
      = average x.height (fun k => x.entry k j) + c := by
    rw [hheight, average_congr hline, average_line hpos, one_mul]
  have hvariance : dispersion x'.height (fun k => x'.entry k j)
      = dispersion x.height fun k => x.entry k j := by
    rw [hheight, dispersion_congr hline, dispersion_line hpos, one_pow, one_mul]
  obtain ⟨hweight, hbias⟩ := Prod.mk.inj hlearned
  simp only [standardised, NormChannel.normalise, hweight, hbias, hmean, hvariance, hentry i hi,
    add_sub_add_right_eq_sub]

/-- The answer in training is the same for other running estimates, and if the entries of columns
differ by constants. -/
theorem forward_congr {b' : BatchNorm ℝ} {x' : Matrix ℝ} {c : Nat → ℝ} (hwidth : x.width = b.width)
    (hheight : 2 ≤ x.height)
    (hlearned : b'.channels.map NormChannel.learned = b.channels.map NormChannel.learned)
    (hwidth' : x'.width = x.width) (hheight' : x'.height = x.height)
    (hentry : ∀ i < x.height, ∀ j < x.width, x'.entry i j = x.entry i j + c j) :
    (b'.forward x' true).1 = (b.forward x true).1 := by
  have hlength : b'.width = b.width := by
    simpa [width] using congrArg List.length hlearned
  obtain ⟨y, hy, hyw, hyr⟩ := forward_standardised hwidth hheight
  obtain ⟨y', hy', hyw', hyr'⟩ := forward_standardised (b := b') (x := x')
    (hwidth'.trans (hwidth.trans hlength.symm)) (hheight'.symm ▸ hheight)
  rw [hy, hy']
  refine congrArg Except.ok (eq_of_rows (hyw'.trans (hlength.trans hyw.symm)) ?_)
  rw [hyr, hyr', hheight', hlength]
  refine List.map_congr_left fun i hi => rowOf_congr fun j hj => ?_
  have hchannel : (b'.channels.getD j .initial).learned = (b.channels.getD j .initial).learned := by
    rw [← List.getD_map (f := NormChannel.learned), hlearned, List.getD_map]
  exact standardised_congr hchannel hheight' (fun k hk => hentry k hk j (hwidth ▸ hj))
    (List.mem_range.1 hi)

/-- A channel after it has seen its column. -/
theorem getElem?_observe (hwidth : x.width = b.width) {j : Nat} {c : NormChannel ℝ}
    (hc : b.channels[j]? = some c) :
    (b.observe x).channels[j]? = some (c.observe (rowOf x.height fun i => x.entry i j)) := by
  have hj : j < x.width := by
    rw [hwidth]
    exact (List.getElem?_eq_some_iff.1 hc).1
  simp [observe, List.getElem?_zipWith, hc, columns_eq_map_rowOf, hj]

/-- A normalisation in training, in exact arithmetic. A matrix of the right width with two rows at
least is answered with one of its shape. The mean of each of its columns is the bias of the channel,
and its variance is the squared weight, less what was added to the variance of the batch. The
answer does not depend on the running estimates, and it stays the same when a constant is added to a
column. The estimates move a tenth of the way to the mean of their column and to the variance of a
sample. All other matrices are refused, and then nothing changes. -/
theorem forward_training (b : BatchNorm ℝ) (x : Matrix ℝ) :
    (x.width = b.width → 2 ≤ x.height → ∃ y seen, b.forward x true = (.ok y, seen) ∧
      y.width = x.width ∧ y.height = x.height ∧ seen.width = b.width ∧
      (∀ j c, b.channels[j]? = some c →
        let mean := average x.height fun i => x.entry i j
        let variance := dispersion x.height fun i => x.entry i j
        (average y.height fun i => y.entry i j) = c.bias ∧
        (dispersion y.height fun i => y.entry i j)
          = c.weight ^ 2 * variance / (variance + 1 / 100000) ∧
        seen.channels[j]? = some { c with
          runningMean := 9 / 10 * c.runningMean + 1 / 10 * mean
          runningVar := 9 / 10 * c.runningVar
            + 1 / 10 * (x.height * variance / (x.height - 1)) }) ∧
      (∀ b' : BatchNorm ℝ,
        b'.channels.map NormChannel.learned = b.channels.map NormChannel.learned →
        (b'.forward x true).1 = .ok y) ∧
      ∀ j c, (b.forward (x.raiseColumn j c) true).1 = .ok y) ∧
    (x.width ≠ b.width ∨ x.height < 2 →
      ∃ fault, b.forward x true = (.error (.shapeMismatch fault), b)) := by
  refine ⟨fun hwidth hheight => ?_, fun hbad => ?_⟩
  · obtain ⟨y, hy, hyw, hyr⟩ := forward_standardised hwidth hheight
    have hyh : y.height = x.height := by rw [height_of_rows_eq hyr, List.length_range]
    have hsame : (b.forward x true).1 = .ok y := by rw [hy]
    refine ⟨y, _, hy, hyw.trans hwidth.symm, hyh, ?_, fun j c hc => ?_, fun b' hlearned => ?_,
      fun j c => ?_⟩
    · rw [← width_forward b x true, hy]
    · intro mean variance
      have hj : j < b.width := (List.getElem?_eq_some_iff.1 hc).1
      have hentry : ∀ i < x.height, y.entry i j = c.normalise mean variance (x.entry i j) := by
        intro i hi
        rw [entry, row_of_rows_eq hyr hi, getD_rowOf hj, standardised, List.getD_eq_getElem?_getD,
          hc, Option.getD_some]
      obtain ⟨hmean, hvariance⟩ := c.statistics_normalise (v := fun i => x.entry i j)
        (show 0 < x.height by omega)
      refine ⟨?_, ?_, ?_⟩
      · rw [hyh, average_congr hentry, hmean]
      · rw [hyh, dispersion_congr hentry, hvariance]
      · rw [getElem?_observe hwidth hc, NormChannel.observe_rowOf hheight]
    · rw [← hsame]
      exact forward_congr (c := fun _ => 0) hwidth hheight hlearned rfl rfl
        fun i _ k _ => (add_zero _).symm
    · rw [← hsame]
      exact forward_congr hwidth hheight rfl rfl (List.length_map _)
        fun i hi k hk => entry_raiseColumn hi hk j c
  · unfold forward
    by_cases hwidth : x.width = b.width
    · have hheight : x.height ≤ 1 := by
        have := hbad.resolve_left (not_not.2 hwidth)
        omega
      rw [dif_pos hwidth, if_pos rfl, if_pos hheight]
      exact ⟨_, rfl⟩
    · rw [dif_neg hwidth]
      exact ⟨_, rfl⟩

/-- Two rows, whose mean is 2 and whose variance is 1, or 2 as a sample. A single row is refused. -/
theorem forward_training_pair :
    ∃ (b seen : BatchNorm ℝ) (x y single : Matrix ℝ), b.channels = [⟨2, 5, 1, 4⟩] ∧
      x.rows = [[1], [3]] ∧ single.rows = [[1]] ∧ b.forward x true = (.ok y, seen) ∧
      (average y.height fun i => y.entry i 0) = 5 ∧
      (dispersion y.height fun i => y.entry i 0) = 4 / (1 + 1 / 100000) ∧
      seen.channels[0]? = some ⟨2, 5, 11 / 10, 19 / 5⟩ ∧
      (b.forward (x.raiseColumn 0 7) true).1 = .ok y ∧
      ∃ fault, b.forward single true = (.error (.shapeMismatch fault), b) := by
  let b : BatchNorm ℝ := ⟨[⟨2, 5, 1, 4⟩]⟩
  let x : Matrix ℝ := ⟨1, [[1], [3]], by simp⟩
  let single : Matrix ℝ := ⟨1, [[1]], by simp⟩
  have hmean : (average x.height fun i => x.entry i 0) = 2 := by
    simp only [average, height, entry, row, x, List.length_cons, List.length_nil,
      Finset.sum_range_succ, Finset.sum_range_zero]
    norm_num
  have hvariance : (dispersion x.height fun i => x.entry i 0) = 1 := by
    rw [dispersion, hmean]
    simp only [average, height, entry, row, x, List.length_cons, List.length_nil,
      Finset.sum_range_succ, Finset.sum_range_zero]
    norm_num
  have hcount : (x.height : ℝ) = 2 := by norm_num [height, x]
  obtain ⟨y, seen, hforward, -, -, -, hcolumns, -, hraised⟩ :=
    (forward_training b x).1 rfl (le_refl 2)
  obtain ⟨hbias, hweight, hseen⟩ := hcolumns 0 ⟨2, 5, 1, 4⟩ rfl
  rw [hvariance] at hweight hseen
  rw [hmean, hcount] at hseen
  refine ⟨b, seen, x, y, single, rfl, rfl, rfl, hforward, hbias, hweight.trans (by norm_num),
    hseen.trans (by norm_num), hraised 0 7, (forward_training b single).2 (.inr (by decide))⟩

end BatchNorm

end PonziScreen
