import PonziScreen.Proofs.RealScalar

/-!
# Real arithmetic that notices undefined operations

Among the real numbers as scalars every operation has a value: a quotient by zero is zero, and so is
the root of a negative number. Here are the real numbers together with a value that is none. It is
the result of an operation that is not defined, and of any operation on it. So a computation without
comparisons that ends with real numbers has not come across an undefined operation, and it has done
what the same computation does over the reals (`CheckedReal.value`).

* `BatchNorm.forward_checked` — with positive running variances, a normalisation in either mode
  never divides by zero and never takes the root of a negative number
-/

namespace PonziScreen

/-- A real number, or what an undefined operation gives. -/
inductive CheckedReal where
  | undefined
  | value (x : ℝ)

namespace CheckedReal

/-- A function of one number. -/
def lift (f : ℝ → ℝ) : CheckedReal → CheckedReal
  | undefined => undefined
  | value x => value (f x)

/-- A function of two numbers. -/
def lift₂ (f : ℝ → ℝ → ℝ) : CheckedReal → CheckedReal → CheckedReal
  | value x, value y => value (f x y)
  | _, _ => undefined

open Classical in
/-- A function of one number that is defined on part of the numbers. -/
noncomputable def liftOn (domain : ℝ → Prop) (f : ℝ → ℝ) : CheckedReal → CheckedReal
  | undefined => undefined
  | value x => if domain x then value (f x) else undefined

open Classical in
/-- A quotient. -/
noncomputable def div : CheckedReal → CheckedReal → CheckedReal
  | value x, value y => if y = 0 then undefined else value (x / y)
  | _, _ => undefined

/-- Compares two numbers. -/
def compare (f : ℝ → ℝ → Bool) : CheckedReal → CheckedReal → Bool
  | value x, value y => f x y
  | _, _ => false

/-- Whether an operation was defined. -/
def isValue : CheckedReal → Bool
  | undefined => false
  | value _ => true

end CheckedReal

open CheckedReal in
/-- The real numbers, with undefined operations. Quotients by zero, roots of negative numbers,
logarithms of numbers that are not positive, and the maximum of no numbers are not defined. -/
noncomputable instance : Scalar CheckedReal where
  add := lift₂ (· + ·)
  sub := lift₂ (· - ·)
  mul := lift₂ (· * ·)
  div := div
  neg := lift (- ·)
  ofNat n := value n
  mulAdd x y z := lift₂ (· + ·) (lift₂ (· * ·) x y) z
  exp := lift Real.exp
  ln := liftOn (0 < ·) Real.log
  ln1p := liftOn (-1 < ·) fun x => Real.log (1 + x)
  tanh := lift Real.tanh
  sqrt := liftOn (0 ≤ ·) Real.sqrt
  lt := compare Scalar.lt
  le := compare Scalar.le
  isNumber := isValue
  isFinite := isValue
  lowest := undefined
  toByte
    | undefined => 0
    | value x => Scalar.toByte x
  text
    | undefined => "undefined"
    | value x => Scalar.text x

namespace CheckedReal

theorem value_div {x y : ℝ} (hy : y ≠ 0) : value x / value y = value (x / y) := if_neg hy

theorem sqrt_value {x : ℝ} (hx : 0 ≤ x) : Scalar.sqrt (value x) = value (Scalar.sqrt x) :=
  if_pos hx

@[simp]
theorem ofNat_eq (n : Nat) : (Scalar.ofNat n : CheckedReal) = value (Scalar.ofNat n) := rfl

theorem ratio_eq {num den : Nat} (hden : den ≠ 0) :
    (Scalar.ratio num den : CheckedReal) = value (Scalar.ratio num den) :=
  value_div (Nat.cast_ne_zero.2 hden)

theorem sum_map_value (xs : List ℝ) : Scalar.sum (xs.map value) = value (Scalar.sum xs) := by
  have hfold : ∀ (xs : List ℝ) (acc : ℝ),
      (xs.map value).foldl (· + ·) (value acc) = value (xs.foldl (· + ·) acc) := by
    intro xs
    induction xs with
    | nil => exact fun _ => rfl
    | cons x rest ih => exact fun acc => ih (acc + x)
  exact hfold xs Scalar.zero

end CheckedReal

open CheckedReal

/-! ## Channels -/

namespace NormChannel

/-- A channel with its numbers as checked ones. -/
def checked (c : NormChannel ℝ) : NormChannel CheckedReal :=
  ⟨value c.weight, value c.bias, value c.runningMean, value c.runningVar⟩

theorem epsilon_checked : (epsilon : CheckedReal) = value epsilon := ratio_eq (by decide)

theorem epsilon_pos : 0 < (epsilon : ℝ) := by
  rw [epsilon, Scalar.ratio_real]
  norm_num

/-- A variance, made greater by `epsilon`, has a root to divide by. -/
theorem normalise_checked (c : NormChannel ℝ) (mean : ℝ) {var : ℝ} (hvar : 0 ≤ var) (x : ℝ) :
    c.checked.normalise (value mean) (value var) (value x) = value (c.normalise mean var x) := by
  have hpos : 0 < var + epsilon := add_pos_of_nonneg_of_pos hvar epsilon_pos
  have hroot : Scalar.sqrt (var + epsilon) ≠ 0 := (Real.sqrt_pos.2 hpos).ne'
  rw [normalise, epsilon_checked]
  show (value x - value mean) * (value c.weight / Scalar.sqrt (value (var + epsilon)))
    + value c.bias = _
  rw [sqrt_value hpos.le, value_div hroot]
  rfl

theorem blend_checked (old new : ℝ) : blend (value old) (value new) = value (blend old new) := by
  have hmomentum : (momentum : CheckedReal) = value momentum := ratio_eq (by decide)
  rw [blend, hmomentum]
  rfl

theorem mean_checked {column : List ℝ} (h : column ≠ []) :
    mean (column.map value) = value (mean column) := by
  have hlength : (Scalar.ofNat column.length : ℝ) ≠ 0 :=
    Nat.cast_ne_zero.2 (List.length_eq_zero_iff.not.2 h)
  rw [mean, sum_map_value, List.length_map, ofNat_eq, value_div hlength, mean]

theorem variance_checked {column : List ℝ} (h : column ≠ []) :
    variance (column.map value) = value (variance column) := by
  have hsquares : (column.map value).map (fun x =>
      (x - mean (column.map value)) * (x - mean (column.map value))) =
      (column.map fun x => (x - mean column) * (x - mean column)).map value := by
    rw [mean_checked h, List.map_map, List.map_map]
    rfl
  rw [variance, hsquares, mean_checked (by simpa using h), variance]

/-- A mean of squares. -/
theorem variance_nonneg (column : List ℝ) : 0 ≤ variance column := by
  rw [variance, mean, Scalar.sum_real]
  refine div_nonneg (List.sum_nonneg ?_) (Nat.cast_nonneg _)
  intro v hv
  obtain ⟨x, -, rfl⟩ := List.mem_map.1 hv
  exact mul_self_nonneg _

/-- Where there are two rows, the variance of a sample is defined. -/
theorem observe_checked (c : NormChannel ℝ) {column : List ℝ} (h : 2 ≤ column.length) :
    c.checked.observe (column.map value) = (c.observe column).checked := by
  have hne : column ≠ [] := List.length_pos_iff.1 (by omega)
  have hsample : variance (column.map value)
      * Scalar.ratio (column.map value).length ((column.map value).length - 1)
      = value (variance column * Scalar.ratio column.length (column.length - 1)) := by
    rw [variance_checked hne, List.length_map, ratio_eq (show column.length - 1 ≠ 0 by omega)]
    rfl
  rw [observe, mean_checked hne, hsample]
  simp only [checked, observe, blend_checked]

/-- An estimate of nonnegative values that started above zero stays there: the old one keeps its
share. -/
theorem blend_pos {old new : ℝ} (hold : 0 < old) (hnew : 0 ≤ new) : 0 < blend old new := by
  simp only [blend, momentum, Scalar.one_real, Scalar.ratio_real]
  have hkept : 0 < old * (1 - ((1 : ℕ) : ℝ) / (10 : ℕ)) := mul_pos hold (by norm_num)
  have hadded : 0 ≤ new * (((1 : ℕ) : ℝ) / (10 : ℕ)) := mul_nonneg hnew (by norm_num)
  exact add_pos_of_pos_of_nonneg hkept hadded

theorem runningVar_observe_pos {c : NormChannel ℝ} (h : 0 < c.runningVar) (column : List ℝ) :
    0 < (c.observe column).runningVar :=
  blend_pos h (mul_nonneg (variance_nonneg column) (by rw [Scalar.ratio_real]; positivity))

end NormChannel

/-! ## Normalisations -/

namespace BatchNorm

/-- A normalisation with its numbers as checked ones. -/
def checked (b : BatchNorm ℝ) : BatchNorm CheckedReal := ⟨b.channels.map NormChannel.checked⟩

/-- Every running variance is above zero. -/
def Positive (b : BatchNorm ℝ) : Prop := ∀ c ∈ b.channels, 0 < c.runningVar

theorem width_checked (b : BatchNorm ℝ) : b.checked.width = b.width := List.length_map _

theorem columns_map_value (x : Matrix ℝ) :
    (x.map value).columns = x.columns.map (List.map value) := by
  simp only [Matrix.columns, Matrix.map, Matrix.mapRows, List.map_map, List.filterMap_map]
  refine List.map_congr_left fun j _ => ?_
  simp [List.map_filterMap]

theorem normaliseRow_checked {channels : List (NormChannel ℝ)} {statistics : List (ℝ × ℝ)}
    (h : ∀ s ∈ statistics, 0 ≤ s.2) (row : List ℝ) :
    normaliseRow (channels.map NormChannel.checked)
        (statistics.map (Prod.map value value)) (row.map value) =
      (normaliseRow channels statistics row).map value := by
  apply List.ext_getElem
  · simp [normaliseRow]
  · intro i h₁ h₂
    have hi : i < statistics.length := by
      simp only [normaliseRow, List.length_zipWith, List.length_zip, List.length_map] at h₂
      omega
    have hvar : 0 ≤ statistics[i].2 := h _ (List.getElem_mem hi)
    simp [normaliseRow, NormChannel.normalise_checked _ _ hvar]

/-- Statistics without negative variances are as good as any to normalise with. -/
theorem normalise_checked {b : BatchNorm ℝ} {x : Matrix ℝ} (hx : x.width = b.width)
    {statistics : List (ℝ × ℝ)} (hs : statistics.length = b.channels.length)
    (h : ∀ s ∈ statistics, 0 ≤ s.2) {hx' : (x.map value).width = b.checked.width}
    {hs' : (statistics.map (Prod.map value value)).length = b.checked.channels.length} :
    b.checked.normalise (x.map value) hx' (statistics.map (Prod.map value value)) hs' =
      (b.normalise x hx statistics hs).map value := by
  refine Matrix.eq_of_rows b.width_checked ?_
  simp only [normalise, Matrix.mapRows, Matrix.map, List.map_map]
  exact List.map_congr_left fun row _ => normaliseRow_checked h row

theorem runningStatistics_checked (b : BatchNorm ℝ) :
    b.checked.runningStatistics = b.runningStatistics.map (Prod.map value value) := by
  simp [runningStatistics, checked, NormChannel.checked]

theorem batchStatistics_checked {x : Matrix ℝ} (h : 1 ≤ x.height) :
    batchStatistics (x.map value) = (batchStatistics x).map (Prod.map value value) := by
  simp only [batchStatistics, columns_map_value, List.map_map]
  refine List.map_congr_left fun column hcolumn => ?_
  have hlength : column.length = x.height := Matrix.length_of_mem_columns hcolumn
  have hne : column ≠ [] := List.length_pos_iff.1 (by omega)
  simp [NormChannel.mean_checked hne, NormChannel.variance_checked hne]

theorem observe_checked (b : BatchNorm ℝ) {x : Matrix ℝ} (h : 2 ≤ x.height) :
    b.checked.observe (x.map value) = (b.observe x).checked := by
  simp only [observe, checked, columns_map_value, List.zipWith_map, List.map_zipWith]
  congr 1
  apply List.ext_getElem
  · simp
  · intro i h₁ h₂
    have hi : i < x.columns.length := by
      rw [List.length_zipWith] at h₁
      omega
    have hlength : x.columns[i].length = x.height :=
      Matrix.length_of_mem_columns (List.getElem_mem hi)
    simp [NormChannel.observe_checked _ (hlength ▸ h)]

/-- With positive running variances nothing undefined happens in either mode: the computation with
checked numbers gives what the one with real numbers gives, and leaves the same normalisation. -/
theorem forward_checked {b : BatchNorm ℝ} (h : b.Positive) (x : Matrix ℝ) (training : Bool) :
    b.checked.forward (x.map value) training =
      ((b.forward x training).1.map (Matrix.map value), (b.forward x training).2.checked) := by
  unfold forward
  have hwidth : (x.map value).width = b.checked.width ↔ x.width = b.width := by
    rw [width_checked]
    rfl
  have hheight : (x.map value).height = x.height := List.length_map _
  by_cases hx : x.width = b.width
  · rw [dif_pos (hwidth.2 hx), dif_pos hx]
    cases training with
    | false =>
      have hvar : ∀ s ∈ b.runningStatistics, 0 ≤ s.2 := by
        intro s hs
        obtain ⟨c, hc, rfl⟩ := List.mem_map.1 hs
        exact (h c hc).le
      simp only [Bool.false_eq_true, if_false, runningStatistics_checked]
      rw [normalise_checked hx _ hvar]
      rfl
    | true =>
      by_cases hh : x.height ≤ 1
      · rw [if_pos rfl, if_pos rfl, if_pos (hheight ▸ hh), if_pos hh, hheight]
        rfl
      · have hvar : ∀ s ∈ batchStatistics x, 0 ≤ s.2 := by
          intro s hs
          obtain ⟨column, -, rfl⟩ := List.mem_map.1 hs
          exact NormChannel.variance_nonneg column
        rw [if_pos rfl, if_pos rfl, if_neg (hheight ▸ hh), if_neg hh]
        simp only [batchStatistics_checked (show 1 ≤ x.height by omega),
          observe_checked b (show 2 ≤ x.height by omega)]
        rw [normalise_checked hx _ hvar]
        rfl
  · rw [dif_neg (hwidth.not.2 hx), dif_neg hx, width_checked]
    rfl

/-! ### Positive running variances -/

theorem positive_initial (width : Nat) : (initial width : BatchNorm ℝ).Positive := by
  intro c hc
  obtain rfl := List.eq_of_mem_replicate hc
  rw [NormChannel.initial, Scalar.one_real]
  exact one_pos

theorem Positive.observe {b : BatchNorm ℝ} (h : b.Positive) (x : Matrix ℝ) :
    (b.observe x).Positive := by
  intro c hc
  obtain ⟨i, hi, rfl⟩ := List.mem_iff_getElem.1 hc
  simp only [BatchNorm.observe, List.getElem_zipWith]
  exact NormChannel.runningVar_observe_pos (h _ (List.getElem_mem _)) _

/-- Overwriting parameters does not reach the running estimates. -/
theorem Positive.mapParameters {b : BatchNorm ℝ} (h : b.Positive) (path : String)
    (f : String → Nat → ℝ → ℝ) : (b.mapParameters path f).Positive := by
  intro c hc
  obtain ⟨j, hj, rfl⟩ := List.mem_mapIdx.1 hc
  exact h b.channels[j] (List.getElem_mem hj)

end BatchNorm

end PonziScreen
