import Mathlib.Algebra.BigOperators.Fin
import Mathlib.Algebra.Order.BigOperators.Group.List
import Mathlib.Algebra.BigOperators.Ring.List
import PonziScreen.Proofs.RealScalar

/-!
# Exact fields as scalars

`ExactScalar` is a field in which nothing is rounded. Only its arithmetic is fixed: the exponential
function, the square root, the comparisons and the rest may be any functions. The real numbers are
such a field (`RealScalar`), but nothing here needs them.

Then the sums of the program are sums, row by row and entry by entry, and the maximum of some
numbers is one of them.

* `Scalar.maximum_mem` — a maximum is attained
* `Matrix.getD_sumRows`, `Linear.getD_row` — an entry of a sum of rows, and of a linear map
* `sum_map_mul_le`, `le_sum_map_mul` — a weighted mean lies among its values
-/

-- declared outside the namespace, in which `Field` is a field of a record
/-- A field without rounding as scalars. -/
class ExactScalar (K : Type) extends PonziScreen.Scalar K, Field K where
  ofNat_eq (n : Nat) : PonziScreen.Scalar.ofNat n = (n : K)
  mulAdd_eq (x y z : K) : PonziScreen.Scalar.mulAdd x y z = x * y + z
  isNumber_eq (x : K) : PonziScreen.Scalar.isNumber x = true

namespace PonziScreen

theorem Scalar.ofNat_real (n : Nat) : (Scalar.ofNat n : ℝ) = n := rfl

theorem Scalar.mulAdd_real (x y z : ℝ) : Scalar.mulAdd x y z = x * y + z := rfl

theorem Scalar.isNumber_real (x : ℝ) : Scalar.isNumber x = true := rfl

/-- The real numbers. -/
noncomputable abbrev exactReal : ExactScalar ℝ where
  ofNat_eq := Scalar.ofNat_real
  mulAdd_eq := Scalar.mulAdd_real
  isNumber_eq := Scalar.isNumber_real

/-- The entry of a matrix at a position; zero where there is none. -/
def Matrix.cell {α : Type} [Zero α] (m : Matrix α) (i j : Nat) : α := (m.row i).getD j 0

variable {K : Type} [ExactScalar K]

/-! ## Sums and maxima -/

namespace Scalar

@[simp]
theorem zero_exact : (Scalar.zero : K) = 0 := by
  rw [Scalar.zero, ExactScalar.ofNat_eq, Nat.cast_zero]

theorem sum_exact (xs : List K) : Scalar.sum xs = xs.sum := by
  rw [Scalar.sum, zero_exact, List.sum_eq_foldl]

omit [ExactScalar K] in
/-- Comparing numbers one after another ends with one of them. -/
theorem foldl_max_mem [Scalar K] (x : K) (xs : List K) : xs.foldl Scalar.max x ∈ x :: xs := by
  induction xs generalizing x with
  | nil => exact List.mem_cons_self
  | cons y rest ih =>
    rw [List.foldl_cons]
    have hmax : Scalar.max x y = x ∨ Scalar.max x y = y := by
      unfold Scalar.max
      split
      · exact .inr rfl
      · exact .inl rfl
    obtain hx | hrest := List.mem_cons.1 (ih (Scalar.max x y))
    · rw [hx]
      obtain hmax | hmax := hmax <;> simp [hmax]
    · exact List.mem_cons_of_mem _ (List.mem_cons_of_mem _ hrest)

/-- A maximum is attained. -/
theorem maximum_mem {xs : List K} (h : xs ≠ []) : Scalar.maximum xs ∈ xs := by
  have hall : xs.filter Scalar.isNumber = xs :=
    List.filter_eq_self.2 fun x _ => ExactScalar.isNumber_eq x
  unfold Scalar.maximum
  rw [hall]
  cases xs with
  | nil => exact absurd rfl h
  | cons x rest => exact foldl_max_mem x rest

end Scalar

/-! ## Entries -/

namespace Matrix

theorem getD_zipWith_add {xs ys : List K} {j : Nat} (hx : j < xs.length) (hy : j < ys.length) :
    (List.zipWith (· + ·) xs ys).getD j 0 = xs.getD j 0 + ys.getD j 0 := by
  simp [hx, hy]

theorem getD_map_mul (row : List K) (w : K) (j : Nat) :
    (row.map (· * w)).getD j 0 = row.getD j 0 * w := by
  rw [List.getD_eq_getElem?_getD, List.getD_eq_getElem?_getD, List.getElem?_map]
  cases row[j]? <;> simp

/-- An entry of a sum of rows is the sum of the entries. -/
theorem getD_sumRows {width j : Nat} (hj : j < width) {rows : List (List K)}
    (hrows : ∀ r ∈ rows, r.length = width) :
    (sumRows width rows).getD j 0 = (rows.map fun r => r.getD j 0).sum := by
  have hfold : ∀ start : List K, start.length = width →
      (rows.foldl (List.zipWith (· + ·)) start).getD j 0
        = start.getD j 0 + (rows.map fun r => r.getD j 0).sum := by
    induction rows with
    | nil => simp
    | cons r rest ih =>
      intro start hstart
      have hr := hrows r List.mem_cons_self
      have hwidth : (List.zipWith (· + ·) start r).length = width := by
        rw [List.length_zipWith, hstart, hr, Nat.min_self]
      rw [List.foldl_cons, ih (fun s hs => hrows s (List.mem_cons_of_mem _ hs)) _ hwidth,
        getD_zipWith_add (hstart ▸ hj) (hr ▸ hj), List.map_cons, List.sum_cons, add_assoc]
  rw [sumRows, hfold _ List.length_replicate]
  simp [hj]

/-- A list by its entries. -/
theorem eq_map_getD {n : Nat} {xs : List K} (h : xs.length = n) :
    xs = (List.range n).map fun k => xs.getD k 0 := by
  apply List.ext_getElem
  · rw [List.length_map, List.length_range, h]
  · intro k hk _
    simp [hk]

theorem dot_map_range (n : Nat) (v w : Nat → K) :
    dot ((List.range n).map v) ((List.range n).map w) = ∑ k ∈ Finset.range n, w k * v k := by
  rw [dot, List.zip_map', List.foldl_map, Scalar.zero_exact]
  induction n with
  | zero => rfl
  | succ n ih =>
    rw [List.range_succ, List.foldl_append, ih, Finset.sum_range_succ]
    show Scalar.mulAdd (v n) (w n) _ = _
    rw [ExactScalar.mulAdd_eq, mul_comm, add_comm]

/-- A product of rows as a sum over positions. -/
theorem dot_exact {n : Nat} {xs ys : List K} (hx : xs.length = n) (hy : ys.length = n) :
    dot xs ys = ∑ k ∈ Finset.range n, ys.getD k 0 * xs.getD k 0 := by
  rw [← dot_map_range, ← eq_map_getD hx, ← eq_map_getD hy]

end Matrix

/-- A linear map without bias multiplies with its weights. -/
theorem Linear.getD_row {l : Linear K} {inputs outputs : Nat} (hl : l.Shaped inputs outputs false)
    {r : List K} (hr : r.length = inputs) {j : Nat} (hj : j < outputs) :
    (l.row r).getD j 0 = ∑ k ∈ Finset.range inputs, l.weight.cell j k * r.getD k 0 := by
  have hbias : l.bias = none := by simpa using hl.bias_length
  have hheight : j < l.weight.rows.length := hj.trans_eq hl.outputs_eq.symm
  have hlength : l.weight.rows[j].length = inputs :=
    (l.weight.uniform _ (List.getElem_mem hheight)).trans hl.inputs_eq
  unfold row
  rw [hbias]
  simp only [Matrix.cell, Matrix.row_eq_getElem hheight]
  rw [← Matrix.dot_exact hr hlength]
  simp [hheight]

/-! ## Weighted means -/

section Mean

variable {ι : Type} [LinearOrder K] [IsStrictOrderedRing K] {items : List ι} {v w : ι → K} {c : K}

/-- A mean is no greater than all its values are. -/
theorem sum_map_mul_le (hw : ∀ i ∈ items, 0 ≤ w i) (hone : (items.map w).sum = 1)
    (hv : ∀ i ∈ items, v i ≤ c) : (items.map fun i => v i * w i).sum ≤ c := by
  calc (items.map fun i => v i * w i).sum
      ≤ (items.map fun i => c * w i).sum :=
        List.sum_le_sum fun i hi => mul_le_mul_of_nonneg_right (hv i hi) (hw i hi)
    _ = c := by rw [List.sum_map_mul_left, hone, mul_one]

/-- A mean is no less than all its values are. -/
theorem le_sum_map_mul (hw : ∀ i ∈ items, 0 ≤ w i) (hone : (items.map w).sum = 1)
    (hv : ∀ i ∈ items, c ≤ v i) : c ≤ (items.map fun i => v i * w i).sum := by
  calc c = (items.map fun i => c * w i).sum := by rw [List.sum_map_mul_left, hone, mul_one]
    _ ≤ (items.map fun i => v i * w i).sum :=
        List.sum_le_sum fun i hi => mul_le_mul_of_nonneg_right (hv i hi) (hw i hi)

end Mean

end PonziScreen
