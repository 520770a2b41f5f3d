import PonziScreen.Proofs.ExactScalar

/-!
# Rows of real numbers

A row is a list, but an equation speaks of its entries. `rowOf n v` is the row of the first `n`
values of a function `v`. Each operation on rows takes such rows to such a row again, so that what a
network computes can be read off entry by entry, with sums over finite sets in place of folds.
-/

namespace PonziScreen

/-- The row of the first values of a function. -/
def rowOf (n : Nat) (v : Nat → ℝ) : List ℝ := (List.range n).map v

/-- The entry of a matrix at a position; zero where there is none. -/
def Matrix.entry (m : Matrix ℝ) (i j : Nat) : ℝ := (m.row i).getD j 0

variable {n : Nat} {v w : Nat → ℝ}

/-! ## Entries -/

@[simp]
theorem length_rowOf (n : Nat) (v : Nat → ℝ) : (rowOf n v).length = n := by
  rw [rowOf, List.length_map, List.length_range]

theorem getD_rowOf {j : Nat} (h : j < n) : (rowOf n v).getD j 0 = v j := by
  simp [rowOf, h]

theorem rowOf_congr (h : ∀ j < n, v j = w j) : rowOf n v = rowOf n w :=
  List.map_congr_left fun j hj => h j (List.mem_range.1 hj)

/-- A list is the row of its entries. -/
theorem eq_rowOf {r : List ℝ} (h : r.length = n) : r = rowOf n fun j => r.getD j 0 :=
  let _ : ExactScalar ℝ := exactReal
  Matrix.eq_map_getD h

theorem Matrix.row_eq_rowOf {m : Matrix ℝ} {i : Nat} (h : i < m.height) :
    m.row i = rowOf m.width (m.entry i) := by
  refine eq_rowOf ?_
  rw [row_eq_getElem h]
  exact m.uniform _ (List.getElem_mem h)

/-- A matrix by its entries. -/
theorem Matrix.rows_eq_map_rowOf (m : Matrix ℝ) :
    m.rows = (List.range m.height).map fun i => rowOf m.width (m.entry i) := by
  rw [m.rows_eq_map_row]
  exact List.map_congr_left fun i hi => row_eq_rowOf (List.mem_range.1 hi)

/-! ## Entry by entry -/

theorem map_rowOf (f : ℝ → ℝ) : (rowOf n v).map f = rowOf n fun j => f (v j) :=
  List.map_map

theorem zipWith_rowOf (op : ℝ → ℝ → ℝ) :
    List.zipWith op (rowOf n v) (rowOf n w) = rowOf n fun j => op (v j) (w j) := by
  rw [rowOf, rowOf, List.zipWith_map, List.zipWith_self]
  rfl

/-- The entries of one row followed by those of another. -/
def followedBy (m : Nat) (v w : Nat → ℝ) (i : Nat) : ℝ := if i < m then v i else w (i - m)

theorem append_rowOf (m : Nat) : rowOf m v ++ rowOf n w = rowOf (m + n) (followedBy m v w) := by
  rw [rowOf, rowOf, rowOf, List.range_add, List.map_append, List.map_map]
  congr 1
  · refine List.map_congr_left fun i hi => ?_
    rw [followedBy, if_pos (List.mem_range.1 hi)]
  · refine List.map_congr_left fun i _ => ?_
    rw [Function.comp_apply, followedBy, if_neg (by omega), Nat.add_sub_cancel_left]

/-- Some columns of a row. -/
theorem part_rowOf {start stop : Nat} (h : stop ≤ n) :
    GruCell.part start stop (rowOf n v) = rowOf (stop - start) fun j => v (start + j) := by
  apply List.ext_getElem
  · simp [GruCell.part, h]
  · intro j h₁ h₂
    simp [GruCell.part, rowOf]

/-! ## Sums -/

/-- The sum of rows, entry by entry. -/
theorem sumRows_rowOf {ι : Type} (items : List ι) (f : ι → Nat → ℝ) :
    Matrix.sumRows n (items.map fun i => rowOf n (f i))
      = rowOf n fun j => (items.map fun i => f i j).sum := by
  have hfold : ∀ u : Nat → ℝ,
      (items.map fun i => rowOf n (f i)).foldl (List.zipWith (· + ·)) (rowOf n u)
        = rowOf n fun j => u j + (items.map fun i => f i j).sum := by
    induction items with
    | nil => simp
    | cons i rest ih =>
      intro u
      rw [List.map_cons, List.foldl_cons, zipWith_rowOf, ih]
      refine rowOf_congr fun j _ => ?_
      rw [List.map_cons, List.sum_cons, add_assoc]
  have hzero : List.replicate n (Scalar.zero : ℝ) = rowOf n fun _ => 0 := by
    rw [Scalar.zero_real, rowOf, List.map_const', List.length_range]
  rw [Matrix.sumRows, hzero, hfold]
  exact rowOf_congr fun j _ => zero_add _

theorem sum_rowOf : (rowOf n v).sum = ∑ i ∈ Finset.range n, v i :=
  rfl

/-- The scalar product as a sum over positions. -/
theorem dot_rowOf : Matrix.dot (rowOf n v) (rowOf n w) = ∑ i ∈ Finset.range n, w i * v i :=
  let _ : ExactScalar ℝ := exactReal
  Matrix.dot_map_range n v w

end PonziScreen
