import Mathlib.Data.List.Basic
import Mathlib.Data.List.GetD
import PonziScreen.Network.Segment

/-!
# Computing with rows

What the operations on matrices do, row by row. The operations are checked ones and answer with a
failure where shapes do not fit; here they are taken where shapes do fit, and then each of them is a
map over the items that its rows stand for: nodes, edges or graphs.

`Yields` says that a computation succeeds, and with which rows. A chain of operations is followed
with `Yields.bind`, one lemma for each operation.
-/

namespace PonziScreen

/-! ## Checked computations -/

section Checked

variable {β γ : Type}

theorem ok_bind (b : β) (f : β → Except Failure γ) :
    ((Except.ok b : Except Failure β) >>= f) = f b :=
  rfl

theorem bind_eq_ok {r : Except Failure β} {f : β → Except Failure γ} {c : γ} :
    r >>= f = .ok c ↔ ∃ b, r = .ok b ∧ f b = .ok c := by
  cases r with
  | error failure => simp [bind, Except.bind]
  | ok b => simp [bind, Except.bind]

theorem map_eq_ok {r : Except Failure β} {f : β → γ} {c : γ} :
    r.map f = .ok c ↔ ∃ b, r = .ok b ∧ f b = c := by
  cases r with
  | error failure => simp [Except.map]
  | ok b => simp [Except.map]

end Checked

namespace Matrix

variable {α β γ ι : Type}

/-! ## Rows -/

/-- A matrix is given by its width and its rows. -/
theorem eq_of_rows {m n : Matrix α} (hw : m.width = n.width) (hr : m.rows = n.rows) : m = n := by
  cases m
  cases n
  simp only [Matrix.mk.injEq]
  exact ⟨hw, hr⟩

/-- The row at a position, empty past the last one. -/
def row (m : Matrix α) (i : Nat) : List α := m.rows.getD i []

theorem row_eq_getElem {m : Matrix α} {i : Nat} (h : i < m.rows.length) : m.row i = m.rows[i] :=
  List.getD_eq_getElem _ _ h

theorem length_row {m : Matrix α} {i : Nat} (h : i < m.height) : (m.row i).length = m.width := by
  rw [row_eq_getElem h]
  exact m.uniform _ (List.getElem_mem h)

/-- The rows of a matrix, one for each position. -/
theorem rows_eq_map_row (m : Matrix α) : m.rows = (List.range m.height).map m.row := by
  apply List.ext_getElem
  · simp [height]
  · intro i h₁ h₂
    simp [row_eq_getElem h₁]

theorem row_of_rows_eq {m : Matrix α} {n i : Nat} {f : Nat → List α}
    (h : m.rows = (List.range n).map f) (hi : i < n) : m.row i = f i := by
  simp [row, h, hi]

theorem height_of_rows_eq {m : Matrix α} {items : List ι} {f : ι → List α}
    (h : m.rows = items.map f) : m.height = items.length := by
  rw [height, h, List.length_map]

/-! ## Successful computations -/

/-- A computation succeeds with the matrix of the given width and rows. -/
def Yields (r : Except Failure (Matrix α)) (width : Nat) (rows : List (List α)) : Prop :=
  ∃ m, r = .ok m ∧ m.width = width ∧ m.rows = rows

theorem yields_ok {m : Matrix α} {width : Nat} {rows : List (List α)} (hw : m.width = width)
    (hr : m.rows = rows) : Yields (.ok m) width rows :=
  ⟨m, rfl, hw, hr⟩

theorem Yields.bind {r : Except Failure (Matrix α)} {f : Matrix α → Except Failure (Matrix β)}
    {width width' : Nat} {rows : List (List α)} {rows' : List (List β)} (h : Yields r width rows)
    (hf : ∀ m : Matrix α, m.width = width → m.rows = rows → Yields (f m) width' rows') :
    Yields (r >>= f) width' rows' := by
  obtain ⟨m, rfl, hw, hr⟩ := h
  exact hf m hw hr

theorem Yields.map {r : Except Failure (Matrix α)} {width : Nat} {rows : List (List α)}
    (h : Yields r width rows) (f : α → β) :
    Yields (r.map (Matrix.map f)) width (rows.map (List.map f)) := by
  obtain ⟨m, rfl, hw, hr⟩ := h
  exact ⟨m.map f, rfl, hw, by rw [← hr]; rfl⟩

/-! ## Operations that fit -/

/-- Matrices of one shape are combined row by row. -/
theorem combine_yields (w : Nat) {op : α → β → γ} {a : Matrix α} {b : Matrix β} {items : List ι}
    {f : ι → List α} {g : ι → List β} (hwa : a.width = w) (hwb : b.width = w)
    (ha : a.rows = items.map f) (hb : b.rows = items.map g) :
    Yields (combine op a b) w (items.map fun i => List.zipWith op (f i) (g i)) := by
  have hheight : a.height = b.height := by rw [height_of_rows_eq ha, height_of_rows_eq hb]
  have hwidth : a.width = b.width := hwa.trans hwb.symm
  have hfit : compatible a.height b.height ∧ compatible a.width b.width := by
    simp [compatible, hheight, hwidth]
  have hsize : commonSize a.width b.width = w := by rw [hwb, hwa, commonSize_self]
  have hcount : commonSize a.height b.height = a.height := by rw [← hheight, commonSize_self]
  unfold combine
  rw [dif_pos hfit]
  refine yields_ok hsize ?_
  have hra : spread (commonSize a.height b.height) a.rows = a.rows := if_pos hcount.symm
  have hrb : spread (commonSize a.height b.height) b.rows = b.rows :=
    if_pos (hheight.symm.trans hcount.symm)
  show List.zipWith _ (spread (commonSize a.height b.height) a.rows)
    (spread (commonSize a.height b.height) b.rows) = _
  rw [hra, hrb, ha, hb, List.zipWith_map, List.zipWith_self]
  apply List.map_congr_left
  intro i hi
  have hfi : (f i).length = w := by
    rw [← hwa]
    exact a.uniform _ (ha ▸ List.mem_map_of_mem hi)
  have hgi : (g i).length = w := by
    rw [← hwb]
    exact b.uniform _ (hb ▸ List.mem_map_of_mem hi)
  rw [hsize, spread, if_pos hfi, spread, if_pos hgi]

/-- Rows at positions that exist are the rows asked for. -/
theorem gather_yields {m : Matrix α} {index : List Nat} (h : ∀ i ∈ index, i < m.height) :
    Yields (m.gather index) m.width (index.map m.row) := by
  have hall : (index.all fun i => i < m.height) = true := by simpa using h
  unfold gather
  rw [if_pos hall]
  refine yields_ok rfl ?_
  show index.filterMap (fun i => m.rows[i]?) = index.map m.row
  rw [← List.filterMap_eq_map]
  apply List.filterMap_congr
  intro i hi
  have hlt : i < m.rows.length := h i hi
  simp [List.getElem?_eq_getElem hlt, row_eq_getElem hlt]

/-- Matrices of one height are put side by side row by row. -/
theorem beside_yields {a b : Matrix α} {items : List ι} {f g : ι → List α}
    (ha : a.rows = items.map f) (hb : b.rows = items.map g) :
    Yields (a.beside b) (a.width + b.width) (items.map fun i => f i ++ g i) := by
  have hheight : a.height = b.height := by rw [height_of_rows_eq ha, height_of_rows_eq hb]
  unfold beside
  rw [if_pos hheight]
  refine yields_ok rfl ?_
  show List.zipWith (· ++ ·) a.rows b.rows = _
  rw [ha, hb, List.zipWith_map, List.zipWith_self]

theorem slice_yields (start stop : Nat) {m : Matrix α} {items : List ι} {f : ι → List α}
    (h : start ≤ stop ∧ stop ≤ m.width) (hm : m.rows = items.map f) :
    Yields (m.slice start stop) (stop - start)
      (items.map fun i => ((f i).take stop).drop start) := by
  unfold slice
  rw [dif_pos h]
  refine yields_ok rfl ?_
  show m.rows.map _ = _
  rw [hm, List.map_map]
  rfl

/-- A row of the full width is added to every row. -/
theorem addRow_yields [Add α] {m : Matrix α} {row : List α} {items : List ι} {f : ι → List α}
    (h : row.length = m.width) (hm : m.rows = items.map f) :
    Yields (m.addRow row) m.width (items.map fun i => List.zipWith (· + ·) (f i) row) := by
  unfold addRow
  rw [dif_pos (Or.inl h)]
  refine yields_ok rfl ?_
  show m.rows.map _ = _
  rw [hm, List.map_map, spread, if_pos h]
  rfl

theorem mulVec_of_length [Scalar α] {m : Matrix α} {v : List α} (h : v.length = m.width) :
    m.mulVec v = .ok (m.rows.map fun r => Scalar.sum (List.zipWith (· * ·) r v)) := by
  rw [mulVec, if_pos h]

end Matrix

/-! ## Groups -/

section Groups

variable {α ι β : Type}

/-- Grouping items by a number that each of them carries. -/
theorem segment_map {items : List ι} {g : ι → Nat} {f : ι → β} {t : Nat} :
    segment (items.map g) (items.map f) t = (items.filter fun i => g i = t).map f := by
  unfold segment
  rw [List.zip_map', List.filter_map, List.map_map]
  rfl

theorem groupsBelow_map {items : List ι} {g : ι → Nat} {f : ι → β} {count : Nat}
    (h : ∀ i ∈ items, g i < count) : groupsBelow count (items.map g) (items.map f) = true := by
  unfold groupsBelow
  rw [List.zip_map']
  simpa using h

namespace Matrix

variable [Scalar α]

/-- The sums of groups that exist. -/
theorem scatterAdd_yields {m : Matrix α} {items : List ι} {g : ι → Nat} {f : ι → List α}
    {count : Nat} (hm : m.rows = items.map f) (h : ∀ i ∈ items, g i < count) :
    Yields (m.scatterAdd (items.map g) count) m.width ((List.range count).map fun t =>
      sumRows m.width ((items.filter fun i => g i = t).map f)) := by
  unfold scatterAdd
  rw [if_pos (hm ▸ groupsBelow_map h)]
  refine yields_ok rfl ?_
  apply List.map_congr_left
  intro t _
  rw [hm, segment_map]

/-- The maxima of groups that exist. -/
theorem maxPool_yields {m : Matrix α} {index : List Nat} {count : Nat}
    (h : ∀ g ∈ index, g < count) :
    Yields (m.maxPool index count) m.width ((List.range count).map fun g =>
      maxRow m.width (segment index m.rows g)) := by
  have hbelow : groupsBelow count index m.rows = true := by
    simp only [groupsBelow, List.all_eq_true, decide_eq_true_eq]
    intro p hp
    exact h p.1 (List.of_mem_zip hp).1
  unfold maxPool
  rw [if_pos hbelow]
  exact yields_ok rfl rfl

end Matrix

end Groups

end PonziScreen
