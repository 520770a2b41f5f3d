import PonziScreen.Failure
import PonziScreen.Scalar

/-!
# Matrices

A matrix is a list of rows of one width. The width is kept apart from the rows, so that a matrix
without rows has one as well.

An operation on matrices whose shapes cannot be laid over each other gives `Failure.misaligned`. A
dimension of size one may be laid over any other: its only row or column is repeated.
-/

namespace PonziScreen

/-- Rows of one width. -/
structure Matrix (α : Type) where
  width : Nat
  rows : List (List α)
  uniform : ∀ r ∈ rows, r.length = width

namespace Matrix

variable {α β γ : Type}

/-- The number of rows. -/
def height (m : Matrix α) : Nat := m.rows.length

/-- The matrix with given rows, if all have the given width. -/
def ofRows? (width : Nat) (rows : List (List α)) : Option (Matrix α) :=
  if h : ∀ r ∈ rows, r.length = width then some ⟨width, rows, h⟩ else none

/-- The matrix with one value everywhere. -/
def fill (height width : Nat) (x : α) : Matrix α where
  width := width
  rows := List.replicate height (List.replicate width x)
  uniform := by
    intro r hr
    rw [List.eq_of_mem_replicate hr, List.length_replicate]

/-- The matrix of zeros. -/
def zeros [Scalar α] (height width : Nat) : Matrix α := fill height width Scalar.zero

/-- The entries, row by row. -/
def entries (m : Matrix α) : List α := m.rows.flatten

/-! ## Entry by entry -/

/-- Applies a function to each row; `f` has to give rows of the new width. -/
def mapRows (m : Matrix α) (width : Nat) (f : List α → List β)
    (hf : ∀ r, r.length = m.width → (f r).length = width) : Matrix β where
  width := width
  rows := m.rows.map f
  uniform := by
    intro r hr
    obtain ⟨s, hs, rfl⟩ := List.mem_map.1 hr
    exact hf s (m.uniform s hs)

/-- Applies a function to each entry. -/
def map (f : α → β) (m : Matrix α) : Matrix β :=
  m.mapRows m.width (List.map f) fun r hr => by rw [List.length_map, hr]

/-- Applies a function to each entry and its position in the row-by-row order. -/
def mapFlat (f : Nat → α → β) (m : Matrix α) : Matrix β where
  width := m.width
  rows := m.rows.mapIdx fun i r => r.mapIdx fun j x => f (i * m.width + j) x
  uniform := by
    intro r hr
    obtain ⟨i, hi, rfl⟩ := List.mem_mapIdx.1 hr
    rw [List.length_mapIdx]
    exact m.uniform _ (List.getElem_mem hi)

/-! ## Laying matrices over each other -/

/-- Whether dimensions of two sizes can be laid over each other. -/
def compatible (m n : Nat) : Bool := m = n || m = 1 || n = 1

/-- The size of two dimensions laid over each other. -/
def commonSize (m n : Nat) : Nat := if m = 1 then n else m

/-- Dimensions of one size keep it. -/
theorem commonSize_self (n : Nat) : commonSize n n = n := by unfold commonSize; split <;> rfl

/-- A list made as long as asked for: a single item is repeated. -/
def spread (n : Nat) (items : List α) : List α :=
  if items.length = n then items else items.flatMap (List.replicate n)

/-- A single item can be made any length. -/
theorem length_spread {n : Nat} {items : List α} (h : items.length = n ∨ items.length = 1) :
    (spread n items).length = n := by
  unfold spread
  split
  · assumption
  · match items, h with
    | [x], _ => simp
    | [], h => simp_all
    | _ :: _ :: _, h => simp_all

/-- Two lists of compatible lengths get the common length. -/
theorem length_spread_of_compatible {m n : Nat} {items : List α} {other : List β}
    (hi : items.length = m) (ho : other.length = n) (h : compatible m n) :
    (spread (commonSize m n) items).length = commonSize m n ∧
      (spread (commonSize m n) other).length = commonSize m n := by
  simp only [compatible, Bool.or_eq_true, decide_eq_true_eq] at h
  constructor <;> apply length_spread <;> unfold commonSize <;> split <;> omega

/-- Nothing new comes in when a list is stretched. -/
theorem mem_spread {n : Nat} {items : List α} {x : α} (h : x ∈ spread n items) : x ∈ items := by
  unfold spread at h
  split at h
  · exact h
  · obtain ⟨y, hy, hx⟩ := List.mem_flatMap.1 h
    exact List.eq_of_mem_replicate hx ▸ hy

/-- Two matrices laid over each other and combined entry by entry. -/
def combine (f : α → β → γ) (a : Matrix α) (b : Matrix β) : Except Failure (Matrix γ) :=
  if h : compatible a.height b.height ∧ compatible a.width b.width then
    let height := commonSize a.height b.height
    let width := commonSize a.width b.width
    .ok {
      width := width
      rows := List.zipWith (fun r s => List.zipWith f (spread width r) (spread width s))
        (spread height a.rows) (spread height b.rows)
      uniform := by
        intro r hr
        rw [List.mem_iff_getElem] at hr
        obtain ⟨i, hi, rfl⟩ := hr
        have hl := hi
        rw [List.length_zipWith, Nat.lt_min] at hl
        rw [List.getElem_zipWith, List.length_zipWith]
        have ha := a.uniform _ (mem_spread (List.getElem_mem hl.1))
        have hb := b.uniform _ (mem_spread (List.getElem_mem hl.2))
        obtain ⟨h₁, h₂⟩ := length_spread_of_compatible ha hb h.2
        exact (congr (congrArg min h₁) h₂).trans (Nat.min_self _) }
  else .error .misaligned

/-- A matrix to each of whose rows one row is added. The row may have a single entry; it is then
added everywhere. -/
def addRow [Add α] (m : Matrix α) (row : List α) : Except Failure (Matrix α) :=
  if h : row.length = m.width ∨ row.length = 1 then
    .ok (m.mapRows m.width (fun r => List.zipWith (· + ·) r (spread m.width row)) fun r hr => by
      rw [List.length_zipWith, length_spread h, hr, Nat.min_self])
  else .error .misaligned

/-! ## Products -/

/-- The sum of the products of two lists, item by item, each product rounded together with its
addition. -/
def dot [Scalar α] (xs ys : List α) : α :=
  (xs.zip ys).foldl (fun sum p => Scalar.mulAdd p.1 p.2 sum) Scalar.zero

/-- The product of a matrix with the transpose of another: each row of the one with each row of the
other. -/
def mulTransposed [Scalar α] (m w : Matrix α) : Matrix α :=
  m.mapRows w.height (fun r => w.rows.map (dot r)) fun _ _ => by rw [List.length_map]; rfl

/-- The product of each row with a vector, each product rounded by itself. -/
def mulVec [Scalar α] (m : Matrix α) (v : List α) : Except Failure (List α) :=
  if v.length = m.width then .ok (m.rows.map fun r => Scalar.sum (List.zipWith (· * ·) r v))
  else .error .misaligned

/-! ## Parts -/

/-- The rows at given positions. -/
def gather (m : Matrix α) (index : List Nat) : Except Failure (Matrix α) :=
  if index.all fun i => i < m.height then
    .ok {
      width := m.width
      rows := index.filterMap fun i => m.rows[i]?
      uniform := by
        intro r hr
        obtain ⟨i, -, hi⟩ := List.mem_filterMap.1 hr
        exact m.uniform r (List.mem_of_getElem? hi) }
  else .error .misaligned

/-- The columns from one position up to but not including another. -/
def slice (m : Matrix α) (start stop : Nat) : Except Failure (Matrix α) :=
  if h : start ≤ stop ∧ stop ≤ m.width then
    .ok (m.mapRows (stop - start) (fun r => (r.take stop).drop start) fun r hr => by
      rw [List.length_drop, List.length_take, hr, Nat.min_eq_left h.2])
  else .error .misaligned

/-- The columns, each from the first row to the last. -/
def columns (m : Matrix α) : List (List α) :=
  (List.range m.width).map fun j => m.rows.filterMap fun r => r[j]?

/-- There are as many columns as the matrix is wide. -/
theorem length_columns (m : Matrix α) : m.columns.length = m.width := by simp [columns]

/-- Every column has an entry of each row. -/
theorem length_of_mem_columns {m : Matrix α} {c : List α} (h : c ∈ m.columns) :
    c.length = m.height := by
  obtain ⟨j, hj, rfl⟩ := List.mem_map.1 h
  rw [List.mem_range] at hj
  have hall : ∀ rows : List (List α), (∀ r ∈ rows, r.length = m.width) →
      (rows.filterMap fun r => r[j]?).length = rows.length := by
    intro rows hrows
    induction rows with
    | nil => rfl
    | cons r rest ih =>
      have hr : j < r.length := by
        rw [hrows r List.mem_cons_self]
        exact hj
      rw [List.filterMap_cons, List.getElem?_eq_getElem hr, List.length_cons, List.length_cons,
        ih fun s hs => hrows s (List.mem_cons_of_mem _ hs)]
  exact hall m.rows m.uniform

/-- Two matrices of one height side by side. -/
def beside (a b : Matrix α) : Except Failure (Matrix α) :=
  if a.height = b.height then
    .ok {
      width := a.width + b.width
      rows := List.zipWith (· ++ ·) a.rows b.rows
      uniform := by
        intro r hr
        rw [List.mem_iff_getElem] at hr
        obtain ⟨i, hi, rfl⟩ := hr
        rw [List.getElem_zipWith, List.length_append, a.uniform _ (List.getElem_mem _),
          b.uniform _ (List.getElem_mem _)] }
  else .error .unevenRows

/-- Matrices of one width on top of each other. -/
def stack (width : Nat) (ms : List (Matrix α)) : Except Failure (Matrix α) :=
  if h : ∀ m ∈ ms, m.width = width then
    .ok {
      width := width
      rows := ms.flatMap rows
      uniform := by
        intro r hr
        obtain ⟨m, hm, hr⟩ := List.mem_flatMap.1 hr
        rw [m.uniform r hr, h m hm] }
  else .error .unevenRows

/-- The sum of rows of one width, entry by entry. -/
def sumRows [Scalar α] (width : Nat) (rows : List (List α)) : List α :=
  rows.foldl (List.zipWith (· + ·)) (List.replicate width Scalar.zero)

/-- Rows of one width have a sum of that width. -/
theorem length_sumRows [Scalar α] {width : Nat} {rows : List (List α)}
    (h : ∀ r ∈ rows, r.length = width) : (sumRows width rows).length = width := by
  have hfold : ∀ (rows : List (List α)) (start : List α), start.length = width →
      (∀ r ∈ rows, r.length = width) →
      (rows.foldl (List.zipWith (· + ·)) start).length = width := by
    intro rows
    induction rows with
    | nil => intro start hs _; exact hs
    | cons r rows ih =>
      intro start hs hr
      refine ih _ ?_ fun s hmem => hr s (List.mem_cons_of_mem _ hmem)
      rw [List.length_zipWith, hs, hr r List.mem_cons_self, Nat.min_self]
  exact hfold rows _ List.length_replicate h

end Matrix

end PonziScreen
