import PonziScreen.Matrix

/-!
# Grouping rows

An index puts each row of a matrix into a group: the messages of edges into the nodes at which the
edges end, the nodes of a batch into their graphs. `segment` takes out one group, in order, and the
rest of the module sums groups and takes their maxima.

Where the index and the rows differ in number, the shorter one decides. A group that does not exist
is `Failure.misaligned`. The result has a row for each group, whether or not there is anything in
it; room for all of them is taken for granted here (but see `Classifier.hasRoom`).
-/

namespace PonziScreen

variable {α β : Type}

/-- The items that an index puts into a group, in order. -/
def segment (index : List Nat) (items : List β) (group : Nat) : List β :=
  ((index.zip items).filter fun p => p.1 = group).map Prod.snd

/-- A group holds only items that were grouped. -/
theorem mem_of_mem_segment {index : List Nat} {items : List β} {group : Nat} {b : β}
    (h : b ∈ segment index items group) : b ∈ items := by
  obtain ⟨⟨i, b'⟩, hp, rfl⟩ := List.mem_map.1 h
  exact (List.of_mem_zip (List.mem_filter.1 hp).1).2

/-- Whether every item that an index groups goes into one of the first `count` groups. -/
def groupsBelow (count : Nat) (index : List Nat) (items : List β) : Bool :=
  (index.zip items).all fun p => p.1 < count

namespace Matrix

variable [Scalar α]

/-- The sums of the rows of each of `count` groups; a group without rows sums to zeros. -/
def scatterAdd (messages : Matrix α) (index : List Nat) (count : Nat) :
    Except Failure (Matrix α) :=
  if groupsBelow count index messages.rows then
    .ok {
      width := messages.width
      rows := (List.range count).map fun t =>
        sumRows messages.width (segment index messages.rows t)
      uniform := by
        intro r hr
        obtain ⟨t, -, rfl⟩ := List.mem_map.1 hr
        exact length_sumRows fun s hs => messages.uniform s (mem_of_mem_segment hs) }
  else .error .misaligned

/-- The maxima of the columns of some rows; zeros if there are no rows. -/
def maxRow (width : Nat) (rows : List (List α)) : List α :=
  if rows.isEmpty then List.replicate width Scalar.zero
  else (List.range width).map fun j => Scalar.maximum (rows.filterMap fun r => r[j]?)

/-- The maxima of the columns of each of `count` groups of rows. -/
def maxPool (x : Matrix α) (index : List Nat) (count : Nat) : Except Failure (Matrix α) :=
  if groupsBelow count index x.rows then
    .ok {
      width := x.width
      rows := (List.range count).map fun t => maxRow x.width (segment index x.rows t)
      uniform := by
        intro r hr
        obtain ⟨t, -, rfl⟩ := List.mem_map.1 hr
        unfold maxRow
        split <;> simp }
  else .error .misaligned

/-- Looks for an entry greater than `top`, which stands at `best`; `i` is the position of the first
entry of the list. -/
def argmaxFrom (best : Nat) (top : α) (i : Nat) : List α → Nat
  | [] => best
  | v :: rest =>
    if Scalar.lt top v then argmaxFrom i v (i + 1) rest else argmaxFrom best top (i + 1) rest

/-- The position of the first greatest entry of a row; 0 in an empty row. -/
def argmax : List α → Nat
  | [] => 0
  | v :: rest => argmaxFrom 0 v 1 rest

/-- The position of the first greatest entry of each row. -/
def argmaxRows (x : Matrix α) : List Nat := x.rows.map argmax

end Matrix

end PonziScreen
