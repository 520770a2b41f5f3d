import PonziScreen.Matrix
import PonziScreen.Random

/-!
# Activations, dropout and loss

The functions that a network applies to single numbers, the random silencing of entries in training,
and the loss that compares scores with labels.
-/

namespace PonziScreen

variable {α : Type} [Scalar α]

/-! ## Activations -/

/-- `1 / (1 + exp (-x))`. -/
def sigmoid (x : α) : α := Scalar.one / (Scalar.one + Scalar.exp (-x))

/-- `ln (1 + exp x)`; above 20 the number itself, which it then equals but for rounding. -/
def softplus (x : α) : α :=
  if Scalar.lt (Scalar.ofNat 20) x then x else Scalar.ln1p (Scalar.exp x)

/-- The number itself if it is positive, else zero. -/
def relu (x : α) : α := if Scalar.lt Scalar.zero x then x else Scalar.zero

/-- The number itself, multiplied by `slope` if it is negative. -/
def leakyRelu (slope x : α) : α := if Scalar.lt x Scalar.zero then x * slope else x

/-! ## Dropout -/

/-- Silences each entry with probability `p` and multiplies the others by `keep`; one draw for each
entry of the row. -/
def dropoutRow (p keep : α) : List α → Generator → List α × Generator
  | [], g => ([], g)
  | v :: rest, g =>
    let (u, g) := g.unit 24
    let (out, g) := dropoutRow p keep rest g
    ((if Scalar.lt u p then Scalar.zero else v * keep) :: out, g)

/-- Dropout keeps the length of a row. -/
theorem length_dropoutRow (p keep : α) (row : List α) (g : Generator) :
    (dropoutRow p keep row g).1.length = row.length := by
  induction row generalizing g with
  | nil => rfl
  | cons v rest ih => simp [dropoutRow, ih]

/-- `dropoutRow` row after row. -/
def dropoutRows (p keep : α) : List (List α) → Generator → List (List α) × Generator
  | [], g => ([], g)
  | r :: rest, g =>
    let (r, g) := dropoutRow p keep r g
    let (out, g) := dropoutRows p keep rest g
    (r :: out, g)

/-- Dropout keeps the width of rows. -/
theorem length_of_mem_dropoutRows {p keep : α} {width : Nat} {rows : List (List α)}
    {g : Generator} (h : ∀ r ∈ rows, r.length = width) :
    ∀ r ∈ (dropoutRows p keep rows g).1, r.length = width := by
  induction rows generalizing g with
  | nil => simp [dropoutRows]
  | cons r rest ih =>
    intro s hs
    rcases List.mem_cons.1 hs with rfl | hs
    · exact (length_dropoutRow ..).trans (h r List.mem_cons_self)
    · exact ih (fun t ht => h t (List.mem_cons_of_mem _ ht)) s hs

/-- Silences each entry with probability `p`. The survivors are scaled so that the mean stays. A
rate of zero or one needs no draws. -/
def dropout (p : α) (x : Matrix α) (g : Generator) : Matrix α × Generator :=
  if Scalar.le p Scalar.zero then (x, g)
  else if Scalar.le Scalar.one p then (x.map fun _ => Scalar.zero, g)
  else
    let keep := Scalar.one / (Scalar.one - p)
    (⟨x.width, (dropoutRows p keep x.rows g).1, length_of_mem_dropoutRows x.uniform⟩,
      (dropoutRows p keep x.rows g).2)

/-! ## Loss -/

/-- The loss of one row of scores. The greatest score is subtracted before exponentials are taken
and added again after the logarithm, so that none of them is too large. -/
def rowLoss (scores labels : List α) : α :=
  let top := Scalar.maximum scores
  let logSum := Scalar.ln (Scalar.sum (scores.map fun v => Scalar.exp (v - top))) + top
  Scalar.sum (List.zipWith (fun s y => y * (s - logSum)) scores labels)

/-- The cross entropy of scores, which need not be normalised, with probabilities: the mean over the
rows, and zero without rows. -/
def crossEntropy (input target : Matrix α) : Except Failure α :=
  if input.height ≠ target.height ∨ input.width ≠ target.width then
    .error (.shapeMismatch (.lossShapes input.height input.width target.height target.width))
  else if input.height = 0 then .ok Scalar.zero
  else
    let total := (List.zipWith rowLoss input.rows target.rows).foldl (· - ·) Scalar.zero
    .ok (total / Scalar.ofNat input.height)

end PonziScreen
