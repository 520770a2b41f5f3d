import PonziScreen.Network.Activation
import PonziScreen.Network.Linear

/-!
# Gated recurrent units

A cell that blends its state with a candidate. Both projections compute three gates at once: the
first columns are the reset gate, the next ones the update gate, and the last ones the candidate.
-/

namespace PonziScreen

/-- A cell with `size` columns of state. -/
structure GruCell (α : Type) where
  size : Nat
  /-- From the input to the three gates. -/
  input : Linear α
  /-- From the state to the three gates. -/
  hidden : Linear α

namespace GruCell

variable {α : Type}

/-- A cell with drawn weights: first those of the input, then those of the state. -/
def draw [Scalar α] (inputs size : Nat) (g : Generator) : GruCell α × Generator :=
  let (input, g) := Linear.draw inputs (3 * size) true g
  let (hidden, g) := Linear.draw size (3 * size) true g
  (⟨size, input, hidden⟩, g)

/-- The sum of two gates' parts, squashed. -/
def gate [Scalar α] (a b : Matrix α) : Except Failure (Matrix α) :=
  (Matrix.combine (· + ·) a b).map (Matrix.map sigmoid)

/-- One step: the state `h` after the input `x`. With the update gate `z` and the candidate `n` it
is `n + z * (h - n)`. -/
def step [Scalar α] (cell : GruCell α) (x h : Matrix α) : Except Failure (Matrix α) := do
  let c := cell.size
  let gi ← cell.input.apply x
  let gh ← cell.hidden.apply h
  let r ← gate (← gi.slice 0 c) (← gh.slice 0 c)
  let z ← gate (← gi.slice c (2 * c)) (← gh.slice c (2 * c))
  let reset ← Matrix.combine (· * ·) r (← gh.slice (2 * c) gh.width)
  let n ← Matrix.combine (· + ·) (← gi.slice (2 * c) gi.width) reset
  let n := n.map Scalar.tanh
  let change ← Matrix.combine (· * ·) z (← Matrix.combine (· - ·) h n)
  Matrix.combine (· + ·) n change

/-- The parameters under a path. -/
def parameters (cell : GruCell α) (path : String) : List (Parameter α) :=
  cell.input.parameters s!"{path}.input" ++ cell.hidden.parameters s!"{path}.hidden"

/-- Changes the entries of the parameters under a path. -/
def mapParameters (cell : GruCell α) (path : String) (f : String → Nat → α → α) : GruCell α :=
  { cell with
    input := cell.input.mapParameters s!"{path}.input" f
    hidden := cell.hidden.mapParameters s!"{path}.hidden" f }

end GruCell

end PonziScreen
