import PonziScreen.Matrix
import PonziScreen.Network.Parameter
import PonziScreen.Random

/-!
# Linear maps

A fully connected layer: each row is multiplied with every row of the weights, and the bias is
added.
-/

namespace PonziScreen

/-- A linear map. The weights have a row for each output and a column for each input. -/
structure Linear (α : Type) where
  weight : Matrix α
  bias : Option (List α)

namespace Linear

variable {α : Type}

/-- The number of inputs. -/
def inputs (l : Linear α) : Nat := l.weight.width

/-- The number of outputs. -/
def outputs (l : Linear α) : Nat := l.weight.height

/-- Applies the map to each row. -/
def apply [Scalar α] (l : Linear α) (x : Matrix α) : Except Failure (Matrix α) :=
  if x.width ≠ l.inputs then .error (.shapeMismatch (.linearInput l.inputs x.width))
  else
    let y := x.mulTransposed l.weight
    match l.bias with
    | some b => y.addRow b
    | none => .ok y

/-! ## Initial weights -/

/-- The bound of initial weights: `1 / sqrt inputs`. -/
def initialBound [Scalar α] (inputs : Nat) : α :=
  if 0 < inputs then Scalar.one / Scalar.sqrt (Scalar.ofNat inputs) else Scalar.zero

/-- Draws the rows of a matrix, one after another. -/
def drawRows [Scalar α] (bound : α) (width : Nat) : Nat → Generator → List (List α) × Generator
  | 0, g => ([], g)
  | n + 1, g =>
    let (r, g) := g.symmetricList bound width
    let (rows, g) := drawRows bound width n g
    (r :: rows, g)

/-- Drawn rows have the width asked for. -/
theorem length_of_mem_drawRows [Scalar α] {bound : α} {width n : Nat} {g : Generator} :
    ∀ r ∈ (drawRows bound width n g).1, r.length = width := by
  induction n generalizing g with
  | zero => simp [drawRows]
  | succ n ih =>
    intro r hr
    rcases List.mem_cons.1 hr with rfl | hr
    · exact Generator.length_symmetricList bound width g
    · exact ih r hr

/-- A matrix with entries drawn from `-bound` to `bound`. -/
def drawMatrix [Scalar α] (bound : α) (height width : Nat) (g : Generator) : Matrix α × Generator :=
  (⟨width, (drawRows bound width height g).1, length_of_mem_drawRows⟩,
    (drawRows bound width height g).2)

/-- A map with drawn weights: first the matrix, then the bias if there is one. -/
def draw [Scalar α] (inputs outputs : Nat) (bias : Bool) (g : Generator) : Linear α × Generator :=
  let bound := initialBound inputs
  let (weight, g) := drawMatrix bound outputs inputs g
  if bias then
    let (b, g) := g.symmetricList bound outputs
    (⟨weight, some b⟩, g)
  else (⟨weight, none⟩, g)

/-! ## Parameters -/

/-- The parameters under a path. -/
def parameters (l : Linear α) (path : String) : List (Parameter α) :=
  .ofMatrix s!"{path}.weight" l.weight ::
    (l.bias.map fun b => .ofList s!"{path}.bias" b).toList

/-- Changes the entries of the parameters under a path. -/
def mapParameters (l : Linear α) (path : String) (f : String → Nat → α → α) : Linear α where
  weight := l.weight.mapFlat (f s!"{path}.weight")
  bias := l.bias.map fun b => b.mapIdx (f s!"{path}.bias")

end Linear

end PonziScreen
