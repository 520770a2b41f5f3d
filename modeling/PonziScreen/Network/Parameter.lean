import PonziScreen.Matrix

/-!
# Parameters

A parameter is a table of numbers that training may change, under a name. The name of a parameter is
the path to it through the parts of a model.

Each part of a model has two functions on its parameters: one lists them, and one changes their
entries. The second one gets a function of name, position and old value, so that it can write
numbers but never change a shape.
-/

namespace PonziScreen

/-- A parameter with its shape and its entries, row by row. -/
structure Parameter (α : Type) where
  name : String
  shape : List Nat
  entries : List α
deriving Repr

namespace Parameter

variable {α : Type}

/-- A matrix as a parameter. -/
def ofMatrix (name : String) (m : Matrix α) : Parameter α :=
  ⟨name, [m.height, m.width], m.entries⟩

/-- A list as a parameter. -/
def ofList (name : String) (xs : List α) : Parameter α := ⟨name, [xs.length], xs⟩

end Parameter

end PonziScreen
