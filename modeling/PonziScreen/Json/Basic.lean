/-!
# JSON values

A JSON value as it stands in a text. Three things are kept that a dictionary of numbers would lose:

* whether a number is written as an integer (`1`) or with a point or an exponent (`1.0`, `1e2`),
  because an integer field accepts only the first;
* the order of the members of an object and their repetitions, because a repeated field is an error;
* strings that escape half of a surrogate pair. Such a string has no text, and it is harmless as
  long as nobody asks for the text.
-/

namespace PonziScreen

/-- A number as it is written. The integer part of a JSON number has no leading zeros, so the value
of its digits determines them. In a fraction every zero counts. -/
inductive Numeral where
  /-- An optional minus sign and digits. -/
  | whole (negative : Bool) (digits : Nat)
  /-- Written with a point or an exponent: `digits` and, after the point, `fraction`, times ten to
  the power of `exponent`. -/
  | scaled (negative : Bool) (digits : Nat) (fraction : List (Fin 10)) (exponent : Int)
deriving Repr, DecidableEq

/-- A JSON value. The text of a string, and of the name of a member, is `none` when it escapes half
of a surrogate pair. -/
inductive Json where
  | null
  | bool (value : Bool)
  | number (value : Numeral)
  | text (value : Option String)
  | array (items : List Json)
  | object (members : List (Option String × Json))
deriving Inhabited, Repr

namespace Json

/-- A string value. -/
def str (s : String) : Json := .text (some s)

/-- An integer that is not negative. -/
def nat (n : Nat) : Json := .number (.whole false n)

/-- An integer. -/
def int (i : Int) : Json := .number (.whole (decide (i < 0)) i.natAbs)

/-- An object with given names. -/
def record (members : List (String × Json)) : Json :=
  .object (members.map fun m => (some m.1, m.2))

/-! ## Views -/

/-- The truth value, if it is one. -/
def bool? : Json → Option Bool
  | .bool b => some b
  | _ => none

/-- The text, if it is a string that has one. -/
def text? : Json → Option String
  | .text s => s
  | _ => none

/-- The natural number below `bound`, if it is written as an integer without a sign. -/
def natBelow? (bound : Nat) : Json → Option Nat
  | .number (.whole false n) => if n < bound then some n else none
  | _ => none

/-- An unsigned integer of 64 bits. -/
def word? (j : Json) : Option Nat := j.natBelow? UInt64.size

/-- An unsigned integer of 8 bits. -/
def byte? (j : Json) : Option UInt8 := (j.natBelow? 256).map UInt8.ofNat

/-- An array whose items are all read by `item`. -/
def list? {β : Type} (item : Json → Option β) : Json → Option (List β)
  | .array items => items.mapM item
  | _ => none

/-- `null` for nothing, else what `item` reads. -/
def nullable? {β : Type} (item : Json → Option β) : Json → Option (Option β)
  | .null => some none
  | j => (item j).map some

/-- One of several alternatives: its name alone, or an object whose only member is the name with
what belongs to it. -/
def variant? : Json → Option (String × Option Json)
  | .text (some name) => some (name, none)
  | .object [(some name, payload)] => some (name, some payload)
  | _ => none

/-- An alternative that carries nothing: its name, or the name with `null`. -/
def unitVariant? (j : Json) : Option String :=
  match j.variant? with
  | some (name, none) => some name
  | some (name, some .null) => some name
  | _ => none

end Json

end PonziScreen
