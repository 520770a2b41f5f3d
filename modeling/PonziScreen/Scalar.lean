import PonziScreen.Decimal.Shortest

/-!
# Scalars

The numbers that models and votes are computed with. The computations are written once, over the
operations of `Scalar`, and run with floating-point numbers of 32 bits (models) or 64 bits (votes
and totals). The same computations with real numbers are what "in exact arithmetic" means.

Two operations make room for values that are not numbers: `isNumber` is false only for the result of
an undefined operation, and `lowest` is the maximum of no numbers at all.
-/

namespace PonziScreen

/-- The operations of arithmetic that models and votes use. -/
class Scalar (α : Type) extends Add α, Sub α, Mul α, Div α, Neg α where
  /-- The scalar nearest to a natural number. -/
  ofNat : Nat → α
  /-- The product of two numbers plus a third, rounded once. -/
  mulAdd : α → α → α → α
  exp : α → α
  /-- The natural logarithm. -/
  ln : α → α
  /-- The natural logarithm of one more than a number. -/
  ln1p : α → α
  tanh : α → α
  sqrt : α → α
  /-- Strictly below. -/
  lt : α → α → Bool
  /-- Below or equal. -/
  le : α → α → Bool
  /-- Whether the value is a number. -/
  isNumber : α → Bool
  /-- Whether the value is a finite number. -/
  isFinite : α → Bool
  /-- The maximum of no numbers. -/
  lowest : α
  /-- The integer part, no lower than 0 and no higher than 255. -/
  toByte : α → UInt8
  /-- The number in decimal notation. -/
  text : α → String

/-- A scalar of one kind as a scalar of another that holds all its values. -/
class Widen (α β : Type) where
  widen : α → β

namespace Scalar

variable {α : Type} [Scalar α]

/-- Nothing. -/
def zero : α := ofNat 0

/-- The unit. -/
def one : α := ofNat 1

/-- A fraction of two natural numbers. -/
def ratio (num den : Nat) : α := ofNat num / ofNat den

/-- The sum of some numbers, from the first to the last. -/
def sum (xs : List α) : α := xs.foldl (· + ·) zero

/-- The sums of eight lanes, through which the numbers of a list run in turn, and what is left when
fewer than eight numbers remain. -/
def lanes (s : Vector α 8) : List α → Vector α 8 × List α
  | a :: b :: c :: d :: e :: f :: g :: h :: rest =>
    lanes (s.zipWith (· + ·) #v[a, b, c, d, e, f, g, h]) rest
  | rest => (s, rest)

/-- The sum of many numbers, gathered in eight lanes, so that rounding errors stay small. -/
def laneSum (xs : List α) : α :=
  let (s, rest) := lanes (Vector.replicate 8 zero) xs
  ([s[0] + s[4], s[1] + s[5], s[2] + s[6], s[3] + s[7]] ++ rest).foldl (· + ·) zero

/-- The greater of two numbers. -/
def max (x y : α) : α := if lt x y then y else x

/-- The lesser of two numbers. -/
def min (x y : α) : α := if lt y x then y else x

/-- The greatest of the numbers in a list. Values that are not numbers do not count. -/
def maximum (xs : List α) : α :=
  match xs.filter isNumber with
  | [] => lowest
  | y :: ys => ys.foldl max y

/-- A number moved into the range from `low` to `high`. -/
def clamp (low high x : α) : α := if lt x low then low else if lt high x then high else x

end Scalar

/-- The logarithm of one more than a number, accurate also near zero: with `u` for the rounded sum,
`ln u` is off by the same factor as `u - 1` is. -/
def floatLn1p (x : Float) : Float :=
  let u := 1 + x
  if u == 1 then x
  else if u.isInf then u.log
  else u.log * x / (u - 1)

/-- Numbers of 64 bits. -/
instance : Scalar Float where
  ofNat := Float.ofNat
  mulAdd x y z := x * y + z
  exp := Float.exp
  ln := Float.log
  ln1p := floatLn1p
  tanh := Float.tanh
  sqrt := Float.sqrt
  lt x y := decide (x < y)
  le x y := decide (x ≤ y)
  isNumber x := !x.isNaN
  isFinite := Float.isFinite
  lowest := -1 / 0
  toByte := Float.toUInt8
  text x := (BinaryValue.ofFloat x).fixed 6

/-- Numbers of 32 bits. A product and a sum of them fit into 64 bits, which rounds them once. -/
instance : Scalar Float32 where
  ofNat := Float32.ofNat
  mulAdd x y z := (x.toFloat * y.toFloat + z.toFloat).toFloat32
  exp := Float32.exp
  ln := Float32.log
  ln1p x := (floatLn1p x.toFloat).toFloat32
  tanh := Float32.tanh
  sqrt := Float32.sqrt
  lt x y := decide (x < y)
  le x y := decide (x ≤ y)
  isNumber x := !x.isNaN
  isFinite := Float32.isFinite
  lowest := -1 / 0
  toByte := Float32.toUInt8
  text := shortestText

/-- Every number of 32 bits is one of 64 bits. -/
instance : Widen Float32 Float where
  widen := Float32.toFloat

end PonziScreen
