/-!
# Floating-point numbers as exact values

A finite floating-point number is a natural number times a power of two. Everything that prints a
number starts from this value, so that printing is a matter of integer arithmetic.
-/

namespace PonziScreen

/-- What the bits of a floating-point number stand for. The sign is kept for zero as well. -/
inductive BinaryValue where
  | nan
  | infinite (negative : Bool)
  /-- The value `mantissa * 2 ^ exponent`. -/
  | finite (negative : Bool) (mantissa : Nat) (exponent : Int)
deriving Repr, DecidableEq

namespace BinaryValue

/-- Decodes a number with `fractionBits` bits of fraction and `exponentBits` bits of exponent: the
sign, the exponent field and the fraction field stand one after another. -/
def decode (fractionBits exponentBits bits : Nat) : BinaryValue :=
  let fraction := bits % 1 <<< fractionBits
  let field := bits >>> fractionBits % 1 <<< exponentBits
  let negative := decide (bits >>> (fractionBits + exponentBits) % 2 = 1)
  let lowest : Int := 2 - (1 <<< (exponentBits - 1) : Nat) - fractionBits
  if field = 1 <<< exponentBits - 1 then
    if fraction = 0 then .infinite negative else .nan
  else if field = 0 then .finite negative fraction lowest
  else .finite negative (fraction + 1 <<< fractionBits) (lowest + (field - 1))

/-- The value of a number of 32 bits. -/
def ofFloat32 (x : Float32) : BinaryValue := decode 23 8 x.toBits.toNat

/-- The value of a number of 64 bits. -/
def ofFloat (x : Float) : BinaryValue := decode 52 11 x.toBits.toNat

/-- Whether the number has a minus sign. -/
def isNegative : BinaryValue → Bool
  | nan => false
  | infinite n => n
  | finite n _ _ => n

end BinaryValue

/-! ## Fractions of powers -/

/-- The fraction `mantissa * 2 ^ exponent` as a numerator and a denominator. -/
def binaryFraction (mantissa : Nat) (exponent : Int) : Nat × Nat :=
  (mantissa <<< exponent.toNat, 1 <<< (-exponent).toNat)

/-- The fraction `num / den` divided by `10 ^ exponent`. -/
def scaleDown (f : Nat × Nat) (exponent : Int) : Nat × Nat :=
  (f.1 * Nat.pow 10 (-exponent).toNat, f.2 * Nat.pow 10 exponent.toNat)

/-- Which of two equally near numbers is taken. -/
inductive Tie where
  /-- The one whose last digit is even. -/
  | even
  /-- The greater one. -/
  | up
deriving Repr, DecidableEq

/-- The nearest integer to `num / den`. -/
def roundDiv (tie : Tie) (num den : Nat) : Nat :=
  let q := num / den
  let twice := 2 * (num % den)
  if twice < den then q
  else if den < twice then q + 1
  else if tie = .even ∧ q % 2 = 0 then q
  else q + 1

/-- The least number of decimal digits that the integer part of `num / den` needs; below one, minus
the number of zeros after the point. -/
def decimalExponent (f : Nat × Nat) : Int :=
  if f.1 / f.2 = 0 then
    -- the fraction times `10 ^ k` reaches one only when `k` zeros and a digit have gone by
    match (List.range 400).find? fun k => f.2 ≤ f.1 * Nat.pow 10 (k + 1) with
    | some k => -(k : Int)
    | none => 0
  else (Nat.toDigits 10 (f.1 / f.2)).length

end PonziScreen
