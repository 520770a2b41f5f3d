import PonziScreen.Decimal.Fixed

/-!
# The fewest digits that read back

The shortest decimal number that is nearer to a given floating-point number than to any other one of
its format. The numbers that round to `m * 2 ^ q` form an interval, from half-way to the neighbour
below to half-way to the neighbour above; the ends belong to it exactly when `m` is even. On the
grids of ever more digits, the two neighbours of the value are tried until one lies in the interval.
Where both do, the nearer one is taken.
-/

namespace PonziScreen

/-- A positive value `mantissa * 2 ^ exponent` of a format. The neighbour below is twice as near as
the one above when `narrow`. -/
structure Rounding where
  mantissa : Nat
  exponent : Int
  narrow : Bool

namespace Rounding

/-- The value of a number with `fractionBits` bits of fraction and `exponentBits` bits of exponent.
The neighbour below a power of two is nearer, except at the lowest exponent. -/
def ofFinite (fractionBits exponentBits mantissa : Nat) (exponent : Int) : Rounding :=
  let lowest : Int := 2 - (1 <<< (exponentBits - 1) : Nat) - fractionBits
  ⟨mantissa, exponent, mantissa = 1 <<< fractionBits && lowest < exponent⟩

/-- The interval's lower end in units of a quarter of the last place. -/
def low (r : Rounding) : Nat := if r.narrow then 4 * r.mantissa - 1 else 4 * r.mantissa - 2

/-- The interval's upper end in the same units. -/
def high (r : Rounding) : Nat := 4 * r.mantissa + 2

/-- Whether `digits * 10 ^ exponent` rounds to the value. -/
def readsBack (r : Rounding) (digits : Nat) (exponent : Int) : Bool :=
  let unit := binaryFraction 1 (r.exponent - 2)
  let left := digits * Nat.pow 10 exponent.toNat * unit.2
  let scale := unit.1 * Nat.pow 10 (-exponent).toNat
  if r.mantissa % 2 = 0 then r.low * scale ≤ left && left ≤ r.high * scale
  else r.low * scale < left && left < r.high * scale

/-- The neighbour of the value on the grid of multiples of `10 ^ exponent` that reads back, if one
does; the nearer of two. -/
def onGrid? (r : Rounding) (tie : Tie) (exponent : Int) : Option (Nat × Int) :=
  let f := scaleDown (binaryFraction r.mantissa r.exponent) exponent
  let below := f.1 / f.2
  let near := roundDiv tie f.1 f.2
  let far := if near = below then below + 1 else below
  if r.readsBack near exponent then some (near, exponent)
  else if r.readsBack far exponent then some (far, exponent)
  else none

/-- The shortest digits and their exponent; the last digit is not zero. Nine digits are always
enough for 32 bits, and seventeen for 64 bits. -/
def shortest (r : Rounding) (tie : Tie) : Nat × Int :=
  let top := decimalExponent (binaryFraction r.mantissa r.exponent)
  match (List.range 18).findSome? fun n => r.onGrid? tie (top - (n : Nat)) with
  | some found => found
  | none => (r.mantissa, 0)

end Rounding

/-- A number of 32 bits in positional notation with the fewest digits that read back, without a
point if it is an integer. Of two equally near numbers the one farther from zero is taken. -/
def shortestText (x : Float32) : String :=
  match BinaryValue.ofFloat32 x with
  | .nan => "NaN"
  | .infinite n => if n then "-inf" else "inf"
  | .finite n 0 _ => if n then "-0" else "0"
  | .finite n m e =>
    let d := (Rounding.ofFinite 23 8 m e).shortest .up
    let text := pointed (-d.2).toNat (d.1 * Nat.pow 10 d.2.toNat)
    String.ofList ((if n then ['-'] else []) ++ text)

end PonziScreen
