import PonziScreen.Decimal.Binary

/-!
# A fixed number of places

The exact value of a number, rounded to a given number of places after the point. A value half-way
between two neighbours goes to the one whose last digit is even.
-/

namespace PonziScreen

/-- Pads a list of digits on the left with zeros up to a length. -/
def padZeros (length : Nat) (ds : List Char) : List Char :=
  List.replicate (length - ds.length) '0' ++ ds

/-- The digits of `value / 10 ^ places`, with `places` digits after the point. -/
def pointed (places value : Nat) : List Char :=
  let ds := padZeros (places + 1) (Nat.toDigits 10 value)
  let whole := ds.take (ds.length - places)
  if places = 0 then whole else whole ++ '.' :: ds.drop (ds.length - places)

/-- A number with a fixed number of places. -/
def BinaryValue.fixed (places : Nat) : BinaryValue → String
  | nan => "NaN"
  | infinite n => if n then "-inf" else "inf"
  | finite n m e =>
    let f := scaleDown (binaryFraction m e) (-(places : Int))
    String.ofList ((if n then ['-'] else []) ++ pointed places (roundDiv .even f.1 f.2))

end PonziScreen
