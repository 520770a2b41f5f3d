import PonziScreen.Json.Basic

/-!
# Numbers of JSON as floating-point numbers

An integer that fits into 64 bits gives the nearest number. Of any other number, as many digits as
fit into 64 bits count; they are rounded, and then multiplied with a power of ten or divided by one.
Each of these steps rounds by itself, so the result may lie a unit in the last place from the
nearest number.

A number too large for 64 bits is refused. One too large for 32 bits only becomes infinite.

## Termination

* `leadingDigits` — a number with fewer digits is smaller.
* `dividePower` — the exponent gets smaller.
-/

namespace PonziScreen

/-! ## Digits that count -/

/-- The digits at the front of an integer that fit into 64 bits, and how many are left behind. -/
def leadingDigits (digits : Nat) : Nat × Nat :=
  if digits < UInt64.size then (digits, 0)
  else
    let (leading, behind) := leadingDigits (digits / 10)
    (leading, behind + 1)
termination_by digits
decreasing_by
  have : 0 < UInt64.size := by decide
  omega

/-- The digits of a fraction added to those of an integer as long as they fit into 64 bits, and how
many are left behind. -/
def appendDigits (leading : Nat) : List (Fin 10) → Nat × Nat
  | [] => (leading, 0)
  | d :: rest =>
    if leading * 10 + d.val < UInt64.size then appendDigits (leading * 10 + d.val) rest
    else (leading, rest.length + 1)

/-! ## Powers of ten -/

/-- The number nearest to `10 ^ k`. -/
def powerOfTen (k : Nat) : Float := Float.ofScientific 1 false k

/-- The greatest exponent of a power of ten that is finite. -/
def maxPower : Nat := 308

/-- A number divided by `10 ^ k`, in several steps if the power is not finite. -/
def dividePower (x : Float) (k : Nat) : Float :=
  if k ≤ maxPower then x / powerOfTen k
  else if x == 0 then x
  else dividePower (x / powerOfTen maxPower) (k - maxPower)
termination_by k
decreasing_by unfold maxPower at *; omega

/-- A number times `10 ^ exponent`, unless that is too large. -/
def scalePower? (x : Float) (exponent : Int) : Option Float :=
  if exponent < 0 then some (dividePower x exponent.natAbs)
  else if exponent ≤ maxPower then
    let y := x * powerOfTen exponent.toNat
    if y.isFinite then some y else none
  else if x == 0 then some x
  else none

/-! ## Numerals -/

/-- The magnitude of digits with a fraction times `10 ^ exponent`, unless it is too large. -/
def floatMagnitude? (digits : Nat) (fraction : List (Fin 10)) (exponent : Int) : Option Float :=
  let (leading, behind) := leadingDigits digits
  let (leading, dropped) := appendDigits leading fraction
  scalePower? (Float.ofNat leading) (exponent + behind + dropped - fraction.length)

/-- The number of 64 bits for a numeral, unless it is too large. -/
def Numeral.float? : Numeral → Option Float
  | .whole negative d => (floatMagnitude? d [] 0).map fun x => if negative then -x else x
  | .scaled negative d f e => (floatMagnitude? d f e).map fun x => if negative then -x else x

/-- The number of 32 bits for a numeral: an integer that fits into 64 bits, with or without a sign,
is rounded once, and any other number by way of a floating-point number of 64 bits. -/
def Numeral.float32? (n : Numeral) : Option Float32 :=
  match n with
  | .whole false d =>
    if d < UInt64.size then some (Float32.ofNat d) else n.float?.map Float.toFloat32
  | .whole true d =>
    if 0 < d ∧ d ≤ 1 <<< 63 then some (-Float32.ofNat d) else n.float?.map Float.toFloat32
  | .scaled .. => n.float?.map Float.toFloat32

/-- A number of 64 bits. -/
def Json.float? : Json → Option Float
  | .number n => n.float?
  | _ => none

/-- A number of 32 bits. -/
def Json.float32? : Json → Option Float32
  | .number n => n.float32?
  | _ => none

end PonziScreen
