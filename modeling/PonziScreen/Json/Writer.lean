import PonziScreen.Json.Basic

/-!
# Writing JSON

The shortest spelling: no white space, and in strings no escapes but those that JSON demands. A
number with a point or an exponent is always written with an exponent of ten.
-/

namespace PonziScreen

/-- The hexadecimal digit of a value below 16. -/
def hexDigit (n : Nat) : Char :=
  if n < 10 then Char.ofNat ('0'.toNat + n) else Char.ofNat ('a'.toNat + (n - 10))

/-- A character as it stands in a string. -/
def escaped (c : Char) : List Char :=
  if c = '"' then ['\\', '"']
  else if c = '\\' then ['\\', '\\']
  else if c.toNat < 0x20 then
    ['\\', 'u', '0', '0', hexDigit (c.toNat / 16), hexDigit (c.toNat % 16)]
  else [c]

/-- A string with its quotes. A string without a text is written as half a surrogate pair. -/
def writeText : Option String → List Char
  | some s => '"' :: (s.toList.flatMap escaped ++ ['"'])
  | none => "\"\\ud800\"".toList

/-- The digits after a point, with the point; nothing if there are none. -/
def writeFraction (fraction : List (Fin 10)) : List Char :=
  if fraction.isEmpty then [] else '.' :: fraction.map fun d : Fin 10 => hexDigit d.val

/-- A number. -/
def Numeral.write : Numeral → List Char
  | .whole n d => (if n then ['-'] else []) ++ Nat.toDigits 10 d
  | .scaled n d f e =>
    (if n then ['-'] else []) ++ Nat.toDigits 10 d ++ writeFraction f ++ 'e' ::
      ((if e < 0 then ['-'] else []) ++ Nat.toDigits 10 e.natAbs)

/-- Several spellings with a comma between neighbours. -/
def commaSeparated : List (List Char) → List Char
  | [] => []
  | [s] => s
  | s :: rest => s ++ ',' :: commaSeparated rest

/-- The spelling of a value. -/
def Json.write : Json → List Char
  | .null => "null".toList
  | .bool true => "true".toList
  | .bool false => "false".toList
  | .number n => n.write
  | .text s => writeText s
  | .array items => '[' :: (commaSeparated (items.attach.map fun j => j.1.write) ++ [']'])
  | .object members =>
    '{' :: (commaSeparated (members.attach.map fun m =>
      writeText m.1.1 ++ ':' :: m.1.2.write) ++ ['}'])
termination_by j => sizeOf j
decreasing_by
  · have := List.sizeOf_lt_of_mem j.2
    simp
    omega
  · have h₁ := List.sizeOf_lt_of_mem m.2
    have h₂ : sizeOf m.1.2 < sizeOf m.1 := by
      cases m.1
      simp only [Prod.mk.sizeOf_spec]
      omega
    simp
    omega

/-- The spelling of a value as a text. -/
def Json.toText (j : Json) : String := String.ofList j.write

end PonziScreen
