import PonziScreen.Json.Basic

/-!
# Reading JSON

The reader is strict: no comments, no trailing commas, no leading zeros, no bare control characters
in strings, and nothing but white space after the value.

## How it works

`Token.next?` cuts one token off the text. `Reader` is a machine with a stack: it holds the
containers that are still open and knows what may come next, and `Reader.step` moves it by one
token. Nesting costs no recursion, so a text may be nested to any depth.

## Termination

* `quoted` consumes its input;
* `Reader.run` consumes at least one character per token (`Token.next?_length`).
-/

namespace PonziScreen

/-! ## Characters -/

/-- The white space that may stand between tokens. -/
def isJsonBlank (c : Char) : Bool :=
  c = ' ' || c = '\t' || c = '\n' || c = '\r'

/-- The value of a decimal digit. -/
def decimalDigit? (c : Char) : Option (Fin 10) :=
  if '0' ≤ c ∧ c ≤ '9' then some (Fin.ofNat 10 (c.toNat - '0'.toNat)) else none

/-- The value of a hexadecimal digit, in either case. -/
def hexDigit? (c : Char) : Option Nat :=
  if '0' ≤ c ∧ c ≤ '9' then some (c.toNat - '0'.toNat)
  else if 'a' ≤ c ∧ c ≤ 'f' then some (c.toNat - 'a'.toNat + 10)
  else if 'A' ≤ c ∧ c ≤ 'F' then some (c.toNat - 'A'.toNat + 10)
  else none

/-- The 16-bit unit that four hexadecimal digits stand for. -/
def hexUnit? (a b c d : Char) : Option Nat := do
  let a ← hexDigit? a
  let b ← hexDigit? b
  let c ← hexDigit? c
  let d ← hexDigit? d
  return ((a * 16 + b) * 16 + c) * 16 + d

/-! ## Strings -/

/-- The part of a string that has been read: its characters in reverse order, or `none` if some unit
belongs to no character, and a first half of a surrogate pair that still waits for the second. -/
structure Quoted where
  read : Option (List Char)
  pending : Option Nat
deriving Repr, DecidableEq

namespace Quoted

/-- Nothing read yet. -/
def empty : Quoted := ⟨some [], none⟩

/-- A character that is written as itself or by a short escape. -/
def push (q : Quoted) (c : Char) : Quoted :=
  match q.pending with
  | none => ⟨q.read.map (c :: ·), none⟩
  | some _ => ⟨none, none⟩

/-- A unit written by its number. Two halves of a surrogate pair make one character. -/
def pushUnit (q : Quoted) (u : Nat) : Quoted :=
  match q.pending with
  | none =>
    if 0xD800 ≤ u ∧ u < 0xDC00 then ⟨q.read, some u⟩
    else if 0xDC00 ≤ u ∧ u < 0xE000 then ⟨none, none⟩
    else ⟨q.read.map (Char.ofNat u :: ·), none⟩
  | some h =>
    if 0xDC00 ≤ u ∧ u < 0xE000 then
      ⟨q.read.map (Char.ofNat (0x10000 + (h - 0xD800) * 0x400 + (u - 0xDC00)) :: ·), none⟩
    else ⟨none, none⟩

/-- The text of a finished string. -/
def text? (q : Quoted) : Option String :=
  match q.pending with
  | none => q.read.map fun cs => String.ofList cs.reverse
  | some _ => none

end Quoted

/-- The character that a one-letter escape stands for. -/
def shortEscape? : Char → Option Char
  | '"' => some '"'
  | '\\' => some '\\'
  | '/' => some '/'
  | 'b' => some '\x08'
  | 'f' => some '\x0c'
  | 'n' => some '\n'
  | 'r' => some '\r'
  | 't' => some '\t'
  | _ => none

/-- The rest of a string whose opening quote has been read: its text, and what follows the closing
quote. `none` if the string is malformed. -/
def quoted (q : Quoted) : List Char → Option (Option String × List Char)
  | [] => none
  | '"' :: rest => some (q.text?, rest)
  | '\\' :: 'u' :: a :: b :: c :: d :: rest =>
    match hexUnit? a b c d with
    | some u => quoted (q.pushUnit u) rest
    | none => none
  | '\\' :: e :: rest =>
    match shortEscape? e with
    | some c => quoted (q.push c) rest
    | none => none
  | c :: rest => if c.toNat < 0x20 then none else quoted (q.push c) rest

/-- A string that has been read leaves a shorter text. -/
theorem quoted_length {q : Quoted} {s : List Char} {t : Option String} {rest : List Char}
    (h : quoted q s = some (t, rest)) : rest.length < s.length := by
  fun_induction quoted q s with
  | case1 => simp at h
  | case2 q r => simp at h; obtain ⟨-, rfl⟩ := h; simp
  | case3 q a b c d r u _ ih => have := ih h; simp; omega
  | case4 => simp at h
  | case5 q e r _ c _ ih => have := ih h; simp; omega
  | case6 => simp at h
  | case7 => simp at h
  | case8 q c r _ _ _ _ ih => have := ih h; simp; omega

/-! ## Numbers -/

/-- The digits at the front of a text, as their values, and the rest. -/
def digits : List Char → List (Fin 10) × List Char
  | [] => ([], [])
  | c :: s =>
    match decimalDigit? c with
    | some d => (d :: (digits s).1, (digits s).2)
    | none => ([], c :: s)

/-- No character gets lost between the digits and the rest. -/
theorem digits_length (s : List Char) : (digits s).1.length + (digits s).2.length = s.length := by
  induction s with
  | nil => rfl
  | cons c s ih =>
    unfold digits
    split <;> simp
    omega

/-- The number that digits, most significant first, stand for. -/
def ofDigits (ds : List (Fin 10)) : Nat := ds.foldl (fun n d => n * 10 + d.val) 0

/-- The digits after a point, if there is a point. `none` if the point stands alone. -/
def fraction? : List Char → Option (Option (List (Fin 10)) × List Char)
  | '.' :: s => if (digits s).1 = [] then none else some (some (digits s).1, (digits s).2)
  | s => some (none, s)

/-- The digits of an exponent after its sign. -/
def exponentDigits? (negative : Bool) (s : List Char) : Option (Option Int × List Char) :=
  let n : Int := ofDigits (digits s).1
  if (digits s).1 = [] then none else some (some (if negative then -n else n), (digits s).2)

/-- The exponent, if the text goes on with one. `none` if it has no digits. -/
def exponent? : List Char → Option (Option Int × List Char)
  | 'e' :: '-' :: s | 'E' :: '-' :: s => exponentDigits? true s
  | 'e' :: '+' :: s | 'E' :: '+' :: s => exponentDigits? false s
  | 'e' :: s | 'E' :: s => exponentDigits? false s
  | s => some (none, s)

/-- The digits of an integer part: at least one, and no zero in front of others. -/
def isIntegerPart : List (Fin 10) → Bool
  | [] => false
  | 0 :: _ :: _ => false
  | _ => true

/-- The number at the front of a text without its sign. -/
def unsigned? (negative : Bool) (s : List Char) : Option (Numeral × List Char) :=
  if isIntegerPart (digits s).1 then do
    let (fraction, rest) ← fraction? (digits s).2
    let (exponent, rest) ← exponent? rest
    match fraction, exponent with
    | none, none => return (.whole negative (ofDigits (digits s).1), rest)
    | _, _ =>
      let whole := ofDigits (digits s).1
      return (.scaled negative whole (fraction.getD []) (exponent.getD 0), rest)
  else none

/-- The number at the front of a text. -/
def numeral? : List Char → Option (Numeral × List Char)
  | '-' :: s => unsigned? true s
  | s => unsigned? false s

/-- Reading a fraction does not lengthen the text. -/
theorem fraction?_length {s : List Char} {p : Option (List (Fin 10))} {rest : List Char}
    (h : fraction? s = some (p, rest)) : rest.length ≤ s.length := by
  unfold fraction? at h
  split at h
  · rename_i s
    have hs := digits_length s
    split at h
    · simp at h
    · simp only [Option.some.injEq, Prod.mk.injEq] at h
      obtain ⟨-, rfl⟩ := h
      simp
      omega
  · simp only [Option.some.injEq, Prod.mk.injEq] at h
    obtain ⟨-, rfl⟩ := h
    exact Nat.le_refl _

/-- Reading the digits of an exponent does not lengthen the text. -/
theorem exponentDigits?_length {n : Bool} {s : List Char} {e : Option Int} {rest : List Char}
    (h : exponentDigits? n s = some (e, rest)) : rest.length ≤ s.length := by
  have hs := digits_length s
  unfold exponentDigits? at h
  split at h
  · simp at h
  · simp only [Option.some.injEq, Prod.mk.injEq] at h
    obtain ⟨-, rfl⟩ := h
    omega

/-- Reading an exponent does not lengthen the text. -/
theorem exponent?_length {s : List Char} {e : Option Int} {rest : List Char}
    (h : exponent? s = some (e, rest)) : rest.length ≤ s.length := by
  unfold exponent? at h
  split at h
  case h_7 =>
    simp only [Option.some.injEq, Prod.mk.injEq] at h
    obtain ⟨-, rfl⟩ := h
    exact Nat.le_refl _
  all_goals
    have := exponentDigits?_length h
    simp
    omega

/-- A number without its sign leaves a shorter text. -/
theorem unsigned?_length {n : Bool} {s : List Char} {m : Numeral} {rest : List Char}
    (h : unsigned? n s = some (m, rest)) : rest.length < s.length := by
  have hs := digits_length s
  unfold unsigned? at h
  split at h
  · rename_i hd
    have hpos : 0 < (digits s).1.length := by
      cases hc : (digits s).1 with
      | nil => simp [hc, isIntegerPart] at hd
      | cons => simp
    simp only [Option.bind_eq_bind, Option.bind_eq_some_iff] at h
    obtain ⟨⟨p, r₁⟩, hp, ⟨e, r₂⟩, he, h⟩ := h
    have h₁ := fraction?_length hp
    have h₂ := exponent?_length he
    simp only at h₂
    have hr : rest = r₂ := by
      split at h <;>
        (simp only [Option.pure_def, Option.some.injEq, Prod.mk.injEq] at h; exact h.2.symm)
    subst hr
    omega
  · simp at h

/-- A number leaves a shorter text. -/
theorem numeral?_length {s : List Char} {m : Numeral} {rest : List Char}
    (h : numeral? s = some (m, rest)) : rest.length < s.length := by
  unfold numeral? at h
  split at h
  · have := unsigned?_length h
    simp
    omega
  · exact unsigned?_length h

/-! ## Tokens -/

/-- The smallest pieces of a JSON text. -/
inductive Token where
  | openArray | closeArray | openObject | closeObject | comma | colon
  | null
  | bool (value : Bool)
  | number (value : Numeral)
  | text (value : Option String)
deriving Repr, DecidableEq

/-- The token at the front of a text, and what follows it. -/
def Token.next? : List Char → Option (Token × List Char)
  | '[' :: s => some (.openArray, s)
  | ']' :: s => some (.closeArray, s)
  | '{' :: s => some (.openObject, s)
  | '}' :: s => some (.closeObject, s)
  | ',' :: s => some (.comma, s)
  | ':' :: s => some (.colon, s)
  | 'n' :: 'u' :: 'l' :: 'l' :: s => some (.null, s)
  | 't' :: 'r' :: 'u' :: 'e' :: s => some (.bool true, s)
  | 'f' :: 'a' :: 'l' :: 's' :: 'e' :: s => some (.bool false, s)
  | '"' :: s => (quoted .empty s).map fun t => (.text t.1, t.2)
  | s => (numeral? s).map fun n => (.number n.1, n.2)

/-- Every token leaves a shorter text. -/
theorem Token.next?_length {s : List Char} {t : Token} {rest : List Char}
    (h : Token.next? s = some (t, rest)) : rest.length < s.length := by
  unfold Token.next? at h
  split at h
  case h_10 =>
    simp only [Option.map_eq_some_iff, Prod.mk.injEq] at h
    obtain ⟨⟨t, r⟩, hq, -, rfl⟩ := h
    have := quoted_length hq
    simp
    omega
  case h_11 =>
    simp only [Option.map_eq_some_iff, Prod.mk.injEq] at h
    obtain ⟨⟨t, r⟩, hn, -, rfl⟩ := h
    exact numeral?_length hn
  all_goals
    simp only [Option.some.injEq, Prod.mk.injEq] at h
    obtain ⟨-, rfl⟩ := h
    simp
    try omega

/-! ## The machine -/

/-- A container that is still open, with what it holds so far in reverse order. An object also knows
the name whose value is being read. -/
inductive Frame where
  | array (items : List Json)
  | object (members : List (Option String × Json)) (name : Option String)
deriving Repr

/-- What may come next. -/
inductive Awaiting where
  /-- A value. -/
  | value
  /-- A value, or the end of an array that has just been opened. -/
  | firstItem
  /-- A name, or the end of an object that has just been opened. -/
  | firstName
  /-- A name. -/
  | name
  /-- The colon after a name. -/
  | colon
  /-- A comma or the end of the innermost container; the end of the text if none is open. -/
  | after (value : Json)
deriving Repr

/-- The state of the reader: the open containers, innermost first, and what may come next. -/
structure Reader where
  frames : List Frame
  awaiting : Awaiting
deriving Repr

namespace Reader

/-- The reader before the first token. -/
def start : Reader := ⟨[], .value⟩

/-- The reader once a value is complete. -/
def deliver (frames : List Frame) (v : Json) : Reader := ⟨frames, .after v⟩

/-- A token where a value is expected. -/
def stepValue (frames : List Frame) : Token → Option Reader
  | .openArray => some ⟨.array [] :: frames, .firstItem⟩
  | .openObject => some ⟨.object [] none :: frames, .firstName⟩
  | .null => some (deliver frames .null)
  | .bool b => some (deliver frames (.bool b))
  | .number n => some (deliver frames (.number n))
  | .text s => some (deliver frames (.text s))
  | _ => none

/-- A token where a name is expected. -/
def stepName : List Frame → Token → Option Reader
  | .object members _ :: frames, .text s => some ⟨.object members s :: frames, .colon⟩
  | _, _ => none

/-- A token after a complete value. -/
def stepAfter (v : Json) : List Frame → Token → Option Reader
  | .array items :: frames, .comma => some ⟨.array (v :: items) :: frames, .value⟩
  | .array items :: frames, .closeArray => some (deliver frames (.array (v :: items).reverse))
  | .object members name :: frames, .comma =>
    some ⟨.object ((name, v) :: members) none :: frames, .name⟩
  | .object members name :: frames, .closeObject =>
    some (deliver frames (.object ((name, v) :: members).reverse))
  | _, _ => none

/-- Moves the reader by one token; `none` if the token may not stand here. -/
def step (r : Reader) (t : Token) : Option Reader :=
  match r.awaiting with
  | .value => stepValue r.frames t
  | .firstItem =>
    match r.frames, t with
    | .array _ :: frames, .closeArray => some (deliver frames (.array []))
    | frames, t => stepValue frames t
  | .firstName =>
    match r.frames, t with
    | .object _ _ :: frames, .closeObject => some (deliver frames (.object []))
    | frames, t => stepName frames t
  | .name => stepName r.frames t
  | .colon => if t = .colon then some ⟨r.frames, .value⟩ else none
  | .after v => stepAfter v r.frames t

/-- The value, if the text may end here. -/
def result? (r : Reader) : Option Json :=
  match r.frames, r.awaiting with
  | [], .after v => some v
  | _, _ => none

/-- Reads a text to its end. -/
def run (r : Reader) (s : List Char) : Option Json :=
  match _hs : s.dropWhile isJsonBlank with
  | [] => r.result?
  | c :: s' =>
    match _ht : Token.next? (c :: s') with
    | none => none
    | some (t, rest) =>
      match r.step t with
      | none => none
      | some r' => run r' rest
termination_by s.length
decreasing_by
  have h₁ := Token.next?_length _ht
  have h₂ := (List.dropWhile_sublist isJsonBlank (l := s)).length_le
  rw [_hs] at h₂
  omega

end Reader

/-- The value that a text spells, if it is JSON. -/
def Json.ofText? (text : String) : Option Json := Reader.start.run text.toList

end PonziScreen
