import Mathlib.Data.List.Forall2
import PonziScreen.Json.Reader
import PonziScreen.Json.Writer

/-!
# How JSON is spelled

A value of JSON has many spellings. White space may stand around its tokens, a character of a string
may be written by itself, by a short escape or by its number, and an exponent may have a plus sign
and zeros in front. The value itself determines nothing but the tokens (`Json.tokens`).
`Json.SpelledBy` says that a text spells a value.

The relation follows the grammar of JSON from the bottom up: pieces of strings, numerals, tokens,
texts. It does not mention the reader, which accepts every spelling, nor the writer, which produces
one of them.
-/

namespace PonziScreen

/-! ## Strings -/

/-- A piece of a string: a character, or a unit of 16 bits that is written by its number. -/
inductive Piece where
  | char (c : Char)
  | unit (u : Nat)
deriving Repr, DecidableEq

/-- The first half of a surrogate pair. -/
def IsHighHalf (u : Nat) : Prop := 0xD800 ≤ u ∧ u < 0xDC00

/-- The second half of a surrogate pair. -/
def IsLowHalf (u : Nat) : Prop := 0xDC00 ≤ u ∧ u < 0xE000

instance : DecidablePred IsHighHalf :=
  fun u => inferInstanceAs (Decidable (0xD800 ≤ u ∧ u < 0xDC00))

instance : DecidablePred IsLowHalf :=
  fun u => inferInstanceAs (Decidable (0xDC00 ≤ u ∧ u < 0xE000))

/-- The character that a surrogate pair stands for. -/
def pairChar (high low : Nat) : Char :=
  Char.ofNat (0x10000 + (high - 0xD800) * 0x400 + (low - 0xDC00))

/-- The text of a string that consists of some pieces. Half of a surrogate pair has no text without
the other half. -/
def Piece.textOf? : List Piece → Option (List Char)
  | [] => some []
  | .char c :: rest => (textOf? rest).map (c :: ·)
  | .unit u :: rest =>
    if IsHighHalf u then
      match rest with
      | .unit v :: rest => if IsLowHalf v then (textOf? rest).map (pairChar u v :: ·) else none
      | _ => none
    else if IsLowHalf u then none
    else (textOf? rest).map (Char.ofNat u :: ·)

/-- The letters of short escapes with the characters that they stand for. -/
def shortEscapes : List (Char × Char) :=
  [('"', '"'), ('\\', '\\'), ('/', '/'), ('b', '\x08'), ('f', '\x0c'), ('n', '\n'), ('r', '\r'),
    ('t', '\t')]

/-- A hexadecimal digit is written in either case. -/
def HexSpelled (n : Nat) (c : Char) : Prop := c = hexDigit n ∨ c = (hexDigit n).toUpper

/-- A piece of a string is spelled by some characters. -/
inductive Piece.Spelled : Piece → List Char → Prop
  | plain {c : Char} (hquote : c ≠ '"') (hbackslash : c ≠ '\\') (hcontrol : 0x20 ≤ c.toNat) :
    Spelled (.char c) [c]
  | short {e c : Char} (h : (e, c) ∈ shortEscapes) : Spelled (.char c) ['\\', e]
  | unit {u : Nat} {a b c d : Char} (hu : u < 0x10000) (ha : HexSpelled (u / 0x1000) a)
    (hb : HexSpelled (u / 0x100 % 0x10) b) (hc : HexSpelled (u / 0x10 % 0x10) c)
    (hd : HexSpelled (u % 0x10) d) : Spelled (.unit u) ['\\', 'u', a, b, c, d]

/-- A string, with its quotes. -/
def StringSpelled (text : Option String) (cs : List Char) : Prop :=
  ∃ (pieces : List Piece) (parts : List (List Char)), List.Forall₂ Piece.Spelled pieces parts ∧
    text = (Piece.textOf? pieces).map String.ofList ∧ cs = '"' :: (parts.flatten ++ ['"'])

/-! ## Numbers -/

/-- Digits as characters. -/
def digitChars (ds : List (Fin 10)) : List Char := ds.map fun d : Fin 10 => hexDigit d.val

/-- The sign of a number. -/
def signChars (negative : Bool) : List Char := if negative then ['-'] else []

/-- An exponent, with any number of zeros in front. -/
inductive ExponentSpelled : Int → List Char → Prop
  | unsigned {e : Char} {ds : List (Fin 10)} (he : e = 'e' ∨ e = 'E') (hds : ds ≠ []) :
    ExponentSpelled (ofDigits ds) (e :: digitChars ds)
  | plus {e : Char} {ds : List (Fin 10)} (he : e = 'e' ∨ e = 'E') (hds : ds ≠ []) :
    ExponentSpelled (ofDigits ds) (e :: '+' :: digitChars ds)
  | minus {e : Char} {ds : List (Fin 10)} (he : e = 'e' ∨ e = 'E') (hds : ds ≠ []) :
    ExponentSpelled (-ofDigits ds) (e :: '-' :: digitChars ds)

/-- A number. One with a fraction and without an exponent has the exponent zero. -/
inductive Numeral.Spelled : Numeral → List Char → Prop
  | whole (negative : Bool) (d : Nat) :
    Spelled (.whole negative d) (signChars negative ++ Nat.toDigits 10 d)
  | fraction (negative : Bool) (d : Nat) {f : List (Fin 10)} (hf : f ≠ []) :
    Spelled (.scaled negative d f 0)
      (signChars negative ++ Nat.toDigits 10 d ++ '.' :: digitChars f)
  | exponent (negative : Bool) (d : Nat) {e : Int} {cs : List Char} (h : ExponentSpelled e cs) :
    Spelled (.scaled negative d [] e) (signChars negative ++ Nat.toDigits 10 d ++ cs)
  | both (negative : Bool) (d : Nat) {f : List (Fin 10)} (hf : f ≠ []) {e : Int} {cs : List Char}
    (h : ExponentSpelled e cs) :
    Spelled (.scaled negative d f e)
      (signChars negative ++ Nat.toDigits 10 d ++ '.' :: digitChars f ++ cs)

/-! ## Tokens -/

/-- A token. -/
inductive Token.Spelled : Token → List Char → Prop
  | openArray : Spelled .openArray ['[']
  | closeArray : Spelled .closeArray [']']
  | openObject : Spelled .openObject ['{']
  | closeObject : Spelled .closeObject ['}']
  | comma : Spelled .comma [',']
  | colon : Spelled .colon [':']
  | null : Spelled .null ['n', 'u', 'l', 'l']
  | yes : Spelled (.bool true) ['t', 'r', 'u', 'e']
  | no : Spelled (.bool false) ['f', 'a', 'l', 's', 'e']
  | number {n : Numeral} {cs : List Char} (h : n.Spelled cs) : Spelled (.number n) cs
  | text {t : Option String} {cs : List Char} (h : StringSpelled t cs) : Spelled (.text t) cs

/-- Nothing but white space. -/
def Blank (cs : List Char) : Prop := ∀ c ∈ cs, c = ' ' ∨ c = '\t' ∨ c = '\n' ∨ c = '\r'

/-- A text spells some tokens, with white space around them. -/
inductive TokensSpelled : List Token → List Char → Prop
  | done {blanks : List Char} (h : Blank blanks) : TokensSpelled [] blanks
  | token {blanks cs rest : List Char} {t : Token} {ts : List Token} (hblanks : Blank blanks)
    (ht : t.Spelled cs) (hrest : TokensSpelled ts rest) :
    TokensSpelled (t :: ts) (blanks ++ (cs ++ rest))

/-! ## Values -/

/-- Lists of tokens with a comma between neighbours. -/
def commaTokens : List (List Token) → List Token
  | [] => []
  | [ts] => ts
  | ts :: rest => ts ++ .comma :: commaTokens rest

/-- The tokens of a value. -/
def Json.tokens : Json → List Token
  | .null => [.null]
  | .bool b => [.bool b]
  | .number n => [.number n]
  | .text t => [.text t]
  | .array items =>
    .openArray :: (commaTokens (items.attach.map fun j => j.1.tokens) ++ [.closeArray])
  | .object members =>
    .openObject :: (commaTokens (members.attach.map fun m =>
      .text m.1.1 :: .colon :: m.1.2.tokens) ++ [.closeObject])
termination_by j => sizeOf j
decreasing_by
  · have := List.sizeOf_lt_of_mem j.2
    simp
    omega
  · have h₁ := List.sizeOf_lt_of_mem m.2
    have h₂ : sizeOf m.1.2 < sizeOf m.1 := by
      cases m.1
      simp only [Prod.mk.sizeOf_spec]
      omega
    simp
    omega

theorem Json.tokens_array (items : List Json) :
    (Json.array items).tokens
      = .openArray :: (commaTokens (items.map Json.tokens) ++ [.closeArray]) := by
  rw [tokens, List.attach_map_val]

theorem Json.tokens_object (members : List (Option String × Json)) :
    (Json.object members).tokens
      = .openObject :: (commaTokens (members.map fun m => .text m.1 :: .colon :: m.2.tokens)
          ++ [.closeObject]) := by
  rw [tokens, ← List.attach_map_val (f := fun m : Option String × Json =>
    Token.text m.1 :: Token.colon :: m.2.tokens)]

/-- A text spells a value. -/
def Json.SpelledBy (j : Json) (text : String) : Prop := TokensSpelled j.tokens text.toList

/-- What holds of every value if it holds of an array whenever it holds of the items, and of an
object whenever it holds of the values of the members. -/
theorem Json.induction {motive : Json → Prop} (null : motive .null)
    (bool : ∀ b, motive (.bool b)) (number : ∀ n, motive (.number n))
    (text : ∀ t, motive (.text t))
    (array : ∀ items, (∀ j ∈ items, motive j) → motive (.array items))
    (object : ∀ members, (∀ m ∈ members, motive m.2) → motive (.object members)) :
    ∀ j, motive j :=
  @Json.rec motive (fun items => ∀ j ∈ items, motive j)
    (fun members => ∀ m ∈ members, motive m.2) (fun m => motive m.2)
    null bool number text array object
    (List.forall_mem_nil _) (fun _ _ hj hjs => List.forall_mem_cons.mpr ⟨hj, hjs⟩)
    (List.forall_mem_nil _) (fun _ _ hm hms => List.forall_mem_cons.mpr ⟨hm, hms⟩)
    (fun _ _ hj => hj)

end PonziScreen
