import Mathlib.Data.Fintype.Basic
import Mathlib.Data.List.TakeWhile
import Mathlib.Data.Nat.Digits.Defs
import Mathlib.Tactic.FinCases
import PonziScreen.Proofs.JsonSpelling

/-!
# The reader reads every spelling

`Json.ofText?_of_spelledBy`: a text that spells a value is read as that value. The proof has two
halves, which meet at the tokens.

* The tokenizer cuts the tokens off the text (`Token.next?_of_spelled`). Only a number needs to know
  what follows it; no token but a comma or a closing bracket can follow a number, and white space
  and these end one (`TokensSpelled.ends_number`).
* The machine, moved by the tokens of a value, delivers the value (`Reader.foldlM_tokens`).
-/

namespace PonziScreen

/-! ## Strings -/

namespace Quoted

/-- Reads one piece of a string. -/
def add (q : Quoted) : Piece → Quoted
  | .char c => q.push c
  | .unit u => q.pushUnit u

theorem read_add_of_lost {q : Quoted} (hq : q.read = none) (p : Piece) : (q.add p).read = none := by
  obtain ⟨read, pending⟩ := q
  obtain rfl : read = none := hq
  cases p with
  | char c => cases pending <;> rfl
  | unit u =>
    cases pending with
    | none =>
      simp only [add, pushUnit]
      split
      · rfl
      · split <;> rfl
    | some high =>
      simp only [add, pushUnit]
      split <;> rfl

/-- A string that has lost its text does not get it back. -/
theorem text?_foldl_add_lost (pieces : List Piece) :
    ∀ {q : Quoted}, q.read = none → (pieces.foldl add q).text? = none := by
  induction pieces with
  | nil =>
    rintro ⟨read, pending⟩ rfl
    cases pending <;> rfl
  | cons p rest ih => exact fun hq => ih (read_add_of_lost hq p)

/-- Reading pieces one after the other gives the text that they have together. -/
theorem text?_foldl_add (pieces : List Piece) (read : List Char) :
    (pieces.foldl add ⟨some read, none⟩).text?
      = (Piece.textOf? pieces).map fun cs => String.ofList (read.reverse ++ cs) := by
  fun_induction Piece.textOf? pieces generalizing read with
  | case1 => simp [text?]
  | case2 c rest ih => simp [add, push, ih, Function.comp_def]
  | case3 u hu v rest hv ih =>
    -- both halves of a pair
    simp [add, pushUnit, hu.1, hu.2, hv.1, hv.2, ih, pairChar, Function.comp_def]
  | case4 u hu v rest hv =>
    -- a first half and a unit that is no second half
    rw [IsLowHalf] at hv
    simp [add, pushUnit, hu.1, hu.2, hv, text?_foldl_add_lost]
  | case5 u rest hu hrest =>
    -- a first half at the end or in front of a character
    cases rest with
    | nil => simp [add, pushUnit, hu.1, hu.2, text?]
    | cons p rest =>
      cases p with
      | char c => simp [add, pushUnit, push, hu.1, hu.2, text?_foldl_add_lost]
      | unit v => exact absurd rfl (hrest v rest)
  | case6 u rest hu hu' =>
    -- a second half without a first
    rw [IsHighHalf] at hu
    simp [add, pushUnit, hu, hu'.1, hu'.2, text?_foldl_add_lost]
  | case7 u rest hu hu' ih =>
    rw [IsHighHalf] at hu
    rw [IsLowHalf] at hu'
    simp [add, pushUnit, hu, hu', ih, Function.comp_def]

end Quoted

theorem hexDigit?_of_hexSpelled {n : Nat} {c : Char} (hn : n < 16) (h : HexSpelled n c) :
    hexDigit? c = some n := by
  have hall : ∀ m < 16, hexDigit? (hexDigit m) = some m
      ∧ hexDigit? (hexDigit m).toUpper = some m := by decide
  obtain rfl | rfl := h
  · exact (hall n hn).1
  · exact (hall n hn).2

/-- Four hexadecimal digits are read as the unit that they spell. -/
theorem hexUnit?_of_hexSpelled {u : Nat} {a b c d : Char} (hu : u < 0x10000)
    (ha : HexSpelled (u / 0x1000) a) (hb : HexSpelled (u / 0x100 % 0x10) b)
    (hc : HexSpelled (u / 0x10 % 0x10) c) (hd : HexSpelled (u % 0x10) d) :
    hexUnit? a b c d = some u := by
  have hsum : ((u / 0x1000 * 16 + u / 0x100 % 0x10) * 16 + u / 0x10 % 0x10) * 16 + u % 0x10
      = u := by
    omega
  simp only [hexUnit?, hexDigit?_of_hexSpelled (by omega) ha,
    hexDigit?_of_hexSpelled (Nat.mod_lt _ (by decide)) hb,
    hexDigit?_of_hexSpelled (Nat.mod_lt _ (by decide)) hc,
    hexDigit?_of_hexSpelled (Nat.mod_lt _ (by decide)) hd,
    Option.bind_eq_bind, Option.bind_some, Option.pure_def, hsum]

/-- Short escapes are read as they are listed, and the letter of a numeric escape is none. -/
theorem shortEscape?_of_mem {e c : Char} (h : (e, c) ∈ shortEscapes) :
    shortEscape? e = some c ∧ e ≠ 'u' := by
  have hall : ∀ p ∈ shortEscapes, shortEscape? p.1 = some p.2 ∧ p.1 ≠ 'u' := by decide
  exact hall _ h

/-- A piece at the front of a string is read whole. -/
theorem quoted_of_spelled {p : Piece} {cs : List Char} (h : p.Spelled cs) (q : Quoted)
    (rest : List Char) : quoted q (cs ++ rest) = quoted (q.add p) rest := by
  cases h with
  | plain hquote hbackslash hcontrol =>
    rw [List.singleton_append, quoted.eq_5 _ _ _ hquote (fun _ _ _ _ _ h _ => hbackslash h)
      (fun _ _ h _ => hbackslash h), if_neg (by omega)]
    rfl
  | short h =>
    obtain ⟨he, hne⟩ := shortEscape?_of_mem h
    rw [List.cons_append, List.singleton_append, quoted.eq_4 _ _ _ (fun _ _ _ _ _ h _ => hne h), he]
    rfl
  | unit hu ha hb hc hd =>
    simp only [List.cons_append, List.nil_append]
    rw [quoted, hexUnit?_of_hexSpelled hu ha hb hc hd]
    rfl

/-- The pieces of a string are read up to its closing quote. -/
theorem quoted_of_pieces {pieces : List Piece} {parts : List (List Char)}
    (h : List.Forall₂ Piece.Spelled pieces parts) (rest : List Char) :
    ∀ q, quoted q (parts.flatten ++ '"' :: rest)
      = some ((pieces.foldl Quoted.add q).text?, rest) := by
  induction h with
  | nil => intro q; rw [List.flatten_nil, List.nil_append, quoted]; rfl
  | cons hp _ ih =>
    intro q
    rw [List.flatten_cons, List.append_assoc, quoted_of_spelled hp, ih, List.foldl_cons]

/-- The rest of a spelled string is read as its text. -/
theorem quoted_of_stringSpelled {t : Option String} {cs : List Char} (h : StringSpelled t cs)
    (rest : List Char) :
    ∃ body, cs = '"' :: body ∧ quoted .empty (body ++ rest) = some (t, rest) := by
  obtain ⟨pieces, parts, hparts, rfl, rfl⟩ := h
  refine ⟨_, rfl, ?_⟩
  rw [List.append_assoc, List.singleton_append, quoted_of_pieces hparts, Quoted.empty,
    Quoted.text?_foldl_add]
  simp

/-! ## Numbers -/

@[simp] theorem decimalDigit?_hexDigit (d : Fin 10) : decimalDigit? (hexDigit d.val) = some d := by
  revert d
  decide

@[simp] theorem ofDigits_append_singleton (ds : List (Fin 10)) (d : Fin 10) :
    ofDigits (ds ++ [d]) = ofDigits ds * 10 + d.val := by
  simp [ofDigits]

@[simp] theorem digitChars_append (ds es : List (Fin 10)) :
    digitChars (ds ++ es) = digitChars ds ++ digitChars es := List.map_append

/-- A text does not go on with a digit. -/
def EndsDigits (rest : List Char) : Prop := ∀ c ∈ rest.head?, decimalDigit? c = none

/-- All digits at the front of a text are read. -/
theorem digits_digitChars (ds : List (Fin 10)) {rest : List Char} (hrest : EndsDigits rest) :
    digits (digitChars ds ++ rest) = (ds, rest) := by
  induction ds with
  | nil =>
    cases rest with
    | nil => rfl
    | cons c rest => simp [digitChars, digits, hrest c rfl]
  | cons d ds ih =>
    show digits (hexDigit d.val :: (digitChars ds ++ rest)) = _
    simp [digits, ih]

theorem ne_nil_of_isIntegerPart {ds : List (Fin 10)} (h : isIntegerPart ds = true) : ds ≠ [] := by
  rintro rfl
  cases h

/-- Digits without a zero in front are the digits of an integer part. -/
theorem isIntegerPart_of_head? {ds : List (Fin 10)} (hne : ds ≠ []) (hzero : ds.head? ≠ some 0) :
    isIntegerPart ds = true := by
  obtain ⟨d, ds, rfl⟩ := List.exists_cons_of_ne_nil hne
  have hd : d ≠ 0 := fun h => hzero (congrArg some h)
  unfold isIntegerPart
  split
  · simp_all
  · simp_all
  · rfl

/-- The decimal digits of a number, most significant first. -/
theorem exists_toDigits (n : Nat) : ∃ ds, Nat.toDigits 10 n = digitChars ds ∧
    isIntegerPart ds = true ∧ ofDigits ds = n ∧ (0 < n → ds.head? ≠ some 0) := by
  have hchar : ∀ d : Fin 10, Nat.digitChar d.val = hexDigit d.val := by decide
  induction n using Nat.strong_induction_on with
  | _ n ih =>
    by_cases hn : n < 10
    · refine ⟨[⟨n, hn⟩], ?_, ?_, by simp [ofDigits], ?_⟩
      · rw [Nat.toDigits_of_lt_base hn, hchar ⟨n, hn⟩]
        rfl
      · cases n <;> rfl
      · intro hpos h
        simp only [List.head?_cons, Option.some.injEq, Fin.ext_iff] at h
        exact hpos.ne' h
    · obtain ⟨ds, hds, hpart, hval, hhead⟩ := ih (n / 10) (by omega)
      have hne := ne_nil_of_isIntegerPart hpart
      let d : Fin 10 := ⟨n % 10, Nat.mod_lt _ (by decide)⟩
      have hlead : (ds ++ [d]).head? ≠ some 0 := by
        rw [List.head?_append_of_ne_nil _ hne]
        exact hhead (by omega)
      refine ⟨ds ++ [d], ?_, isIntegerPart_of_head? (by simp) hlead, ?_, fun _ => hlead⟩
      · rw [Nat.toDigits_of_base_le (by decide) (by omega), hds, digitChars_append]
        exact congrArg (digitChars ds ++ [·]) (hchar d)
      · rw [ofDigits_append_singleton, hval]
        exact Nat.div_add_mod' n 10

/-- A text does not go on with anything that could belong to a number. -/
def EndsNumber (rest : List Char) : Prop :=
  ∀ c ∈ rest.head?, decimalDigit? c = none ∧ c ≠ '.' ∧ c ≠ 'e' ∧ c ≠ 'E'

theorem EndsNumber.endsDigits {rest : List Char} (h : EndsNumber rest) : EndsDigits rest :=
  fun c hc => (h c hc).1

theorem endsDigits_cons {c : Char} (hc : decimalDigit? c = none) (rest : List Char) :
    EndsDigits (c :: rest) := by
  rintro _ ⟨⟩
  exact hc

theorem fraction?_of_ne {rest : List Char} (h : ∀ c ∈ rest.head?, c ≠ '.') :
    fraction? rest = some (none, rest) := by
  rw [fraction?.eq_2]
  rintro s rfl
  exact h _ rfl rfl

theorem fraction?_digitChars {f : List (Fin 10)} (hf : f ≠ []) {rest : List Char}
    (hrest : EndsDigits rest) :
    fraction? ('.' :: (digitChars f ++ rest)) = some (some f, rest) := by
  rw [fraction?, digits_digitChars f hrest, if_neg hf]

theorem exponent?_of_ne {rest : List Char} (h : ∀ c ∈ rest.head?, c ≠ 'e' ∧ c ≠ 'E') :
    exponent? rest = some (none, rest) := by
  cases rest with
  | nil => rfl
  | cons c rest => simp [exponent?, h c rfl]

theorem exponentDigits?_digitChars (negative : Bool) {ds : List (Fin 10)} (hds : ds ≠ [])
    {rest : List Char} (hrest : EndsDigits rest) :
    exponentDigits? negative (digitChars ds ++ rest)
      = some (some (if negative then -(ofDigits ds : Int) else ofDigits ds), rest) := by
  rw [exponentDigits?, digits_digitChars ds hrest, if_neg hds]

/-- An exponent begins with its letter, so it ends the digits in front of it and is no fraction. -/
theorem ExponentSpelled.ends {e : Int} {cs : List Char} (h : ExponentSpelled e cs)
    (rest : List Char) : EndsDigits (cs ++ rest) ∧ ∀ c ∈ (cs ++ rest).head?, c ≠ '.' := by
  have hcons : ∃ c cs', cs = c :: cs' ∧ (c = 'e' ∨ c = 'E') := by
    cases h with
    | unsigned he | plus he | minus he => exact ⟨_, _, rfl, he⟩
  obtain ⟨c, cs, rfl, hc⟩ := hcons
  refine ⟨endsDigits_cons ?_ _, ?_⟩
  · obtain rfl | rfl := hc <;> decide
  · rintro _ ⟨⟩
    obtain rfl | rfl := hc <;> decide

/-- An exponent is read in each of its forms. -/
theorem exponent?_of_spelled {e : Int} {cs : List Char} (h : ExponentSpelled e cs)
    {rest : List Char} (hrest : EndsDigits rest) :
    exponent? (cs ++ rest) = some (some e, rest) := by
  cases h with
  | @unsigned c ds he hds =>
    have hsigns : ∀ d : Fin 10, hexDigit d.val ≠ '-' ∧ hexDigit d.val ≠ '+' := by decide
    have hread := exponentDigits?_digitChars false hds hrest
    obtain ⟨d, ds, rfl⟩ := List.exists_cons_of_ne_nil hds
    obtain rfl | rfl := he <;>
      simpa [exponent?, digitChars, hsigns d] using hread
  | plus he hds =>
    obtain rfl | rfl := he <;> exact exponentDigits?_digitChars false hds hrest
  | minus he hds =>
    obtain rfl | rfl := he <;> exact exponentDigits?_digitChars true hds hrest

/-- A number without its sign, when its parts are read one after the other. -/
theorem unsigned?_toDigits (negative : Bool) (d : Nat) {s s' rest : List Char}
    {f : Option (List (Fin 10))} {e : Option Int} (hs : EndsDigits s)
    (hf : fraction? s = some (f, s')) (he : exponent? s' = some (e, rest)) :
    unsigned? negative (Nat.toDigits 10 d ++ s) = some (match f, e with
      | none, none => .whole negative d
      | _, _ => .scaled negative d (f.getD []) (e.getD 0), rest) := by
  obtain ⟨ds, hds, hpart, rfl, -⟩ := exists_toDigits d
  rw [hds, unsigned?, digits_digitChars ds hs, if_pos hpart]
  simp only [hf, he, Option.bind_eq_bind, Option.bind_some]
  cases f <;> cases e <;> rfl

/-- The decimal digits of a number begin with a digit. -/
theorem toDigits_eq_cons (d : Nat) :
    ∃ (e : Fin 10) (cs : List Char), Nat.toDigits 10 d = hexDigit e.val :: cs := by
  obtain ⟨ds, hds, hpart, -, -⟩ := exists_toDigits d
  obtain ⟨e, es, rfl⟩ := List.exists_cons_of_ne_nil (ne_nil_of_isIntegerPart hpart)
  exact ⟨e, digitChars es, hds⟩

theorem numeral?_signChars (negative : Bool) (d : Nat) (s : List Char) :
    numeral? (signChars negative ++ Nat.toDigits 10 d ++ s)
      = unsigned? negative (Nat.toDigits 10 d ++ s) := by
  cases negative with
  | true => rfl
  | false =>
    have hsign : ∀ e : Fin 10, hexDigit e.val ≠ '-' := by decide
    obtain ⟨e, cs, hcs⟩ := toDigits_eq_cons d
    simp [signChars, hcs, numeral?, hsign e]

/-- A number is read whole, if nothing follows that could belong to it. -/
theorem numeral?_of_spelled {n : Numeral} {cs : List Char} (h : n.Spelled cs) {rest : List Char}
    (hrest : EndsNumber rest) : numeral? (cs ++ rest) = some (n, rest) := by
  have hpoint := fraction?_of_ne fun c hc => (hrest c hc).2.1
  have hexponent := exponent?_of_ne fun c hc => (hrest c hc).2.2
  cases h with
  | whole negative d =>
    rw [numeral?_signChars, unsigned?_toDigits negative d hrest.endsDigits hpoint hexponent]
  | fraction negative d hf =>
    rw [List.append_assoc, numeral?_signChars, List.cons_append,
      unsigned?_toDigits negative d (endsDigits_cons (by decide) _)
        (fraction?_digitChars hf hrest.endsDigits) hexponent]
    rfl
  | exponent negative d he =>
    obtain ⟨hdigits, hpoint⟩ := he.ends rest
    rw [List.append_assoc, numeral?_signChars, unsigned?_toDigits negative d hdigits
      (fraction?_of_ne hpoint) (exponent?_of_spelled he hrest.endsDigits)]
    rfl
  | both negative d hf he =>
    rw [List.append_assoc, List.append_assoc, numeral?_signChars, List.cons_append,
      unsigned?_toDigits negative d (endsDigits_cons (by decide) _)
        (fraction?_digitChars hf (he.ends rest).1) (exponent?_of_spelled he hrest.endsDigits)]
    rfl

/-! ## Tokens -/

/-- A number begins with a minus sign or with a digit. -/
theorem Numeral.Spelled.eq_cons {n : Numeral} {cs : List Char} (h : n.Spelled cs) :
    ∃ c cs', cs = c :: cs' ∧ (c = '-' ∨ ∃ d : Fin 10, c = hexDigit d.val) := by
  have hfront : ∀ negative d tail, ∃ c cs',
      signChars negative ++ Nat.toDigits 10 d ++ tail = c :: cs' ∧
        (c = '-' ∨ ∃ e : Fin 10, c = hexDigit e.val) := by
    intro negative d tail
    obtain ⟨e, es, hes⟩ := toDigits_eq_cons d
    cases negative with
    | true => exact ⟨'-', _, rfl, .inl rfl⟩
    | false => exact ⟨hexDigit e.val, es ++ tail, by simp [signChars, hes], .inr ⟨e, rfl⟩⟩
  cases h with
  | whole negative d => simpa using hfront negative d []
  | fraction negative d => exact hfront negative d _
  | exponent negative d => exact hfront negative d _
  | both negative d =>
    rw [List.append_assoc]
    exact hfront negative d _

/-- A token begins with a character that is not white space. -/
theorem Token.Spelled.eq_cons {t : Token} {cs : List Char} (h : t.Spelled cs) :
    ∃ c cs', cs = c :: cs' ∧ isJsonBlank c = false := by
  cases h with
  | number h =>
    have hdigits : ∀ d : Fin 10, isJsonBlank (hexDigit d.val) = false := by decide
    obtain ⟨c, cs, rfl, rfl | ⟨d, rfl⟩⟩ := h.eq_cons
    · exact ⟨_, _, rfl, rfl⟩
    · exact ⟨_, _, rfl, hdigits d⟩
  | text h =>
    obtain ⟨pieces, parts, -, -, rfl⟩ := h
    exact ⟨_, _, rfl, rfl⟩
  | _ => exact ⟨_, _, rfl, rfl⟩

/-- Where a minus sign or a digit stands, a number is read. -/
theorem Token.next?_number {c : Char} (hc : c = '-' ∨ ∃ d : Fin 10, c = hexDigit d.val)
    (s : List Char) :
    Token.next? (c :: s) = (numeral? (c :: s)).map fun n => (.number n.1, n.2) := by
  obtain rfl | ⟨d, rfl⟩ := hc
  · rfl
  · fin_cases d <;> rfl

/-- A token at the front of a text is cut off. A number has to end there. -/
theorem Token.next?_of_spelled {t : Token} {cs : List Char} (h : t.Spelled cs) {rest : List Char}
    (hrest : ∀ n, t = .number n → EndsNumber rest) :
    Token.next? (cs ++ rest) = some (t, rest) := by
  cases h with
  | @number n _ h =>
    obtain ⟨c, cs, rfl, hc⟩ := h.eq_cons
    have hread := numeral?_of_spelled h (hrest n rfl)
    rw [List.cons_append] at hread ⊢
    rw [Token.next?_number hc, hread]
    rfl
  | text h =>
    obtain ⟨body, rfl, hread⟩ := quoted_of_stringSpelled h rest
    rw [List.cons_append, Token.next?, hread]
    rfl
  | _ => rfl

theorem isJsonBlank_of_blank {blanks : List Char} (h : Blank blanks) :
    ∀ c ∈ blanks, isJsonBlank c = true := by
  intro c hc
  simpa [isJsonBlank, or_assoc] using h c hc

/-- White space, a comma or a closing bracket ends a number. -/
theorem TokensSpelled.ends_number {ts : List Token} {cs : List Char} (h : TokensSpelled ts cs)
    (hts : ∀ t ∈ ts.head?, t = .comma ∨ t = .closeArray ∨ t = .closeObject) : EndsNumber cs := by
  have hblank : ∀ b blanks rest, Blank (b :: blanks) → EndsNumber (b :: rest) := by
    rintro b blanks rest hb _ ⟨⟩
    obtain rfl | rfl | rfl | rfl := hb b List.mem_cons_self <;> decide
  cases h with
  | done hb =>
    cases cs with
    | nil => rintro _ ⟨⟩
    | cons b blanks => exact hblank b blanks _ hb
  | @token blanks cs rest t ts hb ht _ =>
    cases blanks with
    | cons b blanks => exact hblank b blanks _ hb
    | nil =>
      obtain rfl | rfl | rfl := hts t rfl <;> cases ht <;> rintro _ ⟨⟩ <;> decide

/-! ## The machine -/

namespace Reader

/-- After a value nothing may come but a comma or a closing bracket. -/
theorem stepAfter_eq_some {v : Json} {frames : List Frame} {t : Token} {r : Reader}
    (h : stepAfter v frames t = some r) : t = .comma ∨ t = .closeArray ∨ t = .closeObject := by
  unfold stepAfter at h
  split at h <;> simp at h ⊢

/-- After a number the reader holds a complete value. -/
theorem awaiting_of_step_number {r r' : Reader} {n : Numeral} (h : r.step (.number n) = some r') :
    r'.awaiting = .after (.number n) := by
  obtain ⟨frames, awaiting⟩ := r
  cases awaiting with
  | value => cases h; rfl
  | firstItem =>
    simp only [step, stepValue, Option.some.injEq] at h
    rw [← h]
    rfl
  | firstName => simp [step, stepName] at h
  | name => simp [step, stepName] at h
  | colon => simp [step] at h
  | after v => simpa using stepAfter_eq_some h

/-- Reading goes token by token, past white space. -/
theorem run_eq (r : Reader) (s : List Char) :
    r.run s = if s.dropWhile isJsonBlank = [] then r.result? else
      (Token.next? (s.dropWhile isJsonBlank)).bind fun p =>
        (r.step p.1).bind fun r' => r'.run p.2 := by
  rw [run.eq_def]
  split
  · rename_i h
    rw [if_pos h]
  · rename_i c s' h
    rw [if_neg (by rw [h]; exact List.cons_ne_nil _ _), h]
    split
    · rename_i hnext
      rw [hnext]
      rfl
    · rename_i t rest hnext
      rw [hnext, Option.bind_some]
      cases r.step t <;> rfl

/-- White space at the front of a text is skipped. -/
theorem run_append_blank (r : Reader) {blanks : List Char} (h : Blank blanks) (s : List Char) :
    r.run (blanks ++ s) = r.run s := by
  rw [run_eq, run_eq r s, List.dropWhile_append_of_pos (isJsonBlank_of_blank h)]

/-- One token at the front of a text moves the reader by one step. -/
theorem run_append_token {r r' : Reader} {t : Token} {cs rest : List Char} (ht : t.Spelled cs)
    (hrest : ∀ n, t = .number n → EndsNumber rest) (hr : r.step t = some r') :
    r.run (cs ++ rest) = r'.run rest := by
  have hnext := Token.next?_of_spelled ht hrest
  obtain ⟨c, cs, rfl, hc⟩ := ht.eq_cons
  have hdrop : (c :: cs ++ rest).dropWhile isJsonBlank = c :: cs ++ rest := by
    rw [List.cons_append, List.dropWhile_cons_of_neg (by simp [hc])]
  rw [run_eq, hdrop, if_neg (by simp), hnext, Option.bind_some, hr, Option.bind_some]

/-- A text that spells tokens which the machine accepts is read to its end. -/
theorem run_of_tokensSpelled {ts : List Token} {cs : List Char} (h : TokensSpelled ts cs) :
    ∀ {r r' : Reader}, ts.foldlM step r = some r' → r.run cs = r'.result? := by
  induction h with
  | @done blanks hb =>
    intro r r' hr
    cases hr
    rw [run_eq, if_pos]
    exact List.dropWhile_eq_nil_iff.mpr (isJsonBlank_of_blank hb)
  | @token blanks cs rest t ts hb ht hrest ih =>
    intro r r' hr
    rw [List.foldlM_cons, Option.bind_eq_bind, Option.bind_eq_some_iff] at hr
    obtain ⟨r₁, hr₁, hr⟩ := hr
    rw [run_append_blank r hb, run_append_token ht _ hr₁, ih hr]
    rintro n rfl
    refine hrest.ends_number fun t ht => ?_
    -- The next token is accepted after a number, so it is a comma or closes a container.
    obtain ⟨ts, rfl⟩ := List.head?_eq_some_iff.mp ht
    rw [List.foldlM_cons, Option.bind_eq_bind, Option.bind_eq_some_iff] at hr
    obtain ⟨r₂, hr₂, -⟩ := hr
    simp only [step, awaiting_of_step_number hr₁] at hr₂
    exact stepAfter_eq_some hr₂

/-- The tokens of a value move the reader from where it awaits the value to where it has it. -/
def Delivers (j : Json) : Prop :=
  ∀ frames, j.tokens.foldlM step ⟨frames, .value⟩ = some (deliver frames j)

/-- Items of an array, read after some others. -/
theorem foldlM_items {items : List Json} (hne : items ≠ []) (ih : ∀ j ∈ items, Delivers j)
    (read : List Json) (frames : List Frame) :
    (commaTokens (items.map Json.tokens) ++ [Token.closeArray]).foldlM step
        ⟨.array read :: frames, .value⟩
      = some (deliver frames (.array (read.reverse ++ items))) := by
  induction items generalizing read with
  | nil => exact absurd rfl hne
  | cons j rest ihrest =>
    have hj := ih j List.mem_cons_self (.array read :: frames)
    cases rest with
    | nil => simp [commaTokens, hj, step, deliver, stepAfter]
    | cons k rest =>
      have hrest := ihrest (List.cons_ne_nil _ _) (fun l hl => ih l (List.mem_cons_of_mem _ hl))
        (j :: read)
      simp only [List.map_cons, commaTokens, List.append_assoc, List.cons_append,
        List.foldlM_append, List.foldlM_cons, hj, Option.bind_eq_bind, Option.bind_some] at hrest ⊢
      simpa [step, deliver, stepAfter] using hrest

/-- Members of an object, read after some others. -/
theorem foldlM_members {members : List (Option String × Json)} (hne : members ≠ [])
    (ih : ∀ m ∈ members, Delivers m.2) (read : List (Option String × Json)) (name : Option String)
    (frames : List Frame) :
    (commaTokens (members.map fun m => .text m.1 :: .colon :: m.2.tokens)
        ++ [Token.closeObject]).foldlM step ⟨.object read name :: frames, .name⟩
      = some (deliver frames (.object (read.reverse ++ members))) := by
  induction members generalizing read name with
  | nil => exact absurd rfl hne
  | cons m rest ihrest =>
    have hm := ih m List.mem_cons_self (.object read m.1 :: frames)
    cases rest with
    | nil => simp [commaTokens, hm, step, deliver, stepName, stepAfter]
    | cons k rest =>
      have hrest := ihrest (List.cons_ne_nil _ _) (fun l hl => ih l (List.mem_cons_of_mem _ hl))
        (m :: read) none
      simp only [List.map_cons, commaTokens, List.append_assoc, List.cons_append,
        List.foldlM_append, List.foldlM_cons, Option.bind_eq_bind] at hrest ⊢
      simpa [step, deliver, stepName, stepAfter, hm] using hrest

theorem commaTokens_cons (ts : List Token) (rest : List (List Token)) :
    ∃ ts', commaTokens (ts :: rest) = ts ++ ts' := by
  cases rest with
  | nil => exact ⟨[], (List.append_nil _).symm⟩
  | cons => exact ⟨_, rfl⟩

/-- An array that has just been opened and is not closed at once awaits a value. -/
theorem foldlM_firstItem (j : Json) (ts : List Token) (frames : List Frame) :
    (j.tokens ++ ts).foldlM step ⟨frames, .firstItem⟩
      = (j.tokens ++ ts).foldlM step ⟨frames, .value⟩ := by
  cases j with
  | array items => simp [Json.tokens_array, step]
  | object members => simp [Json.tokens_object, step]
  | _ => simp [Json.tokens, step]

/-- An object that has just been opened and is not closed at once awaits a name. -/
theorem foldlM_firstName (name : Option String) (ts : List Token) (frames : List Frame) :
    (.text name :: ts).foldlM step ⟨frames, .firstName⟩
      = (.text name :: ts).foldlM step ⟨frames, .name⟩ := by
  simp [step]

/-- **The tokens of a value are read as the value.** -/
theorem delivers (j : Json) : Delivers j := by
  induction j using Json.induction with
  | array items ih =>
    intro frames
    rw [Json.tokens_array, List.foldlM_cons]
    cases items with
    | nil => simp [commaTokens, step, stepValue]
    | cons j rest =>
      have hitems := foldlM_items (List.cons_ne_nil j rest) ih [] frames
      obtain ⟨ts, hts⟩ := commaTokens_cons j.tokens (rest.map Json.tokens)
      simp only [step, stepValue, Option.bind_eq_bind, Option.bind_some]
      rw [List.map_cons, hts, List.append_assoc] at hitems ⊢
      rw [foldlM_firstItem, hitems, List.reverse_nil, List.nil_append]
  | object members ih =>
    intro frames
    rw [Json.tokens_object, List.foldlM_cons]
    cases members with
    | nil => simp [commaTokens, step, stepValue]
    | cons m rest =>
      have hmembers := foldlM_members (List.cons_ne_nil m rest) ih [] none frames
      obtain ⟨ts, hts⟩ := commaTokens_cons (.text m.1 :: .colon :: m.2.tokens)
        (rest.map fun m => .text m.1 :: .colon :: m.2.tokens)
      simp only [step, stepValue, Option.bind_eq_bind, Option.bind_some]
      rw [List.map_cons, hts, List.append_assoc, List.cons_append] at hmembers ⊢
      rw [foldlM_firstName, hmembers, List.reverse_nil, List.nil_append]
  | _ =>
    intro frames
    simp [Json.tokens, step, stepValue]

end Reader

/-- **Every spelling of a value is read as the value.** -/
theorem Json.ofText?_of_spelledBy {j : Json} {text : String} (h : j.SpelledBy text) :
    Json.ofText? text = some j :=
  Reader.run_of_tokensSpelled h (Reader.delivers j [])

end PonziScreen
