import PonziScreen.Proofs.JsonReading

/-!
# What is written can be read

The writer produces one of the spellings of a value (`Json.spelledBy_toText`), so the reader gives
the value back (`Json.ofText?_toText`). The proof goes up the grammar of `JsonSpelling`, one lemma
for each part of the writer.
-/

namespace PonziScreen

/-! ## Strings -/

/-- The piece as which a character is written: a control character by its number. -/
def Piece.ofChar (c : Char) : Piece := if c.toNat < 0x20 then .unit c.toNat else .char c

theorem Piece.ofChar_spelled (c : Char) : (Piece.ofChar c).Spelled (escaped c) := by
  by_cases hquote : c = '"'
  · subst hquote
    exact .short (by decide)
  by_cases hbackslash : c = '\\'
  · subst hbackslash
    exact .short (by decide)
  rw [escaped, if_neg hquote, if_neg hbackslash, ofChar]
  split
  · have h₁ : c.toNat / 0x1000 = 0 := by omega
    have h₂ : c.toNat / 0x100 % 0x10 = 0 := by omega
    have h₃ : c.toNat / 0x10 % 0x10 = c.toNat / 16 := by omega
    exact .unit (by omega) (.inl (by rw [h₁]; rfl)) (.inl (by rw [h₂]; rfl))
      (.inl (by rw [h₃])) (.inl rfl)
  · exact .plain hquote hbackslash (by omega)

theorem Piece.textOf?_map_ofChar (cs : List Char) :
    Piece.textOf? (cs.map Piece.ofChar) = some cs := by
  induction cs with
  | nil => rfl
  | cons c cs ih =>
    rw [List.map_cons, ofChar]
    split
    · have hhigh : ¬ IsHighHalf c.toNat := by
        rw [IsHighHalf]
        omega
      have hlow : ¬ IsLowHalf c.toNat := by
        rw [IsLowHalf]
        omega
      rw [textOf?.eq_def]
      simp [hhigh, hlow, ih]
    · simp [textOf?, ih]

/-- A string is spelled as it is written, also one that has no text. -/
theorem stringSpelled_writeText (t : Option String) : StringSpelled t (writeText t) := by
  cases t with
  | none =>
    have hhalf : Piece.Spelled (.unit 0xD800) ['\\', 'u', 'd', '8', '0', '0'] :=
      .unit (by decide) (.inl (by decide)) (.inl (by decide)) (.inl (by decide)) (.inl (by decide))
    exact ⟨[.unit 0xD800], [['\\', 'u', 'd', '8', '0', '0']], .cons hhalf .nil, rfl, rfl⟩
  | some s =>
    refine ⟨s.toList.map Piece.ofChar, s.toList.map escaped, ?_, ?_, ?_⟩
    · rw [List.forall₂_map_left_iff, List.forall₂_map_right_iff, List.forall₂_same]
      exact fun c _ => Piece.ofChar_spelled c
    · rw [Piece.textOf?_map_ofChar, Option.map_some, String.ofList_toList]
    · exact congrArg (fun body => '"' :: (body ++ ['"'])) List.flatMap_def

/-! ## Numbers -/

theorem exponentSpelled_toDigits (e : Int) :
    ExponentSpelled e
      ('e' :: ((if e < 0 then ['-'] else []) ++ Nat.toDigits 10 e.natAbs)) := by
  obtain ⟨ds, hds, hpart, hval, -⟩ := exists_toDigits e.natAbs
  have hne := ne_nil_of_isIntegerPart hpart
  rw [hds]
  split
  · have he : e = -(ofDigits ds : Int) := by omega
    rw [he]
    exact .minus (.inl rfl) hne
  · have he : e = (ofDigits ds : Int) := by omega
    rw [he]
    exact .unsigned (.inl rfl) hne

theorem Numeral.spelled_write (n : Numeral) : n.Spelled n.write := by
  cases n with
  | whole negative d => exact .whole negative d
  | scaled negative d f e =>
    have he := exponentSpelled_toDigits e
    cases f with
    | nil => simpa [write, writeFraction, signChars] using Spelled.exponent negative d he
    | cons f fs => exact .both negative d (List.cons_ne_nil f fs) he

/-! ## Values -/

theorem Blank.append {blanks blanks' : List Char} (h : Blank blanks) (h' : Blank blanks') :
    Blank (blanks ++ blanks') :=
  List.forall_mem_append.mpr ⟨h, h'⟩

namespace TokensSpelled

theorem blank_append {ts : List Token} {blanks cs : List Char} (hb : Blank blanks)
    (h : TokensSpelled ts cs) : TokensSpelled ts (blanks ++ cs) := by
  cases h with
  | done hb' => exact .done (hb.append hb')
  | token hb' ht hrest =>
    rw [← List.append_assoc]
    exact .token (hb.append hb') ht hrest

/-- One token and then others, with nothing between them. -/
theorem cons {t : Token} {ts : List Token} {cs rest : List Char} (ht : t.Spelled cs)
    (hrest : TokensSpelled ts rest) : TokensSpelled (t :: ts) (cs ++ rest) :=
  .token (List.forall_mem_nil _) ht hrest

theorem single {t : Token} {cs : List Char} (ht : t.Spelled cs) : TokensSpelled [t] cs := by
  simpa using cons ht (.done (List.forall_mem_nil _))

theorem append {ts ts' : List Token} {cs cs' : List Char} (h : TokensSpelled ts cs)
    (h' : TokensSpelled ts' cs') : TokensSpelled (ts ++ ts') (cs ++ cs') := by
  induction h with
  | done hb => exact blank_append hb h'
  | token hb ht _ ih =>
    rw [List.append_assoc, List.append_assoc]
    exact .token hb ht ih

theorem comma {tss : List (List Token)} {css : List (List Char)}
    (h : List.Forall₂ TokensSpelled tss css) :
    TokensSpelled (commaTokens tss) (commaSeparated css) := by
  induction h with
  | nil => exact .done (List.forall_mem_nil _)
  | cons h hrest ih =>
    cases hrest with
    | nil => exact h
    | cons => exact h.append (cons .comma ih)

end TokensSpelled

theorem Json.write_array (items : List Json) :
    (Json.array items).write = '[' :: (commaSeparated (items.map Json.write) ++ [']']) := by
  rw [write, List.attach_map_val]

theorem Json.write_object (members : List (Option String × Json)) :
    (Json.object members).write
      = '{' :: (commaSeparated (members.map fun m => writeText m.1 ++ ':' :: m.2.write)
          ++ ['}']) := by
  rw [write, ← List.attach_map_val (f := fun m : Option String × Json =>
    writeText m.1 ++ ':' :: m.2.write)]

theorem Json.tokensSpelled_write (j : Json) : TokensSpelled j.tokens j.write := by
  induction j using Json.induction with
  | null =>
    rw [tokens, write]
    exact .single .null
  | bool b =>
    cases b <;> rw [tokens, write]
    · exact .single .no
    · exact .single .yes
  | number n =>
    rw [tokens, write]
    exact .single (.number n.spelled_write)
  | text t =>
    rw [tokens, write]
    exact .single (.text (stringSpelled_writeText t))
  | array items ih =>
    rw [tokens_array, write_array]
    refine .cons .openArray (.append (.comma ?_) (.single .closeArray))
    rw [List.forall₂_map_left_iff, List.forall₂_map_right_iff, List.forall₂_same]
    exact ih
  | object members ih =>
    rw [tokens_object, write_object]
    refine .cons .openObject (.append (.comma ?_) (.single .closeObject))
    rw [List.forall₂_map_left_iff, List.forall₂_map_right_iff, List.forall₂_same]
    exact fun m hm => .cons (.text (stringSpelled_writeText m.1)) (.cons .colon (ih m hm))

/-- The writer writes a spelling of the value. -/
theorem Json.spelledBy_toText (j : Json) : j.SpelledBy j.toText := by
  rw [SpelledBy, toText, String.toList_ofList]
  exact j.tokensSpelled_write

/-- Every value, written and read back, is the same value. -/
theorem Json.ofText?_toText (j : Json) : Json.ofText? j.toText = some j :=
  Json.ofText?_of_spelledBy j.spelledBy_toText

end PonziScreen
