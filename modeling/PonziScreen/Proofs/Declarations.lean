import PonziScreen.Proofs.Tables

/-!
# How state variables are declared

The table of declarations is filled by two walks: over the state variables without an initializer,
and then over what constructor-like functions write. Every step may replace what an earlier one has
left, so the last write counts, and a write counts more than any declaration. The type that a write
is shown with is another matter: it comes from the first variable of the name.
`Facts.declarations_lastWrite` says what the table holds for each name, in terms of the text of the
contract alone.
-/

namespace PonziScreen

/-! ## What the contract says -/

/-- A function only sets the contract up, and one of its statements writes a variable. -/
def Function.Initializes (v : String) (f : Function) : Prop :=
  f.isConstructorLike = true ∧ ∃ s ∈ f.statements, v ∈ s.writes

/-- A variable has a name and no initializer. -/
def StateVariable.IsBare (v : String) (d : StateVariable) : Prop :=
  d.name = v ∧ d.expression = none

namespace Contract

/-- The last write of a variable by a function that only sets the contract up: the last such
function, and its last statement that writes the variable. -/
def LastInitialization (c : Contract) (v : String) (f : Function) (s : Statement) : Prop :=
  IsLast (Function.Initializes v) c.functions f ∧ IsLast (fun s => v ∈ s.writes) f.statements s

/-- The text of a write with the type of the first variable of the name in front of it, or the text
alone if no variable has the name. -/
def ShowsAs (c : Contract) (v text shown : String) : Prop :=
  (∃ d, IsFirst (fun d => d.name = v) c.stateVariables d ∧ shown = s!"{d.type} {text}") ∨
    (∀ d ∈ c.stateVariables, d.name ≠ v) ∧ shown = text

theorem exists_lastInitialization {c : Contract} {v : String}
    (h : ∃ f ∈ c.functions, f.Initializes v) : ∃ f s, c.LastInitialization v f s := by
  obtain ⟨f, hf⟩ := exists_isLast h
  obtain ⟨s, hs⟩ := exists_isLast hf.holds.2
  exact ⟨f, s, hf, hs⟩

theorem showsAs_typedText (c : Contract) (v text : String) :
    c.ShowsAs v text (Facts.typedText c v text) := by
  unfold Facts.typedText
  cases h : c.variableNamed? v with
  | some d => exact .inl ⟨d, find?_eq_some_iff_isFirst.1 h, rfl⟩
  | none => exact .inr ⟨fun d hd => by simpa using List.find?_eq_none.1 h d hd, rfl⟩

end Contract

namespace Facts

variable {c : Contract} {v : String}

/-! ## Variables without an initializer -/

section Bare

variable {declared : List StateVariable}

theorem find?_bareDeclarations_of_none (h : ∀ d ∈ declared, ¬ d.IsBare v) :
    (bareDeclarations declared).find? v = none := by
  refine Table.find?_foldl_of_keep (fun d hd t => ?_) .empty
  cases he : d.expression with
  | some e => rfl
  | none => exact Table.find?_insert_of_ne t (fun hv => h d hd ⟨hv, he⟩) _

theorem find?_bareDeclarations_of_isLast {d : StateVariable}
    (h : IsLast (StateVariable.IsBare v) declared d) :
    (bareDeclarations declared).find? v = some (.bare d.type s!"{d.type} {v}") := by
  refine Table.find?_foldl_of_isLast h (fun t => ?_) (fun e he t => ?_) .empty
  · obtain ⟨rfl, hexpression⟩ := h.holds
    simp only [hexpression]
    exact Table.find?_insert_self t _ _
  · cases hexpression : e.expression with
    | some _ => rfl
    | none => exact Table.find?_insert_of_ne t (fun hv => he ⟨hv, hexpression⟩) _

end Bare

/-! ## Writes of constructor-like functions -/

theorem find?_declareAssigned_of_notMem {f : Function} {s : Statement} (h : v ∉ s.writes)
    (t : Table String Declaration) : (declareAssigned c f t s).find? v = t.find? v := by
  refine Table.find?_foldl_of_keep (fun name hname t => ?_) t
  have hne : name ≠ v := fun hv => h (hv ▸ hname)
  exact Table.find?_insert_of_ne t hne _

/-- A statement that writes a variable is its declaration from then on. -/
theorem find?_declareAssigned_of_mem {f : Function} {s : Statement} (h : v ∈ s.writes)
    (t : Table String Declaration) :
    (declareAssigned c f t s).find? v = some (.assigned f.ref s.text (typedText c v s.text)) := by
  obtain ⟨name, hname⟩ := exists_isLast (p := fun name => name = v) ⟨v, h, rfl⟩
  refine Table.find?_foldl_of_isLast hname (fun t => ?_)
    (fun other hother t => Table.find?_insert_of_ne t hother _) t
  rw [hname.holds]
  exact Table.find?_insert_self t v _

/-- What a function adds to the declarations: its writes, if it only sets the contract up. -/
def declareFunction (c : Contract) (t : Table String Declaration) (f : Function) :
    Table String Declaration :=
  if f.isConstructorLike then f.statements.foldl (declareAssigned c f) t else t

theorem declarationTable_eq (c : Contract) : declarationTable c
    = c.functions.foldl (declareFunction c) (bareDeclarations c.stateVariables) :=
  List.foldl_filter

theorem find?_declareFunction_of_not {f : Function} (h : ¬ f.Initializes v)
    (t : Table String Declaration) : (declareFunction c t f).find? v = t.find? v := by
  unfold declareFunction
  split
  · rename_i hlike
    exact Table.find?_foldl_of_keep
      (fun s hs => find?_declareAssigned_of_notMem fun hv => h ⟨hlike, s, hs, hv⟩) t
  · rfl

/-- The last statement of a function that writes a variable is its declaration from then on. -/
theorem find?_declareFunction_of_isLast {f : Function} {s : Statement}
    (hlike : f.isConstructorLike = true) (hs : IsLast (fun s => v ∈ s.writes) f.statements s)
    (t : Table String Declaration) :
    (declareFunction c t f).find? v = some (.assigned f.ref s.text (typedText c v s.text)) := by
  rw [declareFunction, if_pos hlike]
  exact Table.find?_foldl_of_isLast hs (find?_declareAssigned_of_mem hs.holds)
    (fun _ => find?_declareAssigned_of_notMem) t

/-! ## The table -/

theorem find?_declarationTable_of_not (h : ∀ f ∈ c.functions, ¬ f.Initializes v) :
    (declarationTable c).find? v = (bareDeclarations c.stateVariables).find? v := by
  rw [declarationTable_eq]
  exact Table.find?_foldl_of_keep (fun f hf => find?_declareFunction_of_not (h f hf)) _

theorem find?_declarationTable_of_last {f : Function} {s : Statement}
    (h : c.LastInitialization v f s) :
    (declarationTable c).find? v = some (.assigned f.ref s.text (typedText c v s.text)) := by
  obtain ⟨hf, hs⟩ := h
  rw [declarationTable_eq]
  exact Table.find?_foldl_of_isLast hf (find?_declareFunction_of_isLast hf.holds.1 hs)
    (fun _ => find?_declareFunction_of_not) _

/-- What the table of declarations holds for a name. If a constructor-like function writes the
variable, it is the last write. Otherwise it is the last variable of the name without an
initializer. If there is none either, the name has no entry. -/
theorem declarations_lastWrite (c : Contract) (v : String) :
    let found := (ofContract c).declarations.find? v
    ((∃ f ∈ c.functions, f.Initializes v) → ∃ f s shown,
      c.LastInitialization v f s ∧ c.ShowsAs v s.text shown ∧
        found = some (.assigned f.ref s.text shown)) ∧
    ((∀ f ∈ c.functions, ¬ f.Initializes v) → (∃ d ∈ c.stateVariables, d.IsBare v) → ∃ d,
      IsLast (StateVariable.IsBare v) c.stateVariables d ∧
        found = some (.bare d.type s!"{d.type} {v}")) ∧
    ((∀ f ∈ c.functions, ¬ f.Initializes v) → (∀ d ∈ c.stateVariables, ¬ d.IsBare v) →
      found = none) ∧
    ∀ d, (v, d) ∈ (ofContract c).declarations.entries ↔ found = some d := by
  refine ⟨fun h => ?_, fun h hbare => ?_, fun h hnone => ?_, fun _ => Table.mem_entries_iff⟩
  · obtain ⟨f, s, hlast⟩ := Contract.exists_lastInitialization h
    exact ⟨f, s, _, hlast, c.showsAs_typedText v s.text, find?_declarationTable_of_last hlast⟩
  · obtain ⟨d, hd⟩ := exists_isLast hbare
    exact ⟨d, hd, (find?_declarationTable_of_not h).trans (find?_bareDeclarations_of_isLast hd)⟩
  · exact (find?_declarationTable_of_not h).trans (find?_bareDeclarations_of_none hnone)

/-- The owner is declared twice and written by two functions that set the contract up, by the second
one twice. A fee with an initializer is no declaration, and a cap is one that nobody writes. -/
example :
    let first : Function := ⟨⟨1⟩, "constructor", true, false, false,
      [⟨some "owner = a", [], ["owner"]⟩], []⟩
    let second : Function := ⟨⟨2⟩, "initializers", false, true, false,
      [⟨some "owner = b", [], ["owner"]⟩, ⟨some "owner = c", [], ["seed", "owner"]⟩], []⟩
    let t := declarationTable ⟨"Bank", [], [⟨"owner", "address", none⟩, ⟨"owner", "uint", none⟩,
      ⟨"fee", "uint", some "1"⟩, ⟨"cap", "uint", none⟩], [first, second]⟩
    t.find? "owner" = some (.assigned ⟨⟨2⟩, "initializers"⟩ "owner = c" "address owner = c") ∧
      t.find? "seed" = some (.assigned ⟨⟨2⟩, "initializers"⟩ "owner = c" "owner = c") ∧
      t.find? "cap" = some (.bare "uint" "uint cap") ∧ t.find? "fee" = none := by
  decide

end Facts

end PonziScreen
