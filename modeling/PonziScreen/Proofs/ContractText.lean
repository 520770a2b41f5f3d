import PonziScreen.Contract.Format
import PonziScreen.Proofs.JsonWriting
import PonziScreen.Proofs.RecordForms

/-!
# Contracts are read back from every form of their text

A contract has more than one text. In the objects for the contract and its parts the members may
stand in any order, members with default values may be missing, there may be members that nobody
knows, and the whole may be spelled in any way. `Contract.Varies` says this of values and
`Json.SpelledBy` of texts.

Each part has a list of the fields that it is written with, with their defaults and with how they
vary (`Function.shape` and the others), and a theorem that its reader undoes its writer in the sense
of `Undoes`.
-/

namespace PonziScreen

/-! ## Values without parts -/

theorem Json.undoes_text : Undoes Eq Json.str Json.text? := .of_eq fun _ => rfl

theorem Json.undoes_bool : Undoes Eq Json.bool Json.bool? := .of_eq fun _ => rfl

theorem Json.undoes_texts : Undoes Eq Json.ofTexts Json.texts? :=
  .of_eq fun names => undoes_text.list names _ ⟨List.forall₂_same.mpr fun _ _ => rfl⟩

theorem Json.undoes_nullableText : Undoes Eq Json.ofText (Json.nullable? Json.text?) :=
  .of_eq fun text => by cases text <;> rfl

theorem FunctionId.undoes : Undoes Eq toJson ofJson? := by
  refine .of_eq fun id => ?_
  have hlt : id.value.toNat < UInt64.size := id.value.toNat_lt_size
  simp [toJson, ofJson?, Json.word?, Json.nat, Json.natBelow?, hlt]

/-! ## Structures and variables -/

namespace StructMember

/-- A member of a structure is written with both its fields. -/
def shape : List Field := [.plain "name", .plain "type"]

/-- The forms of a member of a structure. -/
def Varies : Json → Json → Prop := Json.RecordVaries shape

theorem varies_toJson (m : StructMember) : Varies m.toJson m.toJson :=
  .refl (.keep rfl (.keep rfl .nil))

theorem undoes : Undoes Varies toJson ofJson? := by
  intro m j h
  obtain ⟨f, hread, hshown⟩ := Json.fields?_of_varies (by decide) h
  have hread : j.fields? fields = some f := hread
  have hname : f.required? "name" Json.text? = some m.name :=
    Json.undoes_text.required? hshown (by simp [shape]) (by simp)
  have htype : f.required? "type" Json.text? = some m.type :=
    Json.undoes_text.required? hshown (by simp [shape]) (by simp)
  simp only [ofJson?, hread, hname, htype, Option.bind_eq_bind, Option.bind_some, Option.pure_def]

end StructMember

namespace Structure

/-- The members of a structure may be missing if there are none. -/
def shape : List Field := [.plain "name", .items "members" StructMember.Varies]

/-- The forms of a structure. -/
def Varies : Json → Json → Prop := Json.RecordVaries shape

theorem varies_toJson (s : Structure) : Varies s.toJson s.toJson :=
  .refl (.keep rfl (.keep (.refl StructMember.varies_toJson _) .nil))

theorem undoes : Undoes Varies toJson ofJson? := by
  intro s j h
  obtain ⟨f, hread, hshown⟩ := Json.fields?_of_varies (by decide) h
  have hread : j.fields? fields = some f := hread
  have hname : f.required? "name" Json.text? = some s.name :=
    Json.undoes_text.required? hshown (by simp [shape]) (by simp)
  have hmembers : f.default? "members" [] (Json.list? StructMember.ofJson?) = some s.members :=
    StructMember.undoes.items hshown (by simp [shape]) (by simp)
  simp only [ofJson?, hread, hname, hmembers, Option.bind_eq_bind, Option.bind_some,
    Option.pure_def]

end Structure

namespace StateVariable

/-- The initializer of a state variable may be missing if it has none. -/
def shape : List Field := [.plain "name", .plain "type", .defaulted "expression" .null]

/-- The forms of a state variable. -/
def Varies : Json → Json → Prop := Json.RecordVaries shape

theorem varies_toJson (v : StateVariable) : Varies v.toJson v.toJson :=
  .refl (.keep rfl (.keep rfl (.keep rfl .nil)))

theorem undoes : Undoes Varies toJson ofJson? := by
  intro v j h
  obtain ⟨f, hread, hshown⟩ := Json.fields?_of_varies (by decide) h
  have hread : j.fields? fields = some f := hread
  have hname : f.required? "name" Json.text? = some v.name :=
    Json.undoes_text.required? hshown (by simp [shape]) (by simp)
  have htype : f.required? "type" Json.text? = some v.type :=
    Json.undoes_text.required? hshown (by simp [shape]) (by simp)
  have hexpression : f.default? "expression" none (Json.nullable? Json.text?) = some v.expression :=
    Json.undoes_nullableText.defaulted hshown (by simp [shape, Json.ofText]) (by simp)
  simp only [ofJson?, hread, hname, htype, hexpression, Option.bind_eq_bind, Option.bind_some,
    Option.pure_def]

end StateVariable

/-! ## Functions -/

namespace Statement

/-- Everything in a statement may be missing. -/
def shape : List Field :=
  [.defaulted "expression" .null, .defaulted "state_variables_read" (.array []),
    .defaulted "state_variables_written" (.array [])]

/-- The forms of a statement. -/
def Varies : Json → Json → Prop := Json.RecordVaries shape

theorem varies_toJson (s : Statement) : Varies s.toJson s.toJson :=
  .refl (.keep rfl (.keep rfl (.keep rfl .nil)))

theorem undoes : Undoes Varies toJson ofJson? := by
  intro s j h
  obtain ⟨f, hread, hshown⟩ := Json.fields?_of_varies (by decide) h
  have hread : j.fields? fields = some f := hread
  have hexpression : f.default? "expression" none (Json.nullable? Json.text?) = some s.expression :=
    Json.undoes_nullableText.defaulted hshown (by simp [shape, Json.ofText]) (by simp)
  have hreads : f.default? "state_variables_read" [] Json.texts? = some s.reads :=
    Json.undoes_texts.defaulted hshown (by simp [shape, Json.ofTexts]) (by simp)
  have hwrites : f.default? "state_variables_written" [] Json.texts? = some s.writes :=
    Json.undoes_texts.defaulted hshown (by simp [shape, Json.ofTexts]) (by simp)
  simp only [ofJson?, hread, hexpression, hreads, hwrites, Option.bind_eq_bind, Option.bind_some,
    Option.pure_def]

end Statement

namespace Call

/-- What belongs to a call of a function is written with both its fields. -/
def shape : List Field := [.plain "id", .plain "name"]

/-- The forms of a call. The object that tells the kind of a call has one member, and only what
belongs to a call of a function is a record. -/
inductive Varies : Json → Json → Prop
  | function {payload payload' : Json} (h : Json.RecordVaries shape payload payload') :
    Varies (.record [("function", payload)]) (.record [("function", payload')])
  | same (j : Json) : Varies j j

theorem varies_toJson (c : Call) : Varies c.toJson c.toJson := .same _

/-- A call of another function is read from every form of what belongs to it. -/
theorem ofJson?_function (id : FunctionId) (name : String) {payload : Json}
    (h : Json.RecordVaries shape (.record [("id", id.toJson), ("name", .str name)]) payload) :
    ofJson? (.record [("function", payload)]) = some (.function id name) := by
  obtain ⟨f, hread, hshown⟩ := Json.fields?_of_varies (by decide) h
  have hread : payload.fields? fields = some f := hread
  have hid : f.required? "id" FunctionId.ofJson? = some id :=
    FunctionId.undoes.required? hshown (by simp [shape]) (by simp)
  have hname : f.required? "name" Json.text? = some name :=
    Json.undoes_text.required? hshown (by simp [shape]) (by simp)
  simp [ofJson?, Json.variant?, Json.record, hread, hid, hname]

theorem undoes : Undoes Varies toJson ofJson? := by
  intro c j h
  generalize hwritten : toJson c = written at h
  cases h with
  | function h =>
    cases c with
    | function id name =>
      have hpayload := Json.record_injective hwritten
      simp only [List.cons.injEq, Prod.mk.injEq, true_and, and_true] at hpayload
      exact ofJson?_function id name (hpayload ▸ h)
    | builtin name => simp [toJson, Json.record] at hwritten
    | unresolved target => simp [toJson, Json.record] at hwritten
  | same =>
    rw [← hwritten]
    cases c with
    | function id name => exact ofJson?_function id name (.refl (.keep rfl (.keep rfl .nil)))
    | builtin name => rfl
    | unresolved target => rfl

end Call

namespace Function

/-- Flags of a function may be missing if they are false, and lists if they are empty. -/
def shape : List Field :=
  [.plain "id", .plain "name", .defaulted "is_constructor" (.bool false),
    .defaulted "is_constructor_variables" (.bool false),
    .defaulted "can_send_eth" (.bool false), .items "nodes" Statement.Varies,
    .items "internal_calls" Call.Varies]

/-- The forms of a function. -/
def Varies : Json → Json → Prop := Json.RecordVaries shape

theorem varies_toJson (f : Function) : Varies f.toJson f.toJson :=
  .refl (.keep rfl (.keep rfl (.keep rfl (.keep rfl (.keep rfl
    (.keep (.refl Statement.varies_toJson _) (.keep (.refl Call.varies_toJson _) .nil)))))))

theorem undoes : Undoes Varies toJson ofJson? := by
  intro g j h
  obtain ⟨f, hread, hshown⟩ := Json.fields?_of_varies (by decide) h
  have hread : j.fields? fields = some f := hread
  have hid : f.required? "id" FunctionId.ofJson? = some g.id :=
    FunctionId.undoes.required? hshown (by simp [shape]) (by simp)
  have hname : f.required? "name" Json.text? = some g.name :=
    Json.undoes_text.required? hshown (by simp [shape]) (by simp)
  have hconstructor : f.default? "is_constructor" false Json.bool? = some g.isConstructor :=
    Json.undoes_bool.defaulted hshown (by simp [shape]) (by simp)
  have hvariables : f.default? "is_constructor_variables" false Json.bool?
      = some g.isConstructorVariables :=
    Json.undoes_bool.defaulted hshown (by simp [shape]) (by simp)
  have hsend : f.default? "can_send_eth" false Json.bool? = some g.canSendEth :=
    Json.undoes_bool.defaulted hshown (by simp [shape]) (by simp)
  have hstatements : f.default? "nodes" [] (Json.list? Statement.ofJson?) = some g.statements :=
    Statement.undoes.items hshown (by simp [shape]) (by simp)
  have hcalls : f.default? "internal_calls" [] (Json.list? Call.ofJson?) = some g.calls :=
    Call.undoes.items hshown (by simp [shape]) (by simp)
  simp only [ofJson?, hread, hid, hname, hconstructor, hvariables, hsend, hstatements, hcalls,
    Option.bind_eq_bind, Option.bind_some, Option.pure_def]

end Function

/-! ## Contracts -/

namespace Contract

/-- Lists of a contract may be missing if they are empty. -/
def shape : List Field :=
  [.plain "name", .items "structures" Structure.Varies,
    .items "state_variables" StateVariable.Varies, .items "functions" Function.Varies]

/-- The forms of a contract. -/
def Varies : Json → Json → Prop := Json.RecordVaries shape

theorem varies_toJson (c : Contract) : Varies c.toJson c.toJson :=
  .refl (.keep rfl (.keep (.refl Structure.varies_toJson _)
    (.keep (.refl StateVariable.varies_toJson _) (.keep (.refl Function.varies_toJson _) .nil))))

theorem undoes : Undoes Varies toJson ofJson? := by
  intro c j h
  obtain ⟨f, hread, hshown⟩ := Json.fields?_of_varies (by decide) h
  have hread : j.fields? fields = some f := hread
  have hname : f.required? "name" Json.text? = some c.name :=
    Json.undoes_text.required? hshown (by simp [shape]) (by simp)
  have hstructures : f.default? "structures" [] (Json.list? Structure.ofJson?)
      = some c.structures :=
    Structure.undoes.items hshown (by simp [shape]) (by simp)
  have hvariables : f.default? "state_variables" [] (Json.list? StateVariable.ofJson?)
      = some c.stateVariables :=
    StateVariable.undoes.items hshown (by simp [shape]) (by simp)
  have hfunctions : f.default? "functions" [] (Json.list? Function.ofJson?) = some c.functions :=
    Function.undoes.items hshown (by simp [shape]) (by simp)
  simp only [ofJson?, hread, hname, hstructures, hvariables, hfunctions, Option.bind_eq_bind,
    Option.bind_some, Option.pure_def]

/-- **The reader undoes the writer, whatever the form and the spelling.** The text that is written
is read as the contract, and so is every text that spells another form of what is written. -/
theorem ofText_of_varies (c : Contract) :
    ofText c.toText = .ok c ∧
      ∀ j text, Varies c.toJson j → j.SpelledBy text → ofText text = .ok c := by
  have hforms : ∀ j text, Varies c.toJson j → j.SpelledBy text → ofText text = .ok c := by
    intro j text hj htext
    rw [ofText, Json.ofText?_of_spelledBy htext, Option.bind_some, undoes c j hj]
  exact ⟨hforms _ _ c.varies_toJson c.toJson.spelledBy_toText, hforms⟩

/-- A contract with the largest function number, and with default values to leave out. -/
def pyramid : Contract where
  name := "Pirámide"
  structures := []
  stateVariables := [⟨"owner", "address", none⟩]
  functions := [⟨⟨18446744073709551615⟩, "pay\n", false, false, true, [⟨none, ["owner"], []⟩],
    [.function ⟨4⟩ "payout"]⟩]

/-- The same contract with all members reversed, without default values, and with members that a
contract does not have. -/
def pyramidForm : Json :=
  .record [
    ("compiler", .object [(some "version", .number (.whole true 8)), (none, .text none)]),
    ("functions", .array [.record [
      ("line", .bool true),
      ("internal_calls", .array [.record [("function", .record [
        ("line", .nat 7), ("name", .str "payout"), ("id", .nat 4)])]]),
      ("nodes", .array [.record [("state_variables_read", .ofTexts ["owner"])]]),
      ("can_send_eth", .bool true),
      ("name", .str "pay\n"),
      ("id", .nat 18446744073709551615)]]),
    ("state_variables", .array [.record [("type", .str "address"), ("name", .str "owner")]]),
    ("name", .str "Pirámide")]

theorem varies_pyramid : Varies pyramid.toJson pyramidForm := by
  have hcall : Call.Varies (Call.function ⟨4⟩ "payout").toJson _ :=
    .function ⟨_, _, [("line", .nat 7)], _, rfl, .keep rfl (.keep rfl .nil), by decide,
      List.reverse_perm _, rfl⟩
  have hstatement : Statement.Varies (Statement.toJson ⟨none, ["owner"], []⟩) _ :=
    ⟨_, _, [], _, rfl, .drop rfl (.keep rfl (.drop rfl .nil)), by decide, List.reverse_perm _, rfl⟩
  have hvariable : StateVariable.Varies (StateVariable.toJson ⟨"owner", "address", none⟩) _ :=
    ⟨_, _, [], _, rfl, .keep rfl (.keep rfl (.drop rfl .nil)), by decide, List.reverse_perm _, rfl⟩
  have hfunction : Function.Varies (Function.toJson ⟨⟨18446744073709551615⟩, "pay\n", false, false,
      true, [⟨none, ["owner"], []⟩], [.function ⟨4⟩ "payout"]⟩) _ :=
    ⟨_, _, [("line", .bool true)], _, rfl,
      .keep rfl (.keep rfl (.drop rfl (.drop rfl (.keep rfl
        (.keep (.items (.cons hstatement .nil)) (.keep (.items (.cons hcall .nil)) .nil)))))),
      by decide, List.reverse_perm _, rfl⟩
  exact ⟨_, _, [("compiler",
      .object [(some "version", .number (.whole true 8)), (none, .text none)])], _, rfl,
    .keep rfl (.drop rfl (.keep (.items (.cons hvariable .nil))
      (.keep (.items (.cons hfunction .nil)) .nil))),
    by decide, List.reverse_perm _, rfl⟩

theorem ofText_pyramidForm :
    Varies pyramid.toJson pyramidForm ∧ ofText pyramidForm.toText = .ok pyramid :=
  ⟨varies_pyramid, (ofText_of_varies pyramid).2 _ _ varies_pyramid pyramidForm.spelledBy_toText⟩

end Contract

end PonziScreen
