import PonziScreen.Contract.Basic
import PonziScreen.Failure
import PonziScreen.Json.Reader
import PonziScreen.Json.Record
import PonziScreen.Json.Writer

/-!
# Contracts as JSON

Every part of a contract is a record. `ofJson?` reads a part and `toJson` writes it with all its
fields; `Contract.ofText` and `Contract.toText` do the same for a whole contract and its text. A
reader accepts more than its writer writes: fields in any order, unknown members, and default values
left out.
-/

namespace PonziScreen

/-- A list of names. -/
def Json.texts? (j : Json) : Option (List String) := j.list? Json.text?

/-- A list of names as JSON. -/
def Json.ofTexts (names : List String) : Json := .array (names.map Json.str)

/-- A text or `null`. -/
def Json.ofText : Option String → Json
  | some s => .str s
  | none => .null

/-! ## Structures and variables -/

namespace FunctionId

/-- Reads a function number. -/
def ofJson? (j : Json) : Option FunctionId := j.word?.map fun n => ⟨UInt64.ofNat n⟩

/-- Writes a function number. -/
def toJson (id : FunctionId) : Json := .nat id.value.toNat

end FunctionId

namespace StructMember

/-- The fields of a member. -/
def fields : List FieldName := [.only "name", .only "type"]

/-- Reads a member. -/
def ofJson? (j : Json) : Option StructMember := do
  let f ← j.fields? fields
  let name ← f.required? "name" Json.text?
  let type ← f.required? "type" Json.text?
  return { name, type }

/-- Writes a member. -/
def toJson (m : StructMember) : Json := .record [("name", .str m.name), ("type", .str m.type)]

end StructMember

namespace Structure

/-- The fields of a structure. -/
def fields : List FieldName := [.only "name", .only "members"]

/-- Reads a structure. It may have no members. -/
def ofJson? (j : Json) : Option Structure := do
  let f ← j.fields? fields
  let name ← f.required? "name" Json.text?
  let members ← f.default? "members" [] (Json.list? StructMember.ofJson?)
  return { name, members }

/-- Writes a structure. -/
def toJson (s : Structure) : Json :=
  .record [("name", .str s.name), ("members", .array (s.members.map StructMember.toJson))]

end Structure

namespace StateVariable

/-- The fields of a state variable. -/
def fields : List FieldName := [.only "name", .only "type", .only "expression"]

/-- Reads a state variable. A missing initializer is the same as `null`. -/
def ofJson? (j : Json) : Option StateVariable := do
  let f ← j.fields? fields
  let name ← f.required? "name" Json.text?
  let type ← f.required? "type" Json.text?
  let expression ← f.default? "expression" none (Json.nullable? Json.text?)
  return { name, type, expression }

/-- Writes a state variable. -/
def toJson (v : StateVariable) : Json :=
  .record [("name", .str v.name), ("type", .str v.type), ("expression", .ofText v.expression)]

end StateVariable

/-! ## Functions -/

namespace Statement

/-- The fields of a statement. -/
def fields : List FieldName :=
  [.only "expression", .only "state_variables_read", .only "state_variables_written"]

/-- Reads a statement. All its fields may be missing. -/
def ofJson? (j : Json) : Option Statement := do
  let f ← j.fields? fields
  let expression ← f.default? "expression" none (Json.nullable? Json.text?)
  let reads ← f.default? "state_variables_read" [] Json.texts?
  let writes ← f.default? "state_variables_written" [] Json.texts?
  return { expression, reads, writes }

/-- Writes a statement. -/
def toJson (s : Statement) : Json :=
  .record [("expression", .ofText s.expression), ("state_variables_read", .ofTexts s.reads),
    ("state_variables_written", .ofTexts s.writes)]

end Statement

namespace Call

/-- The fields of a call of another function. -/
def fields : List FieldName := [.only "id", .only "name"]

/-- Reads a call: one alternative with what belongs to it. -/
def ofJson? (j : Json) : Option Call :=
  match j.variant? with
  | some ("function", some payload) => do
    let f ← payload.fields? fields
    let id ← f.required? "id" FunctionId.ofJson?
    let name ← f.required? "name" Json.text?
    return .function id name
  | some ("builtin", some payload) => payload.text?.map .builtin
  | some ("unresolved", some payload) => payload.text?.map .unresolved
  | _ => none

/-- Writes a call. -/
def toJson : Call → Json
  | .function id name =>
    .record [("function", .record [("id", id.toJson), ("name", .str name)])]
  | .builtin name => .record [("builtin", .str name)]
  | .unresolved target => .record [("unresolved", .str target)]

end Call

namespace Function

/-- The fields of a function. -/
def fields : List FieldName :=
  [.only "id", .only "name", .only "is_constructor", .only "is_constructor_variables",
    .only "can_send_eth", .only "nodes", .only "internal_calls"]

/-- Reads a function. Flags are false and lists empty where they are missing. -/
def ofJson? (j : Json) : Option Function := do
  let f ← j.fields? fields
  let id ← f.required? "id" FunctionId.ofJson?
  let name ← f.required? "name" Json.text?
  let isConstructor ← f.default? "is_constructor" false Json.bool?
  let isConstructorVariables ← f.default? "is_constructor_variables" false Json.bool?
  let canSendEth ← f.default? "can_send_eth" false Json.bool?
  let statements ← f.default? "nodes" [] (Json.list? Statement.ofJson?)
  let calls ← f.default? "internal_calls" [] (Json.list? Call.ofJson?)
  return { id, name, isConstructor, isConstructorVariables, canSendEth, statements, calls }

/-- Writes a function. -/
def toJson (f : Function) : Json :=
  .record [("id", f.id.toJson), ("name", .str f.name), ("is_constructor", .bool f.isConstructor),
    ("is_constructor_variables", .bool f.isConstructorVariables),
    ("can_send_eth", .bool f.canSendEth),
    ("nodes", .array (f.statements.map Statement.toJson)),
    ("internal_calls", .array (f.calls.map Call.toJson))]

end Function

/-! ## Contracts -/

namespace Contract

/-- The fields of a contract. -/
def fields : List FieldName :=
  [.only "name", .only "structures", .only "state_variables", .only "functions"]

/-- Reads a contract. -/
def ofJson? (j : Json) : Option Contract := do
  let f ← j.fields? fields
  let name ← f.required? "name" Json.text?
  let structures ← f.default? "structures" [] (Json.list? Structure.ofJson?)
  let stateVariables ← f.default? "state_variables" [] (Json.list? StateVariable.ofJson?)
  let functions ← f.default? "functions" [] (Json.list? Function.ofJson?)
  return { name, structures, stateVariables, functions }

/-- Writes a contract. -/
def toJson (c : Contract) : Json :=
  .record [("name", .str c.name), ("structures", .array (c.structures.map Structure.toJson)),
    ("state_variables", .array (c.stateVariables.map StateVariable.toJson)),
    ("functions", .array (c.functions.map Function.toJson))]

/-- Reads a contract from its text. -/
def ofText (text : String) : Except Failure Contract :=
  match (Json.ofText? text).bind ofJson? with
  | some c => .ok c
  | none => .error .json

/-- Writes a contract with all its fields. -/
def toText (c : Contract) : String := c.toJson.toText

end Contract

end PonziScreen
