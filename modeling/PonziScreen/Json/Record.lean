import PonziScreen.Json.Basic

/-!
# Records in JSON

A record is written as an object with the names of its fields, in any order, or as an array of its
fields in the order of their declaration. `Json.fields?` reads both forms into one:

* in an object, members with unknown names are skipped, and a field that is given twice (also once
  by its name and once by an alias) is an error;
* in an array, fields may be missing at the end, and further items are an error.

What a missing field means depends on the field: `Fields.required?`, `Fields.default?` and
`Fields.optional?`.
-/

namespace PonziScreen

/-- The name of a field and the other names that are accepted for it. -/
structure FieldName where
  name : String
  aliases : List String
deriving Repr

/-- A field known by one name only. -/
def FieldName.only (name : String) : FieldName := ⟨name, []⟩

/-- Whether a member of an object stands for this field. -/
def FieldName.accepts (f : FieldName) (name : String) : Bool :=
  name == f.name || f.aliases.contains name

/-- The fields of a record that are present, by name, and whether the record was written as an
object. -/
structure Fields where
  present : List (String × Json)
  named : Bool
deriving Repr

/-- The member for a field among the members of an object: nothing, one, or an error if there are
more. -/
def FieldName.member? (f : FieldName) (members : List (String × Json)) :
    Option (List (String × Json)) :=
  match members.filter fun m => f.accepts m.1 with
  | [] => some []
  | [m] => some [(f.name, m.2)]
  | _ => none

/-- The fields of a record with the given declaration. A name of an object has to have a text, even
if it is unknown. -/
def Json.fields? (declared : List FieldName) : Json → Option Fields
  | .object members => do
    let members ← members.mapM fun m => m.1.map fun name => (name, m.2)
    let present ← declared.mapM fun f => f.member? members
    return ⟨present.flatten, true⟩
  | .array items =>
    if items.length ≤ declared.length then
      some ⟨(declared.map FieldName.name).zip items, false⟩
    else none
  | _ => none

namespace Fields

variable {β : Type}

/-- The value of a field, if present. -/
def get? (f : Fields) (name : String) : Option Json :=
  f.present.lookup name

/-- A field that has to be present. -/
def required? (f : Fields) (name : String) (read : Json → Option β) : Option β :=
  (f.get? name).bind read

/-- A field that has a value of its own when it is absent. -/
def default? (f : Fields) (name : String) (value : β) (read : Json → Option β) : Option β :=
  match f.get? name with
  | some j => read j
  | none => some value

/-- A field that may be absent from an object, or `null`; an array has to hold it. -/
def optional? (f : Fields) (name : String) (read : Json → Option β) : Option (Option β) :=
  match f.get? name with
  | some j => j.nullable? read
  | none => if f.named then some none else none

end Fields

/-- An object as a dictionary: of members with one name the last one counts. -/
def Json.dictionary? {β : Type} (read : Json → Option β) : Json → Option (List (String × β))
  | .object members => do
    let members ← members.mapM fun m => do
      let name ← m.1
      let value ← read m.2
      return (name, value)
    return members.foldl (fun done m => done.filter (fun d => d.1 != m.1) ++ [m]) []
  | _ => none

end PonziScreen
