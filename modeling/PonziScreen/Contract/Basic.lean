/-!
# Contracts

A contract as a front end reports it: its structures, its state variables, and its functions, cut
into statements with the state variables that each one reads and writes.
-/

namespace PonziScreen

/-- The number that a front end gives to a function. -/
structure FunctionId where
  value : UInt64
deriving Repr, DecidableEq

/-- A function is shown by its number. -/
def FunctionId.display (id : FunctionId) : String := s!"#{id.value.toNat}"

/-- A member of a structure. -/
structure StructMember where
  name : String
  type : String
deriving Repr, DecidableEq

/-- A structure with its members. -/
structure Structure where
  name : String
  members : List StructMember
deriving Repr, DecidableEq

/-- A state variable, with its initializer if it has one. -/
structure StateVariable where
  name : String
  type : String
  expression : Option String
deriving Repr, DecidableEq

/-- One statement of a function body. Joins and entry points have no source text. -/
structure Statement where
  expression : Option String
  reads : List String
  writes : List String
deriving Repr, DecidableEq

/-- What a function calls: another function of the contract, a builtin of the language, or something
that the front end could not resolve. -/
inductive Call where
  | function (id : FunctionId) (name : String)
  | builtin (name : String)
  | unresolved (target : String)
deriving Repr, DecidableEq

/-- A function of a contract. -/
structure Function where
  id : FunctionId
  name : String
  isConstructor : Bool
  /-- Holds the initializers of state variables. -/
  isConstructorVariables : Bool
  /-- Whether running it can move native currency, by itself or through others. -/
  canSendEth : Bool
  statements : List Statement
  calls : List Call
deriving Repr, DecidableEq

/-- A contract. -/
structure Contract where
  name : String
  structures : List Structure
  stateVariables : List StateVariable
  functions : List Function
deriving Repr, DecidableEq

/-! ## Statements -/

/-- Whether `part` stands somewhere in `text`, without gaps. -/
def occursIn (part text : List Char) : Bool :=
  match text with
  | [] => part.isEmpty
  | c :: rest => part.isPrefixOf (c :: rest) || occursIn part rest

/-- Whether one text contains another. -/
def includes (text part : String) : Bool := occursIn part.toList text.toList

namespace Statement

/-- The source text, empty if there is none. -/
def text (s : Statement) : String := s.expression.getD ""

/-- Whether the statement moves native currency. -/
def isTransfer (s : Statement) : Bool :=
  includes s.text ".transfer(" || includes s.text ".send("

end Statement

/-! ## Functions -/

/-- The items of a list without repetitions, in the order in which they come first. -/
def firstSeen {β : Type} [DecidableEq β] (items : List β) : List β :=
  items.foldl (fun seen b => if b ∈ seen then seen else seen ++ [b]) []

namespace Function

/-- A function that only sets the contract up. -/
def isConstructorLike (f : Function) : Bool := f.isConstructor || f.isConstructorVariables

/-- The state variables read anywhere in the body. -/
def reads (f : Function) : List String := firstSeen (f.statements.flatMap Statement.reads)

/-- The state variables written anywhere in the body. -/
def writes (f : Function) : List String := firstSeen (f.statements.flatMap Statement.writes)

end Function

/-! ## Contracts -/

namespace Contract

/-- The first state variable of a name. -/
def variableNamed? (c : Contract) (name : String) : Option StateVariable :=
  c.stateVariables.find? fun v => v.name = name

/-- The first function of a number. -/
def functionWith? (c : Contract) (id : FunctionId) : Option Function :=
  c.functions.find? fun f => f.id = id

end Contract

end PonziScreen
