import PonziScreen.CallGraph.Basic
import PonziScreen.Table

/-!
# Facts about a contract

What the detection of Ponzi schemes wants to know of a contract: its structures, where state
variables are declared, read and written, which functions move native currency, and who calls whom.
`Facts.ofContract` gathers all of it in one walk over the declarations.
-/

namespace PonziScreen

/-- A function by number and name. -/
structure FunctionRef where
  id : FunctionId
  name : String
deriving Repr, DecidableEq

/-- The reference to a function. -/
def Function.ref (f : Function) : FunctionRef := ⟨f.id, f.name⟩

/-- How a state variable comes into being. -/
inductive Declaration where
  /-- Declared without an initializer. -/
  | bare (type : String) (text : String)
  /-- Assigned by a constructor-like function. `fullText` shows the type as well. -/
  | assigned (function : FunctionRef) (text : String) (fullText : String)
deriving Repr, DecidableEq

/-- A function that moves native currency itself, with its first statement that does. -/
structure SendFunction where
  id : FunctionId
  name : String
  text : String
  /-- The position of the statement in the body. -/
  index : Nat
  statement : Statement
deriving Repr, DecidableEq

/-- The facts about one contract. -/
structure Facts where
  name : String
  structures : Table String Structure
  declarations : Table String Declaration
  reads : Table String (List FunctionRef)
  writes : Table String (List FunctionRef)
  sends : Table FunctionId SendFunction
  calls : CallGraph

namespace Facts

/-! ## State variables -/

/-- The declarations of variables without an initializer; of two with one name the later counts. -/
def bareDeclarations (declared : List StateVariable) : Table String Declaration :=
  declared.foldl
    (fun t v =>
      match v.expression with
      | none => t.insert v.name (.bare v.type s!"{v.type} {v.name}")
      | some _ => t)
    .empty

/-- The text of an assignment in front of which the type of the variable is put, if the contract
declares the variable. -/
def typedText (c : Contract) (name text : String) : String :=
  match c.variableNamed? name with
  | some v => s!"{v.type} {text}"
  | none => text

/-- Records what a statement of a constructor-like function assigns. -/
def declareAssigned (c : Contract) (f : Function) (t : Table String Declaration) (s : Statement) :
    Table String Declaration :=
  s.writes.foldl (fun t name => t.insert name (.assigned f.ref s.text (typedText c name s.text))) t

/-- The declarations of a contract. An assignment by a constructor takes the place of what was there
before. -/
def declarationTable (c : Contract) : Table String Declaration :=
  (c.functions.filter Function.isConstructorLike).foldl
    (fun t f => f.statements.foldl (declareAssigned c f) t) (bareDeclarations c.stateVariables)

/-- For each name that `used` gives for some of the functions, those functions in order. -/
def usageTable (used : Function → List String) (functions : List Function) :
    Table String (List FunctionRef) :=
  functions.foldl (fun t f => (used f).foldl (fun t name => t.push name f.ref) t) .empty

/-- Who reads which variable. Constructor-like functions do not count. -/
def readTable (c : Contract) : Table String (List FunctionRef) :=
  usageTable Function.reads (c.functions.filter fun f => !f.isConstructorLike)

/-- Who writes which variable. Only functions that can move native currency count. -/
def writeTable (c : Contract) : Table String (List FunctionRef) :=
  usageTable Function.writes (c.functions.filter fun f => !f.isConstructorLike && f.canSendEth)

/-! ## Transfers -/

/-- The function as a sender, if one of its statements moves native currency. -/
def sendFunction? (f : Function) : Option SendFunction :=
  (f.statements.zipIdx.find? fun s => s.1.isTransfer).map fun s =>
    { id := f.id, name := f.name, text := s.1.text, index := s.2, statement := s.1 }

/-- The functions that move native currency themselves. Of two with one number the first counts. -/
def sendTable (c : Contract) : Table FunctionId SendFunction :=
  (c.functions.filterMap sendFunction?).foldl (fun t s => t.insertNew s.id s) .empty

/-! ## All facts -/

/-- The structures by name; of two with one name the later counts. -/
def structureTable (c : Contract) : Table String Structure :=
  c.structures.foldl (fun t s => t.insert s.name s) .empty

/-- The facts about a contract. -/
def ofContract (c : Contract) : Facts where
  name := c.name
  structures := structureTable c
  declarations := declarationTable c
  reads := readTable c
  writes := writeTable c
  sends := sendTable c
  calls := CallGraph.ofContract c

/-- Whether a function moves native currency itself. -/
def isSender (facts : Facts) (f : FunctionId) : Bool := facts.sends.contains f

end Facts

/-! ## Targets -/

/-- A contract together with facts about it. -/
structure Target where
  contract : Contract
  facts : Facts

/-- A contract with its own facts. -/
def Target.ofContract (c : Contract) : Target := ⟨c, Facts.ofContract c⟩

end PonziScreen
