import PonziScreen.Facts.Basic

/-!
# The report on state variables

Three sections of lines: declarations, reads and writes. Each lists its variables in the order of
their names.
-/

namespace PonziScreen.Facts

/-- The entries of a table in the order of their keys. -/
def sortedEntries {ν : Type} (t : Table String ν) : List (String × ν) :=
  t.entries.mergeSort fun a b => decide (a.1 ≤ b.1)

/-- The line of a declaration. -/
def declarationLine (entry : String × Declaration) : String :=
  match entry.2 with
  | .bare _ text => s!"  {entry.1}: {text}"
  | .assigned f _ fullText => s!"  {entry.1}: {fullText} (in {f.name})"

/-- The line of a variable and the functions that use it. -/
def usageLine (entry : String × List FunctionRef) : String :=
  let names := ", ".intercalate (entry.2.map FunctionRef.name)
  s!"  {entry.1}: {names}"

/-- The report on the state variables. -/
def report (facts : Facts) : List String :=
  s!"=== {facts.name} state variable declarations" ::
    (sortedEntries facts.declarations).map declarationLine ++
  s!"=== {facts.name} state variable reads" ::
    (sortedEntries facts.reads).map usageLine ++
  s!"=== {facts.name} state variable writes" ::
    (sortedEntries facts.writes).map usageLine

end PonziScreen.Facts
