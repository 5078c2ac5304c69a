import Mathlib
import Nssf.Design.Materialize

/-! The rules of the validation about statuses: a category is no further than its topics, the
document of a data model says the same as its topic, and a blocked one is not handed off. -/

namespace Nssf.Design.Contract

open Base Base.PyText UserBlocks

def canonical : Text := "canonical".toList

section rules

variable (t : Tools) (repr : PyValue → Text)

/-- An unresolved reference that nobody has settled how to treat. -/
def isBlocking (e : PyValue) : Bool :=
  match e with
  | .dict entries => match (entries.lookup "classification").getD .none with
    | .none => true
    | v => v.isText "implementation_blocker"
  | _ => true

end rules

end Nssf.Design.Contract
