import Mathlib.Data.Int.Notation
import Nssf.Base.Dict

/-! Documents as Python holds them once a parser has read them. What the language raises on is an
error with the name of the exception. -/

namespace Nssf.Base

inductive PyValue where
  | none
  | bool (b : Bool)
  | int (n : ℤ)
  | text (s : String)
  | list (items : List PyValue)
  | dict (entries : List (String × PyValue))

namespace PyValue

def truthy : PyValue → Bool
  | none => false
  | bool b => b
  | int n => n != 0
  | text s => s != ""
  | list items => !items.isEmpty
  | dict entries => !entries.isEmpty

/-- `v or w`. -/
def orElse (v w : PyValue) : PyValue := if v.truthy then v else w

/-- `v.get(key)`; the keys of a document are distinct. -/
def get (v : PyValue) (key : String) : Except String PyValue :=
  match v with
  | dict entries => .ok ((entries.lookup key).getD none)
  | _ => .error "AttributeError"

/-- Whether the value can be looked up in a dictionary. -/
def hashable : PyValue → Bool
  | list _ => false
  | dict _ => false
  | _ => true

def isText (v : PyValue) (s : String) : Bool :=
  match v with
  | text t => t == s
  | _ => false

theorem truthy_orElse {v : PyValue} (h : v.truthy = true) (w : PyValue) : v.orElse w = v :=
  if_pos h

theorem isText_iff {v : PyValue} {s : String} : v.isText s = true ↔ v = text s := by
  cases v <;> simp [isText]

end PyValue

end Nssf.Base
