import Mathlib.Algebra.BigOperators.Ring.Finset
import Mathlib.Algebra.Order.BigOperators.Group.List
import Nssf.Base.KeyedList
import Nssf.Base.Transition

/-! Runs that are paid for in advance: a potential that every step spends from, and the weights of
keyed records and of workers that such a potential is added up from. -/

namespace Nssf.Base

section runs

variable {σ κ : Type} {step : σ → κ → σ → Prop} {I : σ → Prop} {cost gain : κ → ℕ}
  {potential : σ → ℕ} {s s' : σ} {ls : List κ}

end runs

section records

variable {α κ : Type} [DecidableEq κ] {key : α → κ} {l : List α} {a : α}

variable (weight : α → ℕ)

end records

section workers

variable {ι β : Type} [Fintype ι] [DecidableEq ι] (weight : β → ℕ)

end workers

end Nssf.Base
