import Mathlib.Data.List.Basic

/-! A loop over items that keep out of each other's way: a step works on what its item finds at
the start, and what it leaves there stays to the end. -/

namespace Nssf.Base.Independent

variable {ε α σ : Type}

section run

variable {step : σ → α → Except ε σ} {apart : α → α → Prop} {same : α → σ → σ → Prop}
  {l : List α} {s s' : σ}

end run

section filter

variable {β : Type} {f : α → Except ε β} {g : α → β} {p : α → Except ε Bool} {b : α → Bool}
  {l : List α}

end filter

end Nssf.Base.Independent
