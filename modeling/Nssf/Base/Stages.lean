import Mathlib.Data.List.Pairwise
import Nssf.Base.Kahn

/-! Work that is done stage by stage. Inside a stage the order is free, as long as every node
comes behind what it waits for. -/

namespace Nssf.Base.Kahn

variable {α : Type} [DecidableEq α]

/-- The stage that names the node first. -/
def stage (stages : List (List α)) (k : α) : ℕ := stages.findIdx fun nodes => decide (k ∈ nodes)

section stages

variable {nodes : List α} {stages runs : List (List α)} {deps : α → List α}

end stages

end Nssf.Base.Kahn
