import Mathlib.Data.Set.Basic
import Nssf.Base.Transition

/-! Work that waits under keys, workers that take it up, and keys that are withdrawn. While
nothing waits under a withdrawn key, a worker that comes free takes up no more work for it. -/

namespace Nssf.Base

structure Backlog (ι κ : Type) where
  waiting : Set κ
  held : ι → Option κ
  gone : Set κ
  finished : List κ

namespace Backlog

variable {ι κ : Type} {b b' : Backlog ι κ}

def Clear (b : Backlog ι κ) : Prop := ∀ k ∈ b.gone, k ∉ b.waiting

/-- Nothing comes to wait under a withdrawn key, and no key is withdrawn with work waiting. -/
structure Move (b b' : Backlog ι κ) : Prop where
  waiting : ∀ k ∈ b'.waiting, k ∈ b.waiting ∨ k ∉ b'.gone
  gone : ∀ k ∈ b'.gone, k ∈ b.gone ∨ k ∉ b'.waiting
  kept : b.gone ⊆ b'.gone
  held : ∀ i k, b'.held i = some k → b.held i = some k ∨ k ∈ b.waiting
  finished : b'.finished = b.finished ∨
    ∃ i k, b.held i = some k ∧ b'.finished = k :: b.finished

theorem Clear.move (h : b.Clear) (hm : b.Move b') : b'.Clear := by
  intro k hk hw
  rcases hm.waiting k hw with hwait | hnot
  · rcases hm.gone k hk with hgone | hnone
    · exact h k hgone hwait
    · exact hnone hw
  · exact hnot hk

/-- The key is withdrawn, nothing of it waits or is held, and nothing was finished under it
since `b`. -/
structure Settled (b : Backlog ι κ) (k : κ) (b' : Backlog ι κ) : Prop where
  clear : b'.Clear
  gone : k ∈ b'.gone
  held : ∀ i, b'.held i ≠ some k
  finished : ∃ new, b'.finished = new ++ b.finished ∧ k ∉ new

theorem Settled.move {k : κ} {b'' : Backlog ι κ} (h : b.Settled k b') (hm : b'.Move b'') :
    b.Settled k b'' where
  clear := h.clear.move hm
  gone := hm.kept h.gone
  held i hi := by
    rcases hm.held i k hi with hheld | hwait
    · exact h.held i hheld
    · exact h.clear k h.gone hwait
  finished := by
    obtain ⟨new, hnew, hk⟩ := h.finished
    rcases hm.finished with hsame | ⟨i, m, hheld, hcons⟩
    · exact ⟨new, hsame.trans hnew, hk⟩
    · refine ⟨m :: new, by rw [hcons, hnew, List.cons_append], ?_⟩
      have hne : m ≠ k := fun heq => h.held i (heq ▸ hheld)
      simp [hk, hne.symm]

/-- Nothing more is finished under a withdrawn key once nobody works on it. -/
theorem runs_settled {k : κ} (hclear : b.Clear) (hgone : k ∈ b.gone)
    (hheld : ∀ i, b.held i ≠ some k) (hr : Runs Move b b') : b.Settled k b' :=
  Runs.invariant hr ⟨hclear, hgone, hheld, [], rfl, by simp⟩ fun _ _ h hm => h.move hm

theorem runs_clear (h : b.Clear) (hr : Runs Move b b') : b'.Clear :=
  Runs.invariant hr h fun _ _ hc hm => hc.move hm

end Backlog

end Nssf.Base
