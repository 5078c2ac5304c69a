import Mathlib.Logic.Relation

/-! Runs of a transition system, plain and labelled, and the rules that carry an invariant
along them. -/

namespace Nssf.Base

variable {σ κ : Type}

abbrev Runs (step : σ → σ → Prop) : σ → σ → Prop := Relation.ReflTransGen step

theorem Runs.invariant {step : σ → σ → Prop} {I : σ → Prop} {s s' : σ} (hr : Runs step s s')
    (h : I s) (hstep : ∀ s s', I s → step s s' → I s') : I s' := by
  induction hr with
  | refl => exact h
  | tail _ hs ih => exact hstep _ _ ih hs

/-- A run under an invariant is seen as a run of another system. -/
theorem Runs.simulate {τ : Type} {step : σ → σ → Prop} {step' : τ → τ → Prop} {I : σ → Prop}
    {f : σ → τ} {s s' : σ} (hr : Runs step s s') (h : I s)
    (hstep : ∀ s s', I s → step s s' → I s' ∧ step' (f s) (f s')) :
    I s' ∧ Runs step' (f s) (f s') := by
  induction hr with
  | refl => exact ⟨h, .refl⟩
  | tail _ hs ih =>
    obtain ⟨hI, hmove⟩ := hstep _ _ ih.1 hs
    exact ⟨hI, ih.2.tail hmove⟩

/-- A run that remembers the labels of its steps, first step first. -/
inductive Trace (step : σ → κ → σ → Prop) : σ → List κ → σ → Prop
  | nil (s : σ) : Trace step s [] s
  | snoc {s s' s'' : σ} {ls : List κ} {l : κ} (h : Trace step s ls s') (hs : step s' l s'') :
      Trace step s (ls ++ [l]) s''

/-- An invariant that a step keeps when its label is good holds along every run whose labels
are all good. -/
theorem Trace.invariant {step : σ → κ → σ → Prop} {I : σ → Prop} {G : κ → Prop} {s s' : σ}
    {ls : List κ} (ht : Trace step s ls s') (h : I s) (hG : ∀ l ∈ ls, G l)
    (hstep : ∀ s l s', I s → G l → step s l s' → I s') : I s' := by
  induction ht with
  | nil => exact h
  | snoc _ hs ih =>
    have hih := ih fun l hl => hG l (List.mem_append_left _ hl)
    exact hstep _ _ _ hih (hG _ (List.mem_append_right _ List.mem_cons_self)) hs

end Nssf.Base
