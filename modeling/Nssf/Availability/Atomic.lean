import Nssf.Availability.Publication

/-! Whether a call changes everything or nothing. The engine commits and publishes before it
builds its answer, so an answer that cannot be built makes a refusal of a committed change. -/

namespace Nssf

open Base Run

section hands

variable {α β : Type} {G : Env → Prop}

/-- The program returns, and with a value exactly when `G` holds of what it starts from. -/
def Hands (G : Env → Prop) (m : Run (Option α)) : Prop :=
  ∀ e, ∃ o e', m e = .ok (o, e') ∧ (o.isSome = true ↔ G e)

theorem Hands.congr {G' : Env → Prop} {m : Run (Option α)} (h : Hands G m)
    (hG : ∀ e, G e ↔ G' e) : Hands G' m := by
  intro e
  obtain ⟨o, e', hrun, ho⟩ := h e
  exact ⟨o, e', hrun, ho.trans (hG e)⟩

theorem Hands.checked {f : Option α → Run (Option β)} {a : α} (hn : f none = pure none)
    (hf : Hands G (f (some a))) :
    Hands (fun e => e.alloc.head = true ∧ G e.popAlloc) (allocated a >>= f) := by
  intro e
  rw [Prog.bind_of_ok (allocated_apply a e)]
  cases h : e.alloc.head with
  | true =>
    obtain ⟨o, e', hrun, ho⟩ := hf e.popAlloc
    exact ⟨o, e', hrun, by simpa [h] using ho⟩
  | false => exact ⟨none, e.popAlloc, congrFun hn _, by simp [h]⟩

theorem Hands.unchecked {f : Bool → Run (Option β)} (hf : ∀ b, Hands G (f b)) :
    Hands (fun e => G e.popAlloc) (alloc >>= f) :=
  fun e => hf e.alloc.head e.popAlloc

theorem Hands.addItem {f : Json → Run (Option β)} (hf : ∀ data, Hands G (f data)) (data : Json)
    (name : String) (v : Json) :
    Hands (fun e => G e.popAlloc) (Json.addItemToObject data name (some v) >>= f) := by
  unfold Json.addItemToObject
  rw [bind_assoc]
  apply Hands.unchecked
  intro b
  cases b with
  | true => exact hf _
  | false => exact hf _

end hands

/-- The allocations of `makeAuthorizedInfo` whose failure it reports, by their place among all
that it makes. The adds in between go unchecked. -/
def checkedAllocations (features : Option String) : List ℕ :=
  [0, 1, 3, 4, 6] ++ if features.isSome then [8] else []

/-- Nothing that the answer checks is refused in `e`. An answer without a body checks nothing. -/
def Answer.Granted (a : Answer) (e : Env) : Prop :=
  a.snssais ≠ [] → a.wanted = true → ∀ n ∈ checkedAllocations a.features, e.alloc.get n = true

namespace EngineCall

end EngineCall

end Nssf
