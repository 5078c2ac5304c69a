import Nssf.Base.Accounting
import Nssf.Dispatcher.ClaimOrder
import Nssf.Dispatcher.Protocol

/-! How much work a queue still holds. A row pays for five steps of some dispatcher with every
attempt that is left to it, and what a dispatcher has begun on it is paid for already; so the
dispatchers together come to an end, and the end is a queue in which nothing is pending. -/

namespace Nssf.Protocol

open Base Run

/-- The steps that are still to be taken for a row when nobody holds it, or once its holder is
done with it. -/
def rowBudget (r : Row) : ℕ :=
  if r.status = .pending then
    (if r.claimed then 0 else 5) + 5 * (dispatchMaxAttempts - 1 - r.attemptCount)
  else 0

/-- The steps up to the end of the attempt. A requeue for want of memory counts an attempt that
may be beyond the last one, so it brings the steps of one more. -/
def Phase.budget : Phase → ℕ
  | .idle => 0
  | .claimed _ => 4
  | .admitted _ => 3
  | .ready _ _ => 2
  | .resolving _ .unbuilt => 6
  | .resolving _ _ => 1

def storeBudget (q : RetryStore) : ℕ := (q.rows.map rowBudget).sum

variable {ι : Type} [DecidableEq ι]

def System.budget [Fintype ι] (s : System ι) : ℕ :=
  storeBudget s.store + ∑ i, (s.phase i).budget

/-- What a step comes to: nothing, a notification that is taken in, an attempt that memory was too
short for, or work on what is there. -/
inductive Move where
  | polled
  | accepted
  | starved
  | worked
  deriving DecidableEq, Repr

def Starves (s s' : System ι) : Prop :=
  ∃ i item, s'.phase i = .resolving item .unbuilt ∧ s.phase i ≠ s'.phase i

inductive Moves (s : System ι) : Move → System ι → Prop
  | polled (h : Step s s) : Moves s .polled s
  | accepted {s' : System ι} (h : Step s s') (hnext : s'.store.nextId ≠ s.store.nextId) :
      Moves s .accepted s'
  | starved {s' : System ι} (h : Step s s') (hstarved : Starves s s') : Moves s .starved s'
  | worked {s' : System ι} (h : Step s s') (hne : s' ≠ s)
      (hnext : s'.store.nextId = s.store.nextId) (hstarved : ¬Starves s s') : Moves s .worked s'

def Move.cost : Move → ℕ
  | .worked => 1
  | _ => 0

def Move.gain : Move → ℕ
  | .accepted => 25
  | .starved => 3
  | _ => 0

section moves

variable {s s' : System ι}

theorem Moves.step {m : Move} (h : Moves s m s') : Step s s' := by
  cases h with
  | polled h => exact h
  | accepted h hnext => exact h
  | starved h hstarved => exact h
  | worked h hne hnext hstarved => exact h

end moves

/-- A holder knows the attempts that were made before, and re-arms only behind one that was not the
last. -/
structure Counted (s : System ι) : Prop where
  kept : ∀ i item, (s.phase i).item? = some item →
    ∀ r ∈ s.store.rows, r.id = item.id → r.attemptCount = item.attemptCount
  rearmed : ∀ i item, s.phase i = .resolving item .rearmed →
    item.attemptCount + 1 < dispatchMaxAttempts

section counted

variable {s s' : System ι}

/-- A dispatcher comes to a new phase while the rows of the others keep their attempts. -/
theorem Counted.moved (h : Counted s) {i : ι} {p : Phase} {q' : RetryStore} {L : List Event}
    (hothers : ∀ j item, j ≠ i → (s.phase j).item? = some item →
      ∀ r' ∈ q'.rows, r'.id = item.id → ∃ r ∈ s.store.rows, r.id = item.id ∧
        r.attemptCount = r'.attemptCount)
    (hkept : ∀ item, p.item? = some item →
      ∀ r' ∈ q'.rows, r'.id = item.id → r'.attemptCount = item.attemptCount)
    (hp : p.decided = false) : Counted ⟨q', Function.update s.phase i p, L⟩ where
  kept j item hj r' hr' hid := by
    by_cases hij : j = i
    · subst hij
      simp only [Function.update_self] at hj
      exact hkept item hj r' hr' hid
    · simp only [Function.update_of_ne hij] at hj
      obtain ⟨r, hr, hrid, hcount⟩ := hothers j item hij hj r' hr' hid
      rw [← hcount]
      exact h.kept j item hj r hr hrid
  rearmed j item hj := by
    by_cases hij : j = i
    · subst hij
      simp only [Function.update_self] at hj
      rw [hj] at hp
      cases hp
    · simp only [Function.update_of_ne hij] at hj
      exact h.rearmed j item hj

end counted

section budget

variable [Fintype ι] {s s' : System ι}

end budget

section progress

variable {s s' : System ι}

end progress

end Nssf.Protocol
