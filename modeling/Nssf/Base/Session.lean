import Mathlib.Data.Rat.Defs

/-! One connection to a database, as its client sees it. Statements inside a transaction work
on a copy that a commit publishes, statements outside of one publish what they do at once. Any
command may fail, and a failure may take the open transaction with it. -/

namespace Nssf.Base

inductive Ack where
  | done
  | failed (ended : Bool)
  deriving DecidableEq, Repr

/-- The server during one call: its clock, its random source, and what it makes of the commands
of the call, in their order. -/
structure ServerTurn where
  now : ℤ
  random : ℚ
  answers : ℕ → Ack

/-- The same call behind its first commands. -/
def ServerTurn.after (w : ServerTurn) (n : ℕ) : ServerTurn :=
  { w with answers := fun k => w.answers (n + k) }

structure Transaction (δ : Type) where
  start : ℤ
  work : δ

structure Session (δ : Type) where
  committed : δ
  tx : Option (Transaction δ)

namespace Session

variable {δ : Type}

/-- What a statement on the connection sees. -/
def view (s : Session δ) : δ := s.tx.elim s.committed Transaction.work

/-- `NOW()`: the start of the transaction, a statement of its own being one. -/
def now (s : Session δ) (clock : ℤ) : ℤ := s.tx.elim clock Transaction.start

def fail (s : Session δ) (ended : Bool) : Session δ := if ended then { s with tx := none } else s

/-- Inside an open transaction this changes nothing. -/
def start (s : Session δ) (clock : ℤ) : Ack → Session δ
  | .done => { s with tx := some ⟨s.now clock, s.view⟩ }
  | .failed ended => s.fail ended

def exec (s : Session δ) (f : δ → δ) : Ack → Session δ
  | .done =>
    match s.tx with
    | none => { s with committed := f s.committed }
    | some t => { s with tx := some { t with work := f t.work } }
  | .failed ended => s.fail ended

def commit (s : Session δ) : Ack → Session δ
  | .done => ⟨s.view, none⟩
  | .failed ended => s.fail ended

def rollback (s : Session δ) : Ack → Session δ
  | .done => { s with tx := none }
  | .failed ended => s.fail ended

end Session

/-- After a commit or a rollback that is answered so, no transaction is open. -/
def Ack.Closes : Ack → Prop
  | .done => True
  | .failed ended => ended = true

instance : DecidablePred Ack.Closes
  | .done => isTrue trivial
  | .failed ended => inferInstanceAs (Decidable (ended = true))

namespace Session

variable {δ : Type} {s : Session δ}

theorem committed_fail (ended : Bool) : (s.fail ended).committed = s.committed := by
  cases ended <;> rfl

theorem tx_fail_eq_none {ended : Bool} : (s.fail ended).tx = none ↔ s.tx = none ∨ ended = true := by
  cases ended with
  | false => simp [fail]
  | true => simp [fail]

theorem view_exec_done (f : δ → δ) : (s.exec f .done).view = f s.view := by
  obtain ⟨committed, tx⟩ := s
  cases tx <;> rfl

/-- Within a transaction nothing is published. -/
theorem committed_exec (f : δ → δ) (a : Ack) (h : s.tx ≠ none) :
    (s.exec f a).committed = s.committed := by
  obtain ⟨committed, tx⟩ := s
  cases a with
  | done =>
    cases tx with
    | none => exact absurd rfl h
    | some t => rfl
  | failed ended => exact committed_fail ended

theorem committed_commit_failed {a : Ack} (h : a ≠ .done) :
    (s.commit a).committed = s.committed := by
  cases a with
  | done => exact absurd rfl h
  | failed ended => exact committed_fail ended

theorem tx_exec_eq_none {f : δ → δ} {a : Ack} (h : s.tx ≠ none) :
    (s.exec f a).tx = none ↔ a = .failed true := by
  obtain ⟨committed, tx⟩ := s
  cases a with
  | done =>
    cases tx with
    | none => exact absurd rfl h
    | some t => simp [exec]
  | failed ended => simp [exec, tx_fail_eq_none, h]

theorem tx_commit_eq_none {a : Ack} : (s.commit a).tx = none ↔ s.tx = none ∨ a.Closes := by
  cases a with
  | done => simp [commit, Ack.Closes]
  | failed ended => simp [commit, tx_fail_eq_none, Ack.Closes]

theorem tx_rollback_eq_none {a : Ack} :
    (s.rollback a).tx = none ↔ s.tx = none ∨ a.Closes := by
  cases a with
  | done => simp [rollback, Ack.Closes]
  | failed ended => simp [rollback, tx_fail_eq_none, Ack.Closes]

/-- A change that another connection commits, as it shows here. -/
def both (s : Session δ) (f : δ → δ) : Session δ :=
  ⟨f s.committed, s.tx.map fun t => { t with work := f t.work }⟩

/-- What holds of the committed data and of what the connection sees. -/
structure All (P : δ → Prop) (s : Session δ) : Prop where
  committed : P s.committed
  view : P s.view

section all

variable {P : δ → Prop}

theorem All.fail (h : s.All P) (ended : Bool) : (s.fail ended).All P := by
  cases ended with
  | false => exact h
  | true => exact ⟨h.committed, h.committed⟩

theorem All.start (h : s.All P) (clock : ℤ) (a : Ack) : (s.start clock a).All P := by
  cases a with
  | done => exact ⟨h.committed, h.view⟩
  | failed ended => exact h.fail ended

theorem All.exec (h : s.All P) {f : δ → δ} (hf : ∀ d, P d → P (f d)) (a : Ack) :
    (s.exec f a).All P := by
  cases a with
  | done =>
    obtain ⟨committed, tx⟩ := s
    cases tx with
    | none => exact ⟨hf _ h.committed, hf _ h.committed⟩
    | some t => exact ⟨h.committed, hf _ h.view⟩
  | failed ended => exact h.fail ended

theorem All.commit (h : s.All P) (a : Ack) : (s.commit a).All P := by
  cases a with
  | done => exact ⟨h.view, h.view⟩
  | failed ended => exact h.fail ended

theorem All.rollback (h : s.All P) (a : Ack) : (s.rollback a).All P := by
  cases a with
  | done => exact ⟨h.committed, h.committed⟩
  | failed ended => exact h.fail ended

theorem all_both {f : δ → δ} (hf : ∀ d, P (f d)) : (s.both f).All P := by
  obtain ⟨committed, tx⟩ := s
  cases tx with
  | none => exact ⟨hf _, hf _⟩
  | some t => exact ⟨hf _, hf _⟩

theorem All.mono {Q : δ → Prop} (h : s.All P) (hPQ : ∀ d, P d → Q d) : s.All Q :=
  ⟨hPQ _ h.committed, hPQ _ h.view⟩

end all

end Session

/-- A parameter that its cast refuses fails the statement. -/
def castAck (valid : Bool) (a : Ack) : Ack :=
  if valid then a else match a with
    | .done => .failed false
    | .failed ended => .failed ended

/-- The end of a call that changes the table in a transaction of its own: here the answer to
the commit counts. -/
def pgCommitted {δ α : Type} (w : ServerTurn) (s : Session δ) (result failed : α) :
    α × Session δ :=
  let closed := s.commit (w.answers 0)
  if w.answers 0 = .done then (result, closed) else (failed, closed.rollback (w.answers 1))

def pgChange {δ α : Type} (w : ServerTurn) (s : Session δ) (f : δ → δ) (valid : Bool)
    (result : α) (failed : α) : α × Session δ :=
  let begun := s.start w.now (w.answers 0)
  let a := castAck valid (w.answers 1)
  let changed := begun.exec f a
  if w.answers 0 ≠ .done then (failed, begun)
  else if a ≠ .done then (failed, changed.rollback (w.answers 2))
  else pgCommitted (w.after 2) changed result failed

section changes

variable {δ : Type} {w : ServerTurn} {s s' : Session δ}

/-- A change that is not answered as failed is committed. -/
theorem pgChange_done {α : Type} {f : δ → δ} {valid : Bool} {result failed r : α}
    (h : pgChange w s f valid result failed = (r, s')) (hr : r ≠ failed) :
    r = result ∧ valid = true ∧ s' = ⟨f s.view, none⟩ := by
  simp only [pgChange] at h
  split_ifs at h with hbegin hchange
  · exact absurd (congrArg Prod.fst h).symm hr
  · exact absurd (congrArg Prod.fst h).symm hr
  · have hbegin := not_not.1 hbegin
    have hchange := not_not.1 hchange
    rw [hchange] at h
    simp only [pgCommitted] at h
    split_ifs at h with hcommit
    · cases h
      refine ⟨rfl, ?_, ?_⟩
      · cases valid with
        | true => rfl
        | false =>
          cases ha : w.answers 1 with
          | done => simp [castAck, ha] at hchange
          | failed ended => simp [castAck, ha] at hchange
      · rw [hcommit, hbegin]
        rfl
    · exact absurd (congrArg Prod.fst h).symm hr

/-- What the change keeps of the rows, the call keeps of the table, however it ends. -/
theorem all_pgChange {α : Type} {P : δ → Prop} (h : s.All P) {f : δ → δ}
    (hf : ∀ rows, P rows → P (f rows)) (valid : Bool) (result failed : α) : (pgChange w s f valid result failed).2.All P := by
  have hbegun := h.start w.now (w.answers 0)
  have hchanged := hbegun.exec hf (castAck valid (w.answers 1))
  simp only [pgChange, pgCommitted]
  split_ifs
  · exact hbegun
  · exact hchanged.rollback _
  · exact hchanged.commit _
  · exact (hchanged.commit _).rollback _

end changes

end Nssf.Base
