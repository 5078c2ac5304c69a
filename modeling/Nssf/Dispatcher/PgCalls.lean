import Nssf.Base.Session
import Nssf.Dispatcher.Dispatch
import Nssf.Dispatcher.PgRetryStore

/-! The calls of the retry store in PostgreSQL, command by command. The transaction that a
dequeue opens stays open for the row it claims; the call that resolves the row closes it. The
result of the closing command is not looked at. -/

namespace Nssf.Pg

open Base Run

structure PgStore where
  session : Session (List PgRow)
  nextId : ℕ

def rcOf : Ack → ℤ
  | .done => 0
  | .failed _ => -1

/-- `jsonb` is what the column hands back for a text that is stored in it. -/
def pgEnqueue (jsonb : String → String) (w : ServerTurn) (s : PgStore) (subId : String)
    (callbackUri payload correlationId : Option String) : Run (ℤ × PgStore) := do
  match ← envelopeBuild callbackUri payload correlationId with
  | none => return (-1, s)
  | some envelope =>
    let row : PgRow := ⟨s.nextId, subId, jsonb envelope, 0, s.session.now w.now, .pending⟩
    let session := s.session.exec (· ++ [row]) (w.answers 0)
    return (rcOf (w.answers 0),
      ⟨session, if w.answers 0 = .done then s.nextId + 1 else s.nextId⟩)

def pgDue (now : ℤ) (r : PgRow) : Bool :=
  r.status == .pending && decide (r.nextAttemptAt ≤ now)

def pgBefore (r p : PgRow) : Bool :=
  decide (r.nextAttemptAt < p.nextAttemptAt) ||
    (r.nextAttemptAt == p.nextAttemptAt && decide (r.id < p.id))

def pgPickStep (now : ℤ) (pick : Option PgRow) (r : PgRow) : Option PgRow :=
  if pgDue now r then
    match pick with
    | none => some r
    | some p => if pgBefore r p then some r else some p
  else pick

/-- The claiming `SELECT`. The locks of the own transaction are no obstacle to it. -/
def pgSelect (now : ℤ) (rows : List PgRow) : Option PgRow := rows.foldl (pgPickStep now) none

inductive ReadRow where
  | short
  | poison
  | item (item : RetryItem)

/-- The copies of the selected row, and its envelope taken apart. -/
def readRow (row : PgRow) : Run ReadRow := do
  let env ← allocated row.payload
  let id ← allocated row.id
  let sub ← allocated row.subscriptionId
  match env, id, sub with
  | some env, some id, some sub =>
    match ← envelopeSplit env with
    | none => return .poison
    | some parts =>
      return .item ⟨id, sub, parts.callbackUri, parts.body, parts.correlationId, row.attemptCount⟩
  | _, _, _ => return .short

/-- The part of a dequeue behind its `SELECT`. -/
def pgClaimRow (w : ServerTurn) (s : PgStore) (row : PgRow) :
    Run (RetryStore.Dequeued × PgStore) := do
  match ← readRow row with
  | .short => return (.error, { s with session := s.session.rollback (w.answers 2) })
  | .poison =>
    let deleted := s.session.exec (removeKey PgRow.id row.id) (w.answers 2)
    if w.answers 2 = .done then
      return (.none, { s with session := deleted.commit (w.answers 3) })
    else return (.error, { s with session := deleted.rollback (w.answers 3) })
  | .item item => return (.claimed item, s)

def pgDequeue (w : ServerTurn) (s : PgStore) : Run (RetryStore.Dequeued × PgStore) :=
  let begun := s.session.start w.now (w.answers 0)
  let read := begun.exec id (w.answers 1)
  if w.answers 0 ≠ .done then pure (.error, { s with session := begun })
  else if w.answers 1 ≠ .done then
    pure (.error, { s with session := read.rollback (w.answers 2) })
  else
    match pgSelect (begun.now w.now) begun.view with
    | none => pure (.none, { s with session := read.commit (w.answers 2) })
    | some row => pgClaimRow w { s with session := read } row

/-- A statement on one row, and the end of the transaction. -/
def pgResolve (w : ServerTurn) (s : PgStore) (f : List PgRow → List PgRow) : ℤ × PgStore :=
  let changed := s.session.exec f (w.answers 0)
  if w.answers 0 = .done then (0, { s with session := changed.commit (w.answers 1) })
  else (-1, { s with session := changed.rollback (w.answers 1) })

def pgComplete (w : ServerTurn) (s : PgStore) (id : ℕ) : ℤ × PgStore :=
  pgResolve w s (removeKey PgRow.id id)

def pgRequeue (w : ServerTurn) (s : PgStore) (id : ℕ) : ℤ × PgStore :=
  pgResolve w s (updateKey PgRow.id id (rearm w.random (s.session.now w.now)))

def pgDeadLetter (w : ServerTurn) (s : PgStore) (id : ℕ) : ℤ × PgStore :=
  pgResolve w s (updateKey PgRow.id id fun r => { r with status := .deadLetter })

def resolve (w : ServerTurn) (s : PgStore) (id : ℕ) : StoreOp → ℤ × PgStore
  | .complete => pgComplete w s id
  | .requeue => pgRequeue w s id
  | .deadLetter => pgDeadLetter w s id

/-- What a call that resolves a row is to make of it. -/
def outcome (w : ServerTurn) (s : PgStore) (row : PgRow) : StoreOp → Option PgRow
  | .complete => none
  | .requeue => some (rearm w.random (s.session.now w.now) row)
  | .deadLetter => some { row with status := .deadLetter }

/-- The row is stored, pending, and locked by the transaction of the connection. -/
structure PgStore.Claimed (s : PgStore) (row : PgRow) : Prop where
  tx : s.session.tx ≠ none
  stored : findKey PgRow.id row.id s.session.committed = some row
  seen : findKey PgRow.id row.id s.session.view = some row
  pending : row.status = .pending

section durable

variable {w : ServerTurn} {s : PgStore} {row : PgRow}

theorem rearm_id (u : ℚ) (start : ℤ) (r : PgRow) : (rearm u start r).id = r.id := by
  simp only [rearm]
  split_ifs <;> rfl

theorem resolve_eq (w : ServerTurn) (s : PgStore) (id : ℕ) (op : StoreOp) :
    ∃ f : List PgRow → List PgRow, resolve w s id op = pgResolve w s f ∧
      ∀ rows row, findKey PgRow.id id rows = some row →
        findKey PgRow.id id (f rows) = outcome w s row op := by
  cases op with
  | complete =>
    refine ⟨_, rfl, fun rows row _ => ?_⟩
    rw [findKey_removeKey, if_pos rfl]
    rfl
  | requeue =>
    refine ⟨_, rfl, fun rows row hrow => ?_⟩
    rw [findKey_updateKey (rearm_id _ _), if_pos rfl, hrow]
    rfl
  | deadLetter =>
    refine ⟨_, rfl, fun rows row hrow => ?_⟩
    have hid (r : PgRow) : ({ r with status := .deadLetter } : PgRow).id = r.id := rfl
    rw [findKey_updateKey hid, if_pos rfl, hrow]
    rfl

/-- A pending row never stays as it is. -/
theorem outcome_ne (h : row.status = .pending) (w : ServerTurn) (s : PgStore) (op : StoreOp) :
    outcome w s row op ≠ some row := by
  cases op with
  | complete => simp [outcome]
  | requeue =>
    intro he
    have hcount := congrArg PgRow.attemptCount (Option.some.inj he)
    simp [rearm, h] at hcount
  | deadLetter =>
    intro he
    have hstatus := congrArg PgRow.status (Option.some.inj he)
    rw [h] at hstatus
    cases hstatus

theorem resolve_durable_iff (h : s.Claimed row) (w : ServerTurn) (op : StoreOp) :
    ((resolve w s row.id op).1 = 0 →
        findKey PgRow.id row.id (resolve w s row.id op).2.session.committed =
          outcome w s row op) ↔
      ¬(w.answers 0 = .done ∧ w.answers 1 ≠ .done) := by
  obtain ⟨f, hf, hrow⟩ := resolve_eq w s row.id op
  rw [hf, pgResolve]
  by_cases hdone : w.answers 0 = .done
  · have hview : (s.session.exec f (w.answers 0)).view = f s.session.view := by
      rw [hdone, Session.view_exec_done]
    have hkept : (s.session.exec f (w.answers 0)).committed = s.session.committed :=
      Session.committed_exec f _ h.tx
    simp only [hdone, if_true, true_and, not_not, forall_const]
    rw [hdone] at hview hkept
    by_cases hcommit : w.answers 1 = .done
    · simp only [hcommit, iff_true, Session.commit, hview]
      exact hrow _ _ h.seen
    · simp only [hcommit, iff_false]
      rw [Session.committed_commit_failed hcommit, hkept, h.stored]
      exact fun he => outcome_ne h.pending w s op he.symm
  · simp [hdone]

/-- What the claiming `SELECT` of a dequeue returns. -/
def PgStore.selected (w : ServerTurn) (s : PgStore) : Option PgRow :=
  pgSelect (s.session.now w.now) s.session.view

/-- The command that is to end the transaction of a dequeue without a claim does end it, or no
transaction is open when not even the `BEGIN` succeeds. -/
def Closing (w : ServerTurn) (s : PgStore) (e : Env) : Prop :=
  match w.answers 0, w.answers 1 with
  | .failed ended, _ => s.session.tx = none ∨ ended = true
  | .done, .failed ended => ended = true ∨ (w.answers 2).Closes
  | .done, .done =>
    match s.selected w with
    | none => (w.answers 2).Closes
    | some row =>
      match Prog.result? (readRow row) e with
      | some .poison => w.answers 2 = .failed true ∨ (w.answers 3).Closes
      | _ => (w.answers 2).Closes

theorem tx_start_exec (clock : ℤ) (f : List PgRow → List PgRow) :
    ((s.session.start clock .done).exec f .done).tx ≠ none := by
  simp [Session.start, Session.exec]

/-- A row that cannot be delivered is reported as dropped. -/
theorem dequeue_durable_iff {e e' : Env} (hbegin : w.answers 0 = .done)
    (hselect : w.answers 1 = .done) (hrow : s.selected w = some row)
    (hstored : findKey PgRow.id row.id s.session.committed = some row)
    (hread : readRow row e = .ok (.poison, e')) :
    ∃ got s', pgDequeue w s e = .ok ((got, s'), e') ∧
      ((got = .none → findKey PgRow.id row.id s'.session.committed = none) ↔
        ¬(w.answers 2 = .done ∧ w.answers 3 ≠ .done)) := by
  have hsel : pgSelect ((s.session.start w.now .done).now w.now)
      (s.session.start w.now .done).view = some row := hrow
  have htx := tx_start_exec (s := s) w.now id
  have hview : ((s.session.start w.now .done).exec id .done).view = s.session.view :=
    Session.view_exec_done id
  have hkept : ((s.session.start w.now .done).exec id .done).committed = s.session.committed :=
    rfl
  have hrun : pgDequeue w s e = (pgClaimRow w
      { s with session := (s.session.start w.now .done).exec id .done } row) e := by
    simp only [pgDequeue, hbegin, hselect, hsel, ne_eq, not_true_eq_false, if_false]
  generalize (s.session.start w.now .done).exec id .done = read at htx hview hkept hrun
  rw [hrun, pgClaimRow, Prog.bind_of_ok hread]
  dsimp only
  by_cases hdone : w.answers 2 = .done
  · have hdeleted : (read.exec (removeKey PgRow.id row.id) .done).committed = read.committed :=
      Session.committed_exec _ _ htx
    rw [if_pos hdone, hdone]
    refine ⟨_, _, rfl, ?_⟩
    simp only [true_and, not_not, forall_const]
    by_cases hcommit : w.answers 3 = .done
    · simp only [hcommit, iff_true, Session.commit, Session.view_exec_done]
      rw [findKey_removeKey, if_pos rfl]
    · simp only [hcommit, iff_false]
      rw [Session.committed_commit_failed hcommit, hdeleted, hkept, hstored]
      exact Option.some_ne_none row
  · rw [if_neg hdone]
    exact ⟨_, _, rfl, by simp [hdone]⟩

theorem dequeue_closed_iff {e e' : Env} {got : RetryStore.Dequeued} {s' : PgStore}
    (h : pgDequeue w s e = .ok ((got, s'), e')) (hgot : ∀ item, got ≠ .claimed item) :
    s'.session.tx = none ↔ Closing w s e := by
  simp only [pgDequeue] at h
  cases hbegin : w.answers 0 with
  | failed ended =>
    rw [hbegin, if_pos (by simp)] at h
    cases h
    simp only [Closing, hbegin]
    exact Session.tx_fail_eq_none
  | done =>
    have htx (f : List PgRow → List PgRow) := tx_start_exec (s := s) w.now f
    rw [hbegin, if_neg (by simp)] at h
    cases hselect : w.answers 1 with
    | failed ended =>
      rw [hselect, if_pos (by simp)] at h
      cases h
      simp only [Closing, hbegin, hselect]
      rw [Session.tx_rollback_eq_none]
      exact or_congr (by simp [Session.exec, Session.tx_fail_eq_none, Session.start]) Iff.rfl
    | done =>
      rw [hselect, if_neg (by simp)] at h
      simp only [Closing, hbegin, hselect]
      have hsel : pgSelect ((s.session.start w.now .done).now w.now)
          (s.session.start w.now .done).view = s.selected w := rfl
      rw [hsel] at h
      cases hrow : s.selected w with
      | none =>
        rw [hrow] at h
        cases h
        rw [Session.tx_commit_eq_none]
        exact or_iff_right (htx id)
      | some row =>
        rw [hrow] at h
        obtain ⟨read, e₁, hread, h⟩ := Prog.bind_eq_ok.1 h
        have hresult := Prog.result?_of_ok hread
        simp only [hresult]
        cases read with
        | short =>
          cases h
          rw [Session.tx_rollback_eq_none]
          exact or_iff_right (htx id)
        | poison =>
          dsimp only at h
          split_ifs at h with hdone
          · cases h
            rw [Session.tx_commit_eq_none, Session.tx_exec_eq_none (htx id)]
          · cases h
            rw [Session.tx_rollback_eq_none, Session.tx_exec_eq_none (htx id)]
        | item item =>
          cases h
          exact absurd rfl (hgot item)

/-- When the results of the store can be relied on. The answer to a commit is not looked at, so
a change that is reported is there unless its commit failed, and a call without a claim leaves
no transaction behind unless the command that is to end it fails. -/
theorem pg_durable_iff (w : ServerTurn) (s : PgStore) (e : Env) :
    (∀ row op, s.Claimed row →
      (((resolve w s row.id op).1 = 0 →
          findKey PgRow.id row.id (resolve w s row.id op).2.session.committed =
            outcome w s row op) ↔
        ¬(w.answers 0 = .done ∧ w.answers 1 ≠ .done))) ∧
    (∀ row e', w.answers 0 = .done → w.answers 1 = .done → s.selected w = some row →
      findKey PgRow.id row.id s.session.committed = some row →
      readRow row e = .ok (.poison, e') →
      ∃ got s', pgDequeue w s e = .ok ((got, s'), e') ∧
        ((got = .none → findKey PgRow.id row.id s'.session.committed = none) ↔
          ¬(w.answers 2 = .done ∧ w.answers 3 ≠ .done))) ∧
    ∀ got s' e', pgDequeue w s e = .ok ((got, s'), e') → (∀ item, got ≠ .claimed item) →
      (s'.session.tx = none ↔ Closing w s e) := by
  refine ⟨fun row op h => resolve_durable_iff h w op, ?_, ?_⟩
  · intro row e' hbegin hselect hrow hstored hread
    exact dequeue_durable_iff hbegin hselect hrow hstored hread
  · intro got s' e' h hgot
    exact dequeue_closed_iff h hgot

end durable

section sample

def claimedRow : PgRow := ⟨1, "s", "\x7b\x7d", 0, 0, .pending⟩

def claimedStore : PgStore := ⟨⟨[claimedRow], some ⟨0, [claimedRow]⟩⟩, 2⟩

theorem claimed_claimedStore : claimedStore.Claimed claimedRow where
  tx := by simp [claimedStore]
  stored := by decide
  seen := by decide
  pending := rfl

/-- A turn in which the second command is answered so. -/
def turnWith (a : Ack) : ServerTurn := ⟨0, 0, fun n => if n = 1 then a else .done⟩

theorem pg_durable_committed :
    (resolve (turnWith .done) claimedStore 1 .complete).1 = 0 ∧
      findKey PgRow.id 1 (resolve (turnWith .done) claimedStore 1 .complete).2.session.committed =
        none :=
  ⟨rfl, ((pg_durable_iff (turnWith .done) claimedStore .quiet).1 claimedRow .complete
    claimed_claimedStore).2 (by decide) rfl⟩

/-- A delivered row is reported as gone and will be sent again. -/
theorem failed_commit_unreported :
    claimedStore.Claimed claimedRow ∧
      (resolve (turnWith (.failed true)) claimedStore 1 .complete).1 = 0 ∧
      findKey PgRow.id 1
        (resolve (turnWith (.failed true)) claimedStore 1 .complete).2.session.committed =
        some claimedRow :=
  ⟨claimed_claimedStore, rfl, rfl⟩

end sample

end Nssf.Pg
