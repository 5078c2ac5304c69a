import Nssf.Dispatcher.PgCalls
import Nssf.Subscription.Fanout
import Nssf.Subscription.PgSubscriptions

/-! The fan-out of a committed change over the stores in PostgreSQL. The live rows are read
once; each match may become a tombstone and be given a row in the queue, and a queued row needs
the subscription it refers to. -/

namespace Nssf.Pg

open Base Run Subscription

def stores (table : SubscriptionTable) (key : String) : Bool := table.any fun x => x.id == key

/-- The first command of the turn is refused unless its parameters pass the checks. -/
def checked (w : ServerTurn) (valid : Bool) : ServerTurn :=
  { w with answers := fun n => if n = 0 then castAck valid (w.answers 0) else w.answers n }

/-- `nssf_retry_store_enqueue`; the foreign key of the column is part of the checks. -/
def linkedEnqueue (sql : SqlTypes) (w : ServerTurn) (table : SubscriptionTable) (q : PgStore)
    (sub : String) (callbackUri payload correlationId : Option String) : Run (ℤ × PgStore) :=
  match payload with
  | none => pure (-1, q)
  | some p =>
    if callbackUrlAllowed callbackUri true then
      let key := sql.uuid sub
      pgEnqueue sql.jsonb (checked w (key.any (stores table))) q (key.getD sub) callbackUri (some p)
        correlationId
    else pure (-1, q)

section enqueue

variable {sql : SqlTypes} {w : ServerTurn} {table : SubscriptionTable} {q q' : PgStore}
  {sub : String} {e e' : Env}

/-- A statement whose parameters are refused changes nothing. -/
theorem all_exec_checked {δ : Type} {P : δ → Prop} {session : Session δ} (h : session.All P)
    {f : δ → δ} {valid : Bool} (hf : valid = true → ∀ d, P d → P (f d)) (w : ServerTurn) :
    (session.exec f ((checked w valid).answers 0)).All P := by
  have hanswer : (checked w valid).answers 0 = castAck valid (w.answers 0) := rfl
  rw [hanswer]
  cases valid with
  | true => exact h.exec (hf rfl) _
  | false =>
    cases w.answers 0 with
    | done => exact h.fail _
    | failed ended => exact h.fail _

/-- A row comes in for a stored subscription only. -/
theorem all_linkedEnqueue {P : List PgRow → Prop} {callbackUri payload correlationId : Option String}
    {rc : ℤ} (hP : ∀ rows row, P rows → sql.uuid sub = some row.subscriptionId →
      stores table row.subscriptionId = true → P (rows ++ [row]))
    (hq : q.session.All P)
    (h : linkedEnqueue sql w table q sub callbackUri payload correlationId e =
      .ok ((rc, q'), e')) :
    q'.session.All P := by
  cases payload with
  | none =>
    cases h
    exact hq
  | some p =>
    simp only [linkedEnqueue] at h
    split_ifs at h
    · obtain ⟨o, e₁, -, h⟩ := Prog.bind_eq_ok.1 h
      cases o with
      | none =>
        cases h
        exact hq
      | some envelope =>
        cases h
        dsimp only
        apply all_exec_checked hq
        intro hvalid rows hrows
        obtain ⟨key, hkey, hstored⟩ := (Option.any_eq_true _ _).1 hvalid
        apply hP _ _ hrows
        · rw [hkey]
          rfl
        · rw [hkey]
          exact hstored
    · cases h
      exact hq

end enqueue

structure PgFanoutState where
  subs : Session SubscriptionTable
  queue : PgStore
  enqueued : ℕ

def pgTombstoneMatch (sql : SqlTypes) (w : ServerTurn) (ev : ChangeEvent) (st : PgFanoutState)
    (x : PgSubscription) : PgFanoutState :=
  if ev.changeType = .deleted then { st with subs := (pgTombstone sql w st.subs x.id).2 } else st

def pgEnqueueFor (sql : SqlTypes) (w : ServerTurn) (st : PgFanoutState) (x : PgSubscription) :
    Run PgFanoutState := do
  match ← buildSnapshotPayload x.id with
  | none => return st
  | some payload =>
    let (rc, queue) ← linkedEnqueue sql w st.subs.committed st.queue x.id (some x.callbackUrl)
      (some payload) none
    return { st with queue := queue, enqueued := if rc = 0 then st.enqueued + 1 else st.enqueued }

/-- A filter that does not parse is none. The two turns are those of the two connections. -/
def pgFanoutOne (sql : SqlTypes) (w : ServerTurn × ServerTurn) (ev : ChangeEvent)
    (st : PgFanoutState) (x : PgSubscription) : Run PgFanoutState := do
  let filter ← Json.parse x.filter
  if ← filterMatchesEvent filter ev then
    let st := pgTombstoneMatch sql w.1 ev st x
    if selfNotificationSuppressed x.amfId ev then return st
    else if notificationCallbackUrlAllowed (some x.callbackUrl) then pgEnqueueFor sql w.2 st x
    else return st
  else return st

def pgForEachLive (sql : SqlTypes) (turns : ℕ → ServerTurn × ServerTurn) (ev : ChangeEvent) :
    ℕ → List PgSubscription → PgFanoutState → Run PgFanoutState
  | _, [], st => pure st
  | n, x :: rows, st => do
    let st ← pgFanoutOne sql (turns n) ev st x
    pgForEachLive sql turns ev (n + 1) rows st

/-- The count of the rows that were enqueued, or a failure of the read. -/
def pgFanoutChange (sql : SqlTypes) (w : ServerTurn) (turns : ℕ → ServerTurn × ServerTurn)
    (s : Session SubscriptionTable) (q : PgStore) (ev : ChangeEvent) :
    Run (Option ℕ × PgFanoutState) := do
  let read := s.exec (fun rows => rows) (w.answers 0)
  if w.answers 0 = .done then
    let st ← pgForEachLive sql turns ev 0 (s.view.filter fun x => !x.tombstone) ⟨read, q, 0⟩
    return (some st.enqueued, st)
  else return (none, ⟨read, q, 0⟩)

end Nssf.Pg
