import Nssf.Base.Paired
import Nssf.Dispatcher.ClaimOrder
import Nssf.Dispatcher.PgCalls
import Nssf.Dispatcher.StoredEnvelopes

/-! The in-memory retry store beside the one in PostgreSQL, call by call on one handle. The rows of
the two stay in step, but the flag of a claimed row has no counterpart in the open transaction: a
transaction does not skip the rows that it has locked itself. -/

namespace Nssf.Pg

open Base Run

inductive RetryCall where
  | enqueue (subscriptionId : String) (callbackUri : Option String) (payload : String)
      (correlationId : Option String)
  | dequeue
  | resolve (id : ℕ) (op : StoreOp)

inductive RetryAnswer where
  | code (rc : ℤ)
  | got (dequeued : RetryStore.Dequeued)
  deriving DecidableEq

def memCall (q : RetryStore) : RetryCall → Run (RetryAnswer × RetryStore)
  | .enqueue sub callbackUri payload correlationId => do
    let r ← q.enqueue (some sub) callbackUri (some payload) correlationId
    return (.code (if r.1 then 0 else -1), r.2)
  | .dequeue => do
    let r ← q.memDequeue
    return (.got r.1, r.2)
  | .resolve id op => do
    let q' ← q.resolve id op
    return (.code 0, q')

/-- The gate for the callback stands in front of either store. -/
def pgCall (jsonb : String → String) (w : ServerTurn) (s : PgStore) :
    RetryCall → Run (RetryAnswer × PgStore)
  | .enqueue sub callbackUri payload correlationId =>
    if callbackUrlAllowed callbackUri true then do
      let r ← pgEnqueue jsonb w s sub callbackUri (some payload) correlationId
      return (.code r.1, r.2)
    else pure (.code (-1), s)
  | .dequeue => do
    let r ← pgDequeue w s
    return (.got r.1, r.2)
  | .resolve id op => pure (.code (resolve w s id op).1, (resolve w s id op).2)

/-- The same code, and for a claim the same row with the same count and the same payload. -/
inductive Agree : RetryAnswer → RetryAnswer → Prop
  | code (rc : ℤ) : Agree (.code rc) (.code rc)
  | none : Agree (.got .none) (.got .none)
  | error : Agree (.got .error) (.got .error)
  | claimed {item item' : RetryItem} (id : item.id = item'.id)
      (subscriptionId : item.subscriptionId = item'.subscriptionId)
      (callbackUri : item.callbackUri = item'.callbackUri)
      (payload : SameJson item.payloadJson item'.payloadJson)
      (correlationId : item.correlationId = item'.correlationId)
      (attemptCount : item.attemptCount = item'.attemptCount) :
      Agree (.got (.claimed item)) (.got (.claimed item'))

section runs

variable (jsonb : String → String)

end runs

/-- A claimed row that is still pending and due has another due row before it. -/
def Unobstructed (q : RetryStore) (now : ℤ) : Prop :=
  ∀ r ∈ q.rows, r.claimed = true → r.status = .pending → r.dueAtMs ≤ now →
    ∃ p ∈ q.rows, RetryStore.due now p = true ∧ RetryStore.before p r = true

section rows

structure RowMatch (m : Row) (p : PgRow) : Prop where
  id : m.id = p.id
  subscriptionId : m.subscriptionId = p.subscriptionId
  status : m.status = p.status
  -- the attempts of a dead row are counted on by one store and not by the other
  schedule : m.status = .pending →
    m.attemptCount = p.attemptCount ∧ p.nextAttemptAt = 1000 * m.dueAtMs
  envelope : SplitAlike m.envelope p.payload

variable {q q' : RetryStore} {prs : List PgRow} {m m' : Row} {p p' : PgRow} {now : ℤ}

/-- Due in the column is due in memory, but for the flag. -/
theorem pgDue_iff (h : RowMatch m p) :
    pgDue (1000 * now) p = true ↔ m.status = .pending ∧ m.dueAtMs ≤ now := by
  simp only [pgDue, ← h.status, Bool.and_eq_true, beq_iff_eq, decide_eq_true_eq]
  constructor
  · rintro ⟨hstatus, hdue⟩
    have hnext := (h.schedule hstatus).2
    exact ⟨hstatus, by omega⟩
  · rintro ⟨hstatus, hdue⟩
    have hnext := (h.schedule hstatus).2
    exact ⟨hstatus, by omega⟩

/-- The order of the claiming `SELECT`. -/
def pgKey (p : PgRow) : ℤ ×ₗ ℕ := toLex (p.nextAttemptAt, p.id)

theorem pgBefore_iff (r p : PgRow) : pgBefore r p = true ↔ pgKey r < pgKey p := by
  simp only [pgBefore, pgKey, Prod.Lex.toLex_lt_toLex, Bool.or_eq_true, Bool.and_eq_true,
    decide_eq_true_eq, beq_iff_eq]

theorem pgSelect_eq (now : ℤ) (prs : List PgRow) :
    pgSelect now prs = (prs.filter (pgDue now)).argmin pgKey := by
  simp only [pgSelect, List.argmin, List.foldl_filter]
  congr 1
  funext pick r
  by_cases hdue : pgDue now r = true
  · simp only [pgPickStep, hdue, if_true]
    cases pick with
    | none => rfl
    | some p =>
      simp only [List.argAux]
      exact if_congr (pgBefore_iff r p) rfl rfl
  · simp only [pgPickStep, hdue]
    rfl

theorem pgKey_lt_iff (h : RowMatch m p) (hm : m.status = .pending) (h' : RowMatch m' p')
    (hm' : m'.status = .pending) :
    pgKey p < pgKey p' ↔ RetryStore.claimKey m < RetryStore.claimKey m' := by
  have hnext := (h.schedule hm).2
  have hnext' := (h'.schedule hm').2
  have hid := h.id
  have hid' := h'.id
  simp only [pgKey, RetryStore.claimKey, Prod.Lex.toLex_lt_toLex]
  omega

/-- The claiming `SELECT` finds nothing when the scan of the rows in memory does not. -/
theorem pgSelect_none (hrows : List.Forall₂ RowMatch q.rows prs) (hfree : Unobstructed q now)
    (hpick : q.pickDue now = none) : pgSelect (1000 * now) prs = none := by
  rw [pgSelect_eq, List.argmin_eq_none, List.filter_eq_nil_iff]
  intro p hp hdue
  obtain ⟨m, hm, hmp⟩ := exists_of_mem hrows.flip hp
  obtain ⟨hstatus, htime⟩ := (pgDue_iff hmp).1 hdue
  have hnone := RetryStore.pickDue_none hpick
  cases hclaimed : m.claimed with
  | true =>
    obtain ⟨b, hb, hbdue, -⟩ := hfree m hm hclaimed hstatus htime
    rw [hnone b hb] at hbdue
    cases hbdue
  | false =>
    have hdue := hnone m hm
    simp [RetryStore.due, hclaimed, hstatus, htime] at hdue

/-- The row that the scan keeps comes first among the due rows, the claimed ones included. -/
theorem claimKey_le_of_pick {i : ℕ} (hfree : Unobstructed q now)
    (hpick : q.pickDue now = some (m, i)) (hm' : m' ∈ q.rows) (hstatus : m'.status = .pending)
    (htime : m'.dueAtMs ≤ now) : RetryStore.claimKey m ≤ RetryStore.claimKey m' := by
  have hfirst := (RetryStore.pickDue_earliest hpick).first
  have hle (b : Row) (hb : b ∈ q.rows) (hdue : RetryStore.due now b = true) :
      RetryStore.claimKey m ≤ RetryStore.claimKey b := by
    rw [RetryStore.claimKey, RetryStore.claimKey, Prod.Lex.toLex_le_toLex]
    exact hfirst b hb hdue
  cases hclaimed : m'.claimed with
  | true =>
    obtain ⟨b, hb, hbdue, hbefore⟩ := hfree m' hm' hclaimed hstatus htime
    exact (hle b hb hbdue).trans ((RetryStore.before_iff b m').1 hbefore).le
  | false => exact hle m' hm' (by simp [RetryStore.due, hclaimed, hstatus, htime])

theorem pgSelect_some {i : ℕ} (hrows : List.Forall₂ RowMatch q.rows prs)
    (hdistinct : q.Distinct) (hfree : Unobstructed q now)
    (hpick : q.pickDue now = some (m, i)) :
    ∃ p, pgSelect (1000 * now) prs = some p ∧ RowMatch m p := by
  obtain ⟨hmem, hdue, -⟩ := RetryStore.pickDue_earliest hpick
  obtain ⟨hstatus, htime⟩ := (RetryStore.due_spec hdue).2
  obtain ⟨p, hp, hmp⟩ := exists_of_mem hrows hmem
  have hpdue := (pgDue_iff hmp).2 ⟨hstatus, htime⟩
  have hmem' : p ∈ prs.filter (pgDue (1000 * now)) := List.mem_filter.2 ⟨hp, hpdue⟩
  cases hselect : pgSelect (1000 * now) prs with
  | none =>
    rw [pgSelect_eq, List.argmin_eq_none] at hselect
    rw [hselect] at hmem'
    cases hmem'
  | some p' =>
    rw [pgSelect_eq] at hselect
    obtain ⟨hp', hpdue'⟩ := List.mem_filter.1 (List.argmin_mem hselect)
    have hle : pgKey p' ≤ pgKey p := List.le_of_mem_argmin hmem' hselect
    obtain ⟨m', hm', hmp'⟩ := exists_of_mem hrows.flip hp'
    obtain ⟨hstatus', htime'⟩ := (pgDue_iff hmp').1 hpdue'
    have hle' := claimKey_le_of_pick hfree hpick hm' hstatus' htime'
    have hkey : RetryStore.claimKey m = RetryStore.claimKey m' :=
      le_antisymm hle' (not_lt.1 fun hlt =>
        absurd ((pgKey_lt_iff hmp hstatus hmp' hstatus').2 hlt) (not_lt.2 hle))
    have hid : m.id = m'.id := congrArg Prod.snd (toLex.injective hkey)
    rw [eq_of_key_eq hdistinct.nodup hmem hm' hid]
    exact ⟨p', rfl, hmp'⟩

end rows

section calls

/-- The stores hold the same rows, as the connection of the one sees them. -/
structure Mirrors (q : RetryStore) (s : PgStore) : Prop where
  rows : List.Forall₂ RowMatch q.rows s.session.view
  nextId : q.nextId = s.nextId
  distinct : q.Distinct

variable {q q' : RetryStore} {s : PgStore} {w : ServerTurn} {e : Env} {m : Row} {p : PgRow}
  {sub text payload : String} {callbackUri correlationId : Option String}

theorem Mirrors.append (h : Mirrors q s) {payload' : String} {dueAtMs start : ℤ}
    (hsplit : SplitAlike text payload') (hstart : start = 1000 * dueAtMs) (sub : String) :
    Mirrors ⟨q.rows ++ [⟨q.nextId, sub, text, 0, false, .pending, dueAtMs⟩], q.nextId + 1⟩
      ⟨s.session.exec (· ++ [⟨s.nextId, sub, payload', 0, start, .pending⟩]) .done,
        s.nextId + 1⟩ where
  rows := by
    rw [Session.view_exec_done]
    refine List.rel_append h.rows (.cons ?_ .nil)
    exact ⟨h.nextId, rfl, rfl, fun _ => ⟨rfl, hstart⟩, hsplit⟩
  nextId := congrArg (· + 1) h.nextId
  distinct := h.distinct.append rfl

theorem memRequeue_apply (hdistinct : q.Distinct) (id : ℕ) (e : Env) :
    ∃ e', q.memRequeue id e = .ok (q.updateId id fun r =>
      { r with
        attemptCount := r.attemptCount + 1
        claimed := false
        dueAtMs := e.clockMs.head + retryBackoffDelayMs r.attemptCount dispatchBackoffBaseMs
          dispatchBackoffMaxMs e.jitter.head }, e') := by
  unfold RetryStore.memRequeue
  cases hi : q.indexOf id with
  | none => exact ⟨e, by rw [RetryStore.updateId_of_indexOf_none hi]; rfl⟩
  | some i =>
    obtain ⟨r, hr, rfl⟩ := RetryStore.indexOf_spec hi
    refine ⟨{ e with jitter := e.jitter.tail, clockMs := e.clockMs.tail }, ?_⟩
    rw [← RetryStore.updateAt_eq_updateId hdistinct.nodup hr]
    rfl

theorem pgResolve_done (hdone : ∀ n, w.answers n = .done) (s : PgStore)
    (f : List PgRow → List PgRow) : ∃ s', pgResolve w s f = (0, s') ∧
      s'.session.view = f s.session.view ∧ s'.nextId = s.nextId := by
  have hview := Session.view_exec_done (s := s.session) f
  refine ⟨{ s with session := (s.session.exec f .done).commit .done }, ?_, hview, rfl⟩
  simp only [pgResolve, hdone, if_true]

theorem rowMatch_id : ∀ m p, RowMatch m p → m.id = p.id := fun _ _ h => h.id

theorem rowMatch_rearm {u : ℚ} {start now delay : ℤ} (h : RowMatch m p) (hstart : start = 1000 * now)
    (hdelay : m.status = .pending → delayUs m.attemptCount u = 1000 * delay) :
    RowMatch { m with
      attemptCount := m.attemptCount + 1
      claimed := false
      dueAtMs := now + delay } (rearm u start p) := by
  cases hstatus : m.status with
  | deadLetter =>
    have hdead : p.status ≠ .pending := by
      rw [← h.status, hstatus]
      decide
    rw [rearm, if_neg hdead]
    refine ⟨h.id, h.subscriptionId, hstatus.symm.trans h.status, ?_, h.envelope⟩
    intro hpending
    cases hpending
  | pending =>
    rw [rearm, if_pos (h.status.symm.trans hstatus)]
    refine ⟨h.id, h.subscriptionId, hstatus.symm.trans h.status, ?_, h.envelope⟩
    intro _
    obtain ⟨hcount, -⟩ := h.schedule hstatus
    refine ⟨congrArg (· + 1) hcount, ?_⟩
    rw [← hcount, hdelay hstatus, hstart]
    ring

theorem Mirrors.resolve (h : Mirrors q s) (hdone : ∀ n, w.answers n = .done)
    (hstart : s.session.now w.now = 1000 * e.clockMs.head) (id : ℕ) (op : StoreOp)
    (hdrawn : op = .requeue → ∀ r ∈ q.rows, r.id = id → r.status = .pending →
      delayUs r.attemptCount w.random = 1000 * retryBackoffDelayMs r.attemptCount
        dispatchBackoffBaseMs dispatchBackoffMaxMs e.jitter.head) :
    ∃ q' e' s', q.resolve id op e = .ok (q', e') ∧ Pg.resolve w s id op = (0, s') ∧
      Mirrors q' s' := by
  cases op with
  | complete =>
    obtain ⟨s', hpg, hview, hnext⟩ := pgResolve_done hdone s (removeKey PgRow.id id)
    refine ⟨q.removeId id, e, s', ?_, hpg, ?_, h.nextId.trans hnext.symm, h.distinct.removeId id⟩
    · rw [← RetryStore.memComplete_eq h.distinct.nodup]
      rfl
    · rw [hview]
      exact forall₂_removeKey rowMatch_id h.rows id
  | requeue =>
    obtain ⟨e', hmem⟩ := memRequeue_apply h.distinct id e
    obtain ⟨s', hpg, hview, hnext⟩ := pgResolve_done hdone s
      (updateKey PgRow.id id (rearm w.random (s.session.now w.now)))
    refine ⟨_, e', s', hmem, hpg, ?_, h.nextId.trans hnext.symm,
      h.distinct.updateId id fun _ => rfl⟩
    rw [hview]
    refine forall₂_updateKey rowMatch_id h.rows fun m hm p hmp hid => ?_
    exact rowMatch_rearm hmp hstart (hdrawn rfl m hm hid)
  | deadLetter =>
    obtain ⟨s', hpg, hview, hnext⟩ := pgResolve_done hdone s
      (updateKey PgRow.id id fun r => { r with status := .deadLetter })
    refine ⟨q.updateId id fun r => { r with status := .deadLetter, claimed := false }, e, s', ?_,
      hpg, ?_, h.nextId.trans hnext.symm, h.distinct.updateId id fun _ => rfl⟩
    · rw [← RetryStore.memDeadLetter_eq h.distinct.nodup]
      rfl
    · rw [hview]
      refine forall₂_updateKey rowMatch_id h.rows fun m _ p hmp _ => ?_
      refine ⟨hmp.id, hmp.subscriptionId, rfl, ?_, hmp.envelope⟩
      intro hpending
      cases hpending

/-- The row is copied and its envelope does not split: both stores drop it. -/
theorem yields_claimRow_poison {i : ℕ} (hdistinct : q.Distinct) (hrow : q.rows[i]? = some m)
    (hsplit : Yields (envelopeSplit m.envelope) none) :
    Yields (q.claimRow m i) (.none, q.removeId m.id) := by
  refine Yields.bind (yields_allocated m.id) ?_
  refine Yields.bind (yields_allocated m.subscriptionId) ?_
  refine Yields.bind hsplit ?_
  rw [← RetryStore.removeAt_eq_removeId hdistinct.nodup hrow]
  exact yields_pure _

theorem yields_claimRow_item {i : ℕ} {parts : EnvelopeParts} (hdistinct : q.Distinct)
    (hrow : q.rows[i]? = some m) (hsplit : Yields (envelopeSplit m.envelope) (some parts)) :
    Yields (q.claimRow m i) (.claimed ⟨m.id, m.subscriptionId, parts.callbackUri, parts.body,
      parts.correlationId, m.attemptCount⟩, q.updateId m.id fun r => { r with claimed := true }) := by
  refine Yields.bind (yields_allocated m.id) ?_
  refine Yields.bind (yields_allocated m.subscriptionId) ?_
  refine Yields.bind hsplit ?_
  rw [← RetryStore.updateAt_eq_updateId hdistinct.nodup hrow]
  exact yields_pure _

theorem yields_readRow {split : Option EnvelopeParts}
    (hsplit : Yields (envelopeSplit p.payload) split) :
    Yields (readRow p) (split.elim .poison fun parts => .item ⟨p.id, p.subscriptionId,
      parts.callbackUri, parts.body, parts.correlationId, p.attemptCount⟩) := by
  refine Yields.bind (yields_allocated p.payload) ?_
  refine Yields.bind (yields_allocated p.id) ?_
  refine Yields.bind (yields_allocated p.subscriptionId) ?_
  refine Yields.bind hsplit ?_
  cases split with
  | none => exact yields_pure _
  | some parts => exact yields_pure _

theorem memDequeue_apply (q : RetryStore) (e : Env) : q.memDequeue e =
    ((q.pickDue e.clockMs.head).elim (pure (.none, q)) fun p => q.claimRow p.1 p.2)
      { e with clockMs := e.clockMs.tail } := by
  have hclock : clockMs e = .ok (e.clockMs.head, { e with clockMs := e.clockMs.tail }) := rfl
  rw [RetryStore.memDequeue, Prog.bind_of_ok hclock]
  cases q.pickDue e.clockMs.head <;> rfl

/-- With every command answered, a dequeue selects in an open transaction. -/
theorem pgDequeue_done (hdone : ∀ n, w.answers n = .done) (s : PgStore) :
    ∃ read : PgStore, read.session.view = s.session.view ∧ read.nextId = s.nextId ∧
      ∀ e, pgDequeue w s e = ((s.selected w).elim
        (pure (.none, { read with session := read.session.commit .done }))
        fun p => pgClaimRow w read p) e := by
  have hsel : pgSelect ((s.session.start w.now .done).now w.now)
      (s.session.start w.now .done).view = s.selected w := rfl
  refine ⟨{ s with session := (s.session.start w.now .done).exec id .done },
    Session.view_exec_done id, rfl, fun e => ?_⟩
  simp only [pgDequeue, hdone, ne_eq, not_true_eq_false, if_false, hsel]
  cases s.selected w <;> rfl

theorem pgClaimRow_poison (hdone : ∀ n, w.answers n = .done) (s : PgStore) (he : e.AllocOk)
    (hsplit : Yields (envelopeSplit p.payload) none) :
    ∃ s' e', pgClaimRow w s p e = .ok ((.none, s'), e') ∧
      s'.session.view = removeKey PgRow.id p.id s.session.view ∧ s'.nextId = s.nextId := by
  obtain ⟨e', hread, -⟩ := yields_readRow hsplit e he
  have hview := Session.view_exec_done (s := s.session) (removeKey PgRow.id p.id)
  refine ⟨{ s with session := (s.session.exec (removeKey PgRow.id p.id) .done).commit .done }, e',
    ?_, hview, rfl⟩
  rw [pgClaimRow, Prog.bind_of_ok hread]
  simp only [Option.elim_none, hdone, if_true]
  rfl

theorem pgClaimRow_item {parts : EnvelopeParts} (w : ServerTurn) (s : PgStore) (he : e.AllocOk)
    (hsplit : Yields (envelopeSplit p.payload) (some parts)) :
    ∃ e', pgClaimRow w s p e = .ok ((.claimed ⟨p.id, p.subscriptionId, parts.callbackUri,
      parts.body, parts.correlationId, p.attemptCount⟩, s), e') := by
  obtain ⟨e', hread, -⟩ := yields_readRow hsplit e he
  exact ⟨e', by rw [pgClaimRow, Prog.bind_of_ok hread]; rfl⟩

theorem Mirrors.claimed (h : Mirrors q s) {s' : PgStore} (hview : s'.session.view = s.session.view)
    (hnext : s'.nextId = s.nextId) (id : ℕ) :
    Mirrors (q.updateId id fun r => { r with claimed := true }) s' where
  rows := by
    have hsame : updateKey PgRow.id id (fun r => r) s.session.view = s.session.view := by
      simp [updateKey]
    rw [hview, ← hsame]
    exact forall₂_updateKey rowMatch_id h.rows fun m _ p hmp _ =>
      ⟨hmp.id, hmp.subscriptionId, hmp.status, hmp.schedule, hmp.envelope⟩
  nextId := h.nextId.trans hnext.symm
  distinct := h.distinct.updateId id fun _ => rfl

theorem Mirrors.removed (h : Mirrors q s) {s' : PgStore} {id : ℕ}
    (hview : s'.session.view = removeKey PgRow.id id s.session.view)
    (hnext : s'.nextId = s.nextId) : Mirrors (q.removeId id) s' where
  rows := hview ▸ forall₂_removeKey rowMatch_id h.rows id
  nextId := h.nextId.trans hnext.symm
  distinct := h.distinct.removeId id

theorem Mirrors.dequeue (h : Mirrors q s) (hdone : ∀ n, w.answers n = .done) {e' : Env}
    (he : e.AllocOk) (he' : e'.AllocOk) (hstart : s.session.now w.now = 1000 * e.clockMs.head)
    (hfree : Unobstructed q e.clockMs.head) :
    ∃ a q' e₁ b s' e₂, q.memDequeue e = .ok ((a, q'), e₁) ∧
      pgDequeue w s e' = .ok ((b, s'), e₂) ∧ Agree (.got a) (.got b) ∧ Mirrors q' s' := by
  obtain ⟨read, hview, hnext, hpg⟩ := pgDequeue_done hdone s
  rw [memDequeue_apply, hpg, PgStore.selected, hstart]
  have he : ({ e with clockMs := e.clockMs.tail } : Env).AllocOk := he
  generalize ({ e with clockMs := e.clockMs.tail } : Env) = e₀ at he
  cases hpick : q.pickDue e.clockMs.head with
  | none =>
    rw [pgSelect_none h.rows hfree hpick]
    exact ⟨_, _, _, _, _, _, rfl, rfl, .none, ⟨hview ▸ h.rows, h.nextId.trans hnext.symm,
      h.distinct⟩⟩
  | some pick =>
    obtain ⟨m, i⟩ := pick
    obtain ⟨p, hselect, hmp⟩ := pgSelect_some h.rows h.distinct hfree hpick
    obtain ⟨hrow, hdue⟩ := RetryStore.pickDue_spec hpick
    rw [hselect]
    rcases hmp.envelope with ⟨hleft, hright⟩ | ⟨hleft, hright, hsame⟩
    · obtain ⟨e₁, hmem, -⟩ := yields_claimRow_poison h.distinct hrow hleft e₀ he
      obtain ⟨s', e₂, hclaim, hview', hnext'⟩ := pgClaimRow_poison hdone read he' hright
      refine ⟨_, _, e₁, _, s', e₂, hmem, hclaim, .none, h.removed ?_ (hnext'.trans hnext)⟩
      rw [hview', hview, hmp.id]
    · obtain ⟨e₁, hmem, -⟩ := yields_claimRow_item h.distinct hrow hleft e₀ he
      obtain ⟨e₂, hclaim⟩ := pgClaimRow_item w read he' hright
      have hcount := (hmp.schedule (RetryStore.due_spec hdue).2.1).1
      exact ⟨_, _, e₁, _, read, e₂, hmem, hclaim,
        .claimed hmp.id hmp.subscriptionId rfl hsame rfl hcount, h.claimed hview hnext m.id⟩

end calls

section agreement

variable {jsonb : String → String} {t : RetryTurn} {q : RetryStore} {s : PgStore}

end agreement

section sample

def sampleItem (body : String) : RetryItem := ⟨1, "s", some "https://amf/cb", body, none, 0⟩

/-- The parts of the state in PostgreSQL. -/
def PgStore.shown (s : PgStore) : List PgRow × Option (ℤ × List PgRow) × ℕ :=
  (s.session.committed, s.session.tx.map fun t => (t.start, t.work), s.nextId)

theorem shown_injective : Function.Injective PgStore.shown := by
  rintro ⟨⟨committed, tx⟩, nextId⟩ ⟨⟨committed', tx'⟩, nextId'⟩ h
  obtain ⟨hcommitted, hrest⟩ := Prod.mk.inj h
  obtain ⟨htx, hnext⟩ := Prod.mk.inj hrest
  have hpair : Function.Injective fun t : Transaction (List PgRow) => (t.start, t.work) := by
    rintro ⟨start, work⟩ ⟨start', work'⟩ heq
    cases heq
    rfl
  cases hcommitted
  cases hnext
  cases Option.map_injective hpair htx
  rfl

instance : DecidableEq PgStore := fun _ _ => decidable_of_iff _ shown_injective.eq_iff

end sample

end Nssf.Pg
