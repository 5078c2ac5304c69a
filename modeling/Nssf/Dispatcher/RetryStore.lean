import Nssf.Base.KeyedList
import Nssf.Dispatcher.UrlGate

/-! The retry queue in memory: the backoff schedule, the envelope that carries the routing
metadata of a notification next to its body, and the store calls. A row is claimed from the
dequeue that returns it to the call that resolves it. -/

namespace Nssf

open Base Run

def dispatchMaxAttempts : ℕ := 5

def dispatchBackoffBaseMs : ℤ := 200

def dispatchBackoffMaxMs : ℤ := 30000

/-- The doubling loop, left as soon as the next doubling would pass the maximum. -/
def backoffStep (maxMs : ℤ) : ℕ → ℤ → ℤ
  | 0, step => step
  | n + 1, step =>
    if maxMs ≤ step ∨ maxMs / 2 < step then maxMs else backoffStep maxMs n (step * 2)

def backoffCapped (attemptCount baseMs maxMs : ℤ) : ℤ :=
  let base := max baseMs 0
  let cap := max maxMs base
  let step := backoffStep cap attemptCount.toNat base
  if step < cap then step else cap

def retryBackoffDelayMs (attemptCount baseMs maxMs : ℤ) (randUnit : ℚ) : ℤ :=
  let capped := backoffCapped attemptCount baseMs maxMs
  let u := if randUnit < 0 then 0 else if 1 ≤ randUnit then 999999 / 1000000 else randUnit
  capped + (u * (capped / 2 : ℤ)).floor

def addBody (env : Json) (payload : Option String) : Run Json :=
  match payload with
  | none => pure env
  | some p => do
    match ← Json.parse p with
    | some body => env.addItemToObject "body" (some body)
    | none => env.addStringToObject "body" p

def envelopeBuild (callbackUri payload correlationId : Option String) :
    Run (Option String) := do
  match ← Json.createObject with
  | none => return none
  | some env =>
    let env ← addOptionalString env "callbackUri" callbackUri
    let env ← addOptionalString env "correlationId" correlationId
    let env ← addBody env payload
    env.print

def envelopeGetString (env : Json) (key : String) : Run (Option String) := do
  match ← Json.getObjectItem (some env) key with
  | some (.string s) => allocated s
  | _ => return none

def envelopeGetBody (env : Json) : Run (Option String) := do
  match ← Json.getObjectItem (some env) "body" with
  | some (.string s) => allocated s
  | some .null => return none
  | some body => body.print
  | none => return none

structure EnvelopeParts where
  callbackUri : Option String
  correlationId : Option String
  body : String
  deriving DecidableEq, Repr

/-- Nothing comes back when the envelope has no body that parses, and also when an
allocation on the way fails: the caller cannot tell the two apart. -/
def envelopeSplit (envelope : String) : Run (Option EnvelopeParts) := do
  match ← Json.parse envelope with
  | none => return none
  | some env =>
    let callbackUri ← envelopeGetString env "callbackUri"
    let correlationId ← envelopeGetString env "correlationId"
    match ← envelopeGetBody env with
    | none => return none
    | some body =>
      if body = "" then return none
      else match ← Json.parse body with
        | none => return none
        | some _ => return some ⟨callbackUri, correlationId, body⟩

inductive RowStatus where
  | pending
  | deadLetter
  deriving DecidableEq, Repr

structure Row where
  id : ℕ
  subscriptionId : String
  envelope : String
  attemptCount : ℕ
  claimed : Bool
  status : RowStatus
  dueAtMs : ℤ
  deriving DecidableEq, Repr

structure RetryStore where
  rows : List Row
  nextId : ℕ
  deriving DecidableEq, Repr

structure RetryItem where
  id : ℕ
  subscriptionId : String
  callbackUri : Option String
  payloadJson : String
  correlationId : Option String
  attemptCount : ℕ
  deriving DecidableEq, Repr

def retryStoreNewInmemory : RetryStore := ⟨[], 1⟩

namespace RetryStore

def indexOf (q : RetryStore) (id : ℕ) : Option ℕ := q.rows.findIdx? fun r => r.id == id

def removeAt (q : RetryStore) (i : ℕ) : RetryStore := { q with rows := q.rows.eraseIdx i }

def updateAt (q : RetryStore) (i : ℕ) (f : Row → Row) : RetryStore :=
  { q with rows := q.rows.modify i f }

/-- Growing the array of rows is one of the allocating calls here. -/
def memEnqueue (q : RetryStore) (subId : String) (callbackUri payload correlationId : Option String) :
    Run (Bool × RetryStore) := do
  let envelope ← envelopeBuild callbackUri payload correlationId
  let sub ← allocated subId
  match envelope, sub with
  | some envelope, some sub =>
    if ← alloc then
      let now ← clockMs
      let row : Row := ⟨q.nextId, sub, envelope, 0, false, .pending, now⟩
      return (true, ⟨q.rows ++ [row], q.nextId + 1⟩)
    else return (false, q)
  | _, _ => return (false, q)

def due (now : ℤ) (r : Row) : Bool :=
  !r.claimed && r.status == .pending && decide (r.dueAtMs ≤ now)

def before (r p : Row) : Bool :=
  decide (r.dueAtMs < p.dueAtMs) || (r.dueAtMs == p.dueAtMs && decide (r.id < p.id))

/-- One round of the scan that keeps the best row so far. -/
def pickStep (now : ℤ) (pick : Option (Row × ℕ)) (r : Row × ℕ) : Option (Row × ℕ) :=
  if due now r.1 then
    match pick with
    | none => some r
    | some p => if before r.1 p.1 then some r else some p
  else pick

def pickDue (q : RetryStore) (now : ℤ) : Option (Row × ℕ) :=
  q.rows.zipIdx.foldl (pickStep now) none

inductive Dequeued where
  | none
  | error
  | claimed (item : RetryItem)
  deriving DecidableEq, Repr

/-- The due row that was picked is claimed, or taken out when its envelope has no body. -/
def claimRow (q : RetryStore) (row : Row) (i : ℕ) : Run (Dequeued × RetryStore) := do
  let id ← allocated row.id
  let sub ← allocated row.subscriptionId
  match id, sub with
  | some id, some sub =>
    match ← envelopeSplit row.envelope with
    | none => return (.none, q.removeAt i)
    | some parts =>
      let item : RetryItem :=
        ⟨id, sub, parts.callbackUri, parts.body, parts.correlationId, row.attemptCount⟩
      return (.claimed item, q.updateAt i fun r => { r with claimed := true })
  | _, _ => return (.error, q)

def memDequeue (q : RetryStore) : Run (Dequeued × RetryStore) := do
  let now ← clockMs
  match q.pickDue now with
  | none => return (.none, q)
  | some (row, i) => q.claimRow row i

def memComplete (q : RetryStore) (id : ℕ) : RetryStore :=
  match q.indexOf id with
  | none => q
  | some i => q.removeAt i

def memRequeue (q : RetryStore) (id : ℕ) : Run RetryStore := do
  match q.indexOf id with
  | none => return q
  | some i =>
    let u ← jitterUnit
    let now ← clockMs
    return q.updateAt i fun r =>
      { r with
        attemptCount := r.attemptCount + 1
        claimed := false
        dueAtMs := now +
          retryBackoffDelayMs r.attemptCount dispatchBackoffBaseMs dispatchBackoffMaxMs u }

def memDeadLetter (q : RetryStore) (id : ℕ) : RetryStore :=
  match q.indexOf id with
  | none => q
  | some i => q.updateAt i fun r => { r with status := .deadLetter, claimed := false }

/-- The store call of the producers: the structural gate admits what some constructor could
dispatch, the loopback addresses of the test constructor included. -/
def enqueue (q : RetryStore) (subId callbackUri payload correlationId : Option String) :
    Run (Bool × RetryStore) :=
  match subId, payload with
  | some sub, some p =>
    if callbackUrlAllowed callbackUri true then
      q.memEnqueue sub callbackUri (some p) correlationId
    else pure (false, q)
  | _, _ => pure (false, q)

theorem memEnqueue_cases {q q' : RetryStore} {sub : String} {cb payload corr : Option String}
    {ok : Bool} {e e' : Env} (h : q.memEnqueue sub cb payload corr e = .ok ((ok, q'), e')) :
    (ok = false ∧ q' = q) ∨
      (ok = true ∧ ∃ envelope now e₁, envelopeBuild cb payload corr e = .ok (some envelope, e₁) ∧
        q' = ⟨q.rows ++ [⟨q.nextId, sub, envelope, 0, false, .pending, now⟩], q.nextId + 1⟩) := by
  unfold memEnqueue at h
  obtain ⟨envelope, e₁, hbuild, h⟩ := Prog.bind_eq_ok.1 h
  rw [Prog.bind_of_ok (allocated_apply _ _)] at h
  cases envelope with
  | none =>
    cases h
    exact Or.inl ⟨rfl, rfl⟩
  | some envelope =>
    cases hs : e₁.alloc.head with
    | false =>
      rw [hs] at h
      cases h
      exact Or.inl ⟨rfl, rfl⟩
    | true =>
      simp only [hs, if_true] at h
      rw [Prog.bind_of_ok (alloc_apply _)] at h
      cases hg : e₁.popAlloc.alloc.head with
      | false =>
        rw [hg] at h
        cases h
        exact Or.inl ⟨rfl, rfl⟩
      | true =>
        rw [hg] at h
        cases h
        exact Or.inr ⟨rfl, envelope, _, e₁, hbuild, rfl⟩

theorem enqueue_cases {q q' : RetryStore} {sub cb payload corr : Option String}
    {ok : Bool} {e e' : Env} (h : q.enqueue sub cb payload corr e = .ok ((ok, q'), e')) :
    (ok = false ∧ q' = q) ∨
      (ok = true ∧ ∃ sub envelope now e₁,
        envelopeBuild cb payload corr e = .ok (some envelope, e₁) ∧
        q' = ⟨q.rows ++ [⟨q.nextId, sub, envelope, 0, false, .pending, now⟩], q.nextId + 1⟩) := by
  unfold enqueue at h
  split at h
  · split_ifs at h with hu
    · rcases memEnqueue_cases h with hc | ⟨hok, envelope, now, e₁, hbuild, hq⟩
      · exact Or.inl hc
      · exact Or.inr ⟨hok, _, envelope, now, e₁, hbuild, hq⟩
    · cases h
      exact Or.inl ⟨rfl, rfl⟩
  · cases h
    exact Or.inl ⟨rfl, rfl⟩

theorem pickStep_mem {now : ℤ} {pick : Option (Row × ℕ)} {r p : Row × ℕ}
    (h : pickStep now pick r = some p) : pick = some p ∨ (p = r ∧ due now r.1 = true) := by
  unfold pickStep at h
  split_ifs at h with hd
  · cases pick with
    | none =>
      cases h
      exact Or.inr ⟨rfl, hd⟩
    | some b =>
      simp only at h
      split_ifs at h
      · cases h
        exact Or.inr ⟨rfl, hd⟩
      · exact Or.inl h
  · exact Or.inl h

theorem foldl_pickStep_mem {now : ℤ} {rs : List (Row × ℕ)} {pick : Option (Row × ℕ)}
    {p : Row × ℕ} (h : rs.foldl (pickStep now) pick = some p) :
    pick = some p ∨ (p ∈ rs ∧ due now p.1 = true) := by
  induction rs generalizing pick with
  | nil => exact Or.inl h
  | cons r rs ih =>
    rw [List.foldl_cons] at h
    rcases ih h with hp | ⟨hm, hd⟩
    · rcases pickStep_mem hp with hp | ⟨rfl, hd⟩
      · exact Or.inl hp
      · exact Or.inr ⟨List.mem_cons_self, hd⟩
    · exact Or.inr ⟨List.mem_cons_of_mem _ hm, hd⟩

theorem pickDue_spec {q : RetryStore} {now : ℤ} {row : Row} {i : ℕ}
    (h : q.pickDue now = some (row, i)) : q.rows[i]? = some row ∧ due now row = true := by
  rcases foldl_pickStep_mem h with hn | ⟨hm, hd⟩
  · cases hn
  · exact ⟨(List.mk_mem_zipIdx_iff_getElem?).1 hm, hd⟩

/-- Everything a dequeue can do: nothing, quarantine one due row, or claim one due row. -/
theorem memDequeue_cases {q q' : RetryStore} {got : Dequeued} {e e' : Env}
    (h : q.memDequeue e = .ok ((got, q'), e')) :
    (got = .none ∧ q' = q) ∨ (got = .error ∧ q' = q) ∨
      ∃ now row i, q.rows[i]? = some row ∧ due now row = true ∧
        ((got = .none ∧ q' = q.removeAt i) ∨
          ∃ item, got = .claimed item ∧ item.id = row.id ∧
            item.attemptCount = row.attemptCount ∧
            q' = q.updateAt i fun r => { r with claimed := true }) := by
  unfold memDequeue at h
  obtain ⟨now, e₁, -, h⟩ := Prog.bind_eq_ok.1 h
  cases hp : q.pickDue now with
  | none =>
    rw [hp] at h
    cases h
    exact Or.inl ⟨rfl, rfl⟩
  | some p =>
    obtain ⟨row, i⟩ := p
    obtain ⟨hrow, hdue⟩ := pickDue_spec hp
    simp only [hp, claimRow] at h
    rw [Prog.bind_of_ok (allocated_apply _ _), Prog.bind_of_ok (allocated_apply _ _)] at h
    cases hid : e₁.alloc.head with
    | false =>
      rw [hid] at h
      cases h
      exact Or.inr (Or.inl ⟨rfl, rfl⟩)
    | true =>
      cases hsub : e₁.popAlloc.alloc.head with
      | false =>
        rw [hid, hsub] at h
        cases h
        exact Or.inr (Or.inl ⟨rfl, rfl⟩)
      | true =>
        simp only [hid, hsub, if_true] at h
        obtain ⟨parts, e₂, -, h⟩ := Prog.bind_eq_ok.1 h
        refine Or.inr (Or.inr ⟨now, row, i, hrow, hdue, ?_⟩)
        cases parts with
        | none =>
          cases h
          exact Or.inl ⟨rfl, rfl⟩
        | some parts =>
          cases h
          exact Or.inr ⟨_, rfl, rfl, rfl, rfl⟩

theorem due_spec {now : ℤ} {r : Row} (h : due now r = true) :
    r.claimed = false ∧ r.status = .pending ∧ r.dueAtMs ≤ now := by
  simpa [due, and_assoc] using h

theorem indexOf_spec {q : RetryStore} {id i : ℕ} (h : q.indexOf id = some i) :
    ∃ r, q.rows[i]? = some r ∧ r.id = id := by
  unfold indexOf at h
  rw [List.findIdx?_eq_some_iff_getElem] at h
  obtain ⟨hi, hr, -⟩ := h
  exact ⟨q.rows[i], List.getElem?_eq_getElem hi, by simpa using hr⟩

theorem indexOf_none {q : RetryStore} {id : ℕ} (h : q.indexOf id = none) :
    ∀ r ∈ q.rows, r.id ≠ id := by
  unfold indexOf at h
  rw [List.findIdx?_eq_none_iff] at h
  intro r hr he
  simpa [he] using h r hr

def removeId (q : RetryStore) (id : ℕ) : RetryStore :=
  { q with rows := removeKey Row.id id q.rows }

def updateId (q : RetryStore) (id : ℕ) (f : Row → Row) : RetryStore :=
  { q with rows := updateKey Row.id id f q.rows }

theorem removeAt_eq_removeId {q : RetryStore} (hn : (q.rows.map Row.id).Nodup) {i : ℕ} {r : Row}
    (hr : q.rows[i]? = some r) : q.removeAt i = q.removeId r.id := by
  unfold removeAt removeId
  rw [eraseIdx_eq_removeKey hn hr]

theorem updateAt_eq_updateId {q : RetryStore} (hn : (q.rows.map Row.id).Nodup) {i : ℕ} {r : Row}
    (hr : q.rows[i]? = some r) (f : Row → Row) : q.updateAt i f = q.updateId r.id f := by
  unfold updateAt updateId
  rw [modify_eq_updateKey hn hr]

theorem updateId_of_indexOf_none {q : RetryStore} {id : ℕ} (h : q.indexOf id = none)
    (f : Row → Row) : q.updateId id f = q := by
  unfold updateId
  rw [updateKey_of_forall_ne (indexOf_none h)]

theorem memComplete_eq {q : RetryStore} (hn : (q.rows.map Row.id).Nodup) (id : ℕ) :
    q.memComplete id = q.removeId id := by
  unfold memComplete
  cases hi : q.indexOf id with
  | none =>
    unfold removeId
    rw [removeKey_of_forall_ne (indexOf_none hi)]
  | some i =>
    obtain ⟨r, hr, rfl⟩ := indexOf_spec hi
    exact removeAt_eq_removeId hn hr

theorem memDeadLetter_eq {q : RetryStore} (hn : (q.rows.map Row.id).Nodup) (id : ℕ) :
    q.memDeadLetter id =
      q.updateId id fun r => { r with status := .deadLetter, claimed := false } := by
  unfold memDeadLetter
  cases hi : q.indexOf id with
  | none => exact (updateId_of_indexOf_none hi _).symm
  | some i =>
    obtain ⟨r, hr, rfl⟩ := indexOf_spec hi
    exact updateAt_eq_updateId hn hr _

theorem memRequeue_eq {q q' : RetryStore} (hn : (q.rows.map Row.id).Nodup) {id : ℕ}
    {e e' : Env} (h : q.memRequeue id e = .ok (q', e')) :
    ∃ dueAt : Row → ℤ, q' = q.updateId id fun r =>
      { r with attemptCount := r.attemptCount + 1, claimed := false, dueAtMs := dueAt r } := by
  unfold memRequeue at h
  cases hi : q.indexOf id with
  | none =>
    rw [hi] at h
    cases h
    exact ⟨fun _ => 0, (updateId_of_indexOf_none hi _).symm⟩
  | some i =>
    obtain ⟨r, hr, rfl⟩ := indexOf_spec hi
    simp only [hi] at h
    obtain ⟨u, e₁, -, h⟩ := Prog.bind_eq_ok.1 h
    obtain ⟨now, e₂, -, h⟩ := Prog.bind_eq_ok.1 h
    cases h
    exact ⟨fun r => now + retryBackoffDelayMs r.attemptCount dispatchBackoffBaseMs
      dispatchBackoffMaxMs u, updateAt_eq_updateId hn hr _⟩

/-- The call from `q` to `q'` concerns the row `id` alone, which becomes `row`. -/
structure Touches (q q' : RetryStore) (id : ℕ) (row : Option Row) : Prop where
  nextId : q'.nextId = q.nextId
  nodup : (q'.rows.map Row.id).Nodup
  ids : ∀ b ∈ q'.rows, ∃ c ∈ q.rows, c.id = b.id
  other : ∀ m, m ≠ id → findKey Row.id m q'.rows = findKey Row.id m q.rows
  self : findKey Row.id id q'.rows = row

theorem touches_removeId {q : RetryStore} (hn : (q.rows.map Row.id).Nodup) (id : ℕ) :
    Touches q (q.removeId id) id none where
  nextId := rfl
  nodup := nodup_removeKey hn
  ids b hb := ⟨b, (mem_removeKey.1 hb).1, rfl⟩
  other m hm := by
    unfold removeId
    rw [findKey_removeKey, if_neg hm]
  self := by
    unfold removeId
    rw [findKey_removeKey, if_pos rfl]

theorem touches_updateId {q : RetryStore} (hn : (q.rows.map Row.id).Nodup) {id : ℕ} {r : Row}
    {f : Row → Row} (hf : ∀ b, (f b).id = b.id) (hr : findKey Row.id id q.rows = some r) :
    Touches q (q.updateId id f) id (some (f r)) where
  nextId := rfl
  nodup := by
    unfold updateId
    rw [map_key_updateKey hf]
    exact hn
  ids b hb := by
    rcases mem_updateKey.1 hb with ⟨c, hc, -, rfl⟩ | ⟨hb, -⟩
    · exact ⟨c, hc, (hf c).symm⟩
    · exact ⟨b, hb, rfl⟩
  other m hm := by
    unfold updateId
    rw [findKey_updateKey hf, if_neg hm]
  self := by
    unfold updateId
    rw [findKey_updateKey hf, if_pos rfl, hr]
    rfl

end RetryStore

end Nssf
