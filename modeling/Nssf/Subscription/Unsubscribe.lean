import Nssf.Base.Backlog
import Nssf.Dispatcher.Envelopes
import Nssf.Dispatcher.Protocol
import Nssf.Subscription.Store

/-! Unsubscribing, over the subscription store and the retry store in memory. The calls of both
stores and the steps of any number of dispatchers interleave freely. A delete takes the record
out and leaves the queue alone. -/

namespace Nssf.Unsubscribe

open Base Run Protocol

/-- The dispatchers, and the subscriptions whose rows were posted, newest first. -/
structure Desk (ι : Type) where
  phase : ι → Phase
  posted : List String

/-- What sets one call of a store apart from the others here. -/
inductive Call where
  | insert (id : String)
  | delete (id : String)
  | enqueue (sub : String)
  | requeue (sub : String)
  | other
  deriving DecidableEq

section desk

variable {ι : Type} [DecidableEq ι]

def Desk.init : Desk ι := ⟨fun _ => .idle, []⟩

def Desk.put (d : Desk ι) (i : ι) (p : Phase) : Desk ι :=
  { d with phase := Function.update d.phase i p }

def builtPhase (item : RetryItem) : HeaderBuild → Phase
  | .ok headers => .ready item headers
  | .abort => .resolving item .aborted
  | .failed => .resolving item .unbuilt

/-- What a dispatcher does between two calls of the retry store. -/
inductive Desk.Step (d : Desk ι) : Desk ι → Prop
  | gate (i : ι) (item : RetryItem) (dispatcher : Dispatcher) (hi : d.phase i = .claimed item) :
      Step d (d.put i
        (if dispatcher.admits item then .admitted item else .resolving item .rejected))
  | prepare (i : ι) (item : RetryItem) (dispatcher dispatcher' : Dispatcher)
      (inbound : Option String) (e e' : Env) (built : HeaderBuild)
      (hi : d.phase i = .admitted item)
      (h : dispatcher.prepare item inbound e = .ok ((built, dispatcher'), e')) :
      Step d (d.put i (builtPhase item built))
  | deliver (i : ι) (item : RetryItem) (headers : List String) (x : Delivery)
      (hi : d.phase i = .ready item headers) :
      Step d { d.put i (.resolving item (verdictOf item x)) with
        posted := item.subscriptionId :: d.posted }

def Desk.Idle (d : Desk ι) : Prop := ∀ i, d.phase i = .idle

def resolving (item : RetryItem) (v : Verdict) : Call :=
  if v.op = .requeue then .requeue item.subscriptionId else .other

/-- The subscription whose row a dispatcher works on. -/
def Desk.held (d : Desk ι) (i : ι) : Option String :=
  (d.phase i).item?.map RetryItem.subscriptionId

theorem item_put {d : Desk ι} {i j : ι} {p : Phase} {item : RetryItem}
    (h : ((d.put i p).phase j).item? = some item) :
    j = i ∧ p.item? = some item ∨ (d.phase j).item? = some item := by
  by_cases hj : j = i
  · simp only [hj, Desk.put, Function.update_self] at h
    exact Or.inl ⟨hj, h⟩
  · simp only [Desk.put, Function.update_of_ne hj] at h
    exact Or.inr h

/-- A dispatcher works on with what it has. -/
theorem Desk.Step.item {d d' : Desk ι} (h : d.Step d') {j : ι} {item : RetryItem}
    (hj : (d'.phase j).item? = some item) : (d.phase j).item? = some item := by
  have hkept {i : ι} {p : Phase} (hput : ((d.put i p).phase j).item? = some item)
      (hp : p.item? = (d.phase i).item?) : (d.phase j).item? = some item := by
    rcases item_put hput with ⟨hji, hitem⟩ | hitem
    · rw [hji, ← hp, hitem]
    · exact hitem
  cases h with
  | gate i held dispatcher hi =>
    apply hkept hj
    rw [hi]
    split_ifs
    · rfl
    · rfl
  | prepare i held dispatcher dispatcher' inbound e e' built hi _ =>
    apply hkept hj
    rw [hi]
    cases built with
    | ok headers => rfl
    | abort => rfl
    | failed => rfl
  | deliver i held headers x hi =>
    refine hkept (i := i) (p := .resolving held (verdictOf held x)) hj ?_
    rw [hi]
    rfl

theorem Desk.Step.posted {d d' : Desk ι} (h : d.Step d') :
    d'.posted = d.posted ∨ ∃ i k, d.held i = some k ∧ d'.posted = k :: d.posted := by
  cases h with
  | gate i held dispatcher hi => exact Or.inl rfl
  | prepare i held dispatcher dispatcher' inbound e e' built hi _ => exact Or.inl rfl
  | deliver i held headers x hi =>
    refine Or.inr ⟨i, held.subscriptionId, ?_, rfl⟩
    rw [Desk.held, hi]
    rfl

end desk

structure MemSystem (ι : Type) where
  subs : SubscriptionStore
  queue : RetryStore
  desk : Desk ι
  gone : List String

section memory

variable {ι : Type} [DecidableEq ι]

def MemSystem.init : MemSystem ι :=
  ⟨.newInmemory, retryStoreNewInmemory, .init, []⟩

inductive MemStep (s : MemSystem ι) : Call → MemSystem ι → Prop
  | insert (id : RecordId) (callbackUri : Option String) (filter : Option Json)
      (amfId amfSetId expiryAt : Option String) (e e' : Env) (ok : Bool)
      (subs : SubscriptionStore)
      (h : s.subs.memInsert id callbackUri filter amfId amfSetId expiryAt e =
        .ok ((ok, subs), e')) :
      MemStep s (.insert id.text) { s with subs := subs }
  | replace (id : String) (callbackUri : Option String) (filter : Option Json)
      (expiryAt : Option String) (e e' : Env) (code : RepoCode) (subs : SubscriptionStore)
      (h : s.subs.memReplace id callbackUri filter expiryAt e = .ok ((code, subs), e')) :
      MemStep s .other { s with subs := subs }
  | tombstone (id : String) : MemStep s .other { s with subs := s.subs.memTombstone id }
  | delete (id : String) (subs : SubscriptionStore)
      (h : s.subs.delete (some id) = (.ok, subs)) :
      MemStep s (.delete id) { s with subs := subs, gone := id :: s.gone }
  | enqueue (sub : String) (callbackUri payload correlationId : Option String) (e e' : Env)
      (ok : Bool) (queue : RetryStore)
      (h : s.queue.enqueue (some sub) callbackUri payload correlationId e =
        .ok ((ok, queue), e')) :
      MemStep s (.enqueue sub) { s with queue := queue }
  | dequeue (i : ι) (e e' : Env) (got : RetryStore.Dequeued) (queue : RetryStore)
      (hi : s.desk.phase i = .idle) (h : s.queue.memDequeue e = .ok ((got, queue), e')) :
      MemStep s .other { s with queue := queue, desk := s.desk.put i (claimedPhase got) }
  | work (desk : Desk ι) (h : s.desk.Step desk) : MemStep s .other { s with desk := desk }
  | resolve (i : ι) (item : RetryItem) (v : Verdict) (e e' : Env) (queue : RetryStore)
      (hi : s.desk.phase i = .resolving item v)
      (h : s.queue.resolve item.id v.op e = .ok (queue, e')) :
      MemStep s (resolving item v) { s with queue := queue, desk := s.desk.put i .idle }

/-- No row is left to be claimed for an id when it is deleted, and none is queued or put back
for it afterwards. -/
def MemSystem.Meets (s : MemSystem ι) : Call → Prop
  | .delete id => ∀ r ∈ s.queue.rows, r.subscriptionId = id → r.claimed = true ∨
      r.status = .deadLetter
  | .enqueue sub => sub ∉ s.gone
  | .requeue sub => sub ∉ s.gone
  | .insert _ => True
  | .other => True

def MemSystem.Next (s s' : MemSystem ι) : Prop := ∃ c, MemStep s c s' ∧ s.Meets c

theorem next_of_other {s s' : MemSystem ι} (h : MemStep s .other s') : s.Next s' :=
  ⟨.other, h, trivial⟩

/-- A row that the next dequeue may claim. -/
def Waiting (r : Row) : Prop := r.claimed = false ∧ r.status = .pending

/-- The rows of the second queue are those of the first, further on in their lives, and only
those with `W` are put back. -/
structure Derives (W : Row → Prop) (q q' : RetryStore) : Prop where
  nextId : q'.nextId = q.nextId
  rows : ∀ r' ∈ q'.rows, ∃ r ∈ q.rows, r'.id = r.id ∧ r'.subscriptionId = r.subscriptionId ∧
    (Waiting r' → Waiting r ∨ W r)

section derives

variable {W : Row → Prop} {q q' : RetryStore}

theorem Derives.refl (q : RetryStore) : Derives W q q where
  nextId := rfl
  rows r hr := ⟨r, hr, rfl, rfl, Or.inl⟩

theorem derives_removeAt (q : RetryStore) (i : ℕ) : Derives W q (q.removeAt i) where
  nextId := rfl
  rows r hr := ⟨r, List.mem_of_mem_eraseIdx hr, rfl, rfl, Or.inl⟩

theorem derives_updateAt {i : ℕ} {f : Row → Row}
    (hf : ∀ r, (f r).id = r.id ∧ (f r).subscriptionId = r.subscriptionId)
    (hw : ∀ r, q.rows[i]? = some r → Waiting (f r) → Waiting r ∨ W r) :
    Derives W q (q.updateAt i f) where
  nextId := rfl
  rows r' hr' := by
    obtain ⟨j, hj⟩ := List.mem_iff_getElem?.1 hr'
    simp only [RetryStore.updateAt, List.getElem?_modify] at hj
    obtain ⟨r, hr, rfl⟩ := Option.map_eq_some_iff.1 hj
    refine ⟨r, List.mem_of_getElem? hr, ?_⟩
    split_ifs with hij
    · exact ⟨(hf r).1, (hf r).2, hw r (hij ▸ hr)⟩
    · exact ⟨rfl, rfl, Or.inl⟩

theorem derives_memDequeue {got : RetryStore.Dequeued} {e e' : Env}
    (h : q.memDequeue e = .ok ((got, q'), e')) : Derives W q q' := by
  rcases RetryStore.memDequeue_cases h with ⟨-, rfl⟩ | ⟨-, rfl⟩ | ⟨now, row, i, -, -, hc⟩
  · exact .refl _
  · exact .refl _
  · rcases hc with ⟨-, rfl⟩ | ⟨item, -, -, -, rfl⟩
    · exact derives_removeAt q i
    · refine derives_updateAt (fun _ => ⟨rfl, rfl⟩) fun r _ hw => ?_
      cases hw.1

theorem derives_resolve {id : ℕ} {op : StoreOp} {e e' : Env}
    (h : q.resolve id op e = .ok (q', e')) :
    Derives (fun r => op = .requeue ∧ r.id = id) q q' := by
  have hid {i : ℕ} {r : Row} (hi : q.indexOf id = some i) (hr : q.rows[i]? = some r) :
      r.id = id := by
    obtain ⟨b, hb, hbid⟩ := RetryStore.indexOf_spec hi
    rw [hr] at hb
    exact Option.some.inj hb ▸ hbid
  cases op with
  | complete =>
    cases h
    simp only [RetryStore.memComplete]
    cases q.indexOf id with
    | none => exact .refl q
    | some i => exact derives_removeAt q i
  | requeue =>
    simp only [RetryStore.resolve, RetryStore.memRequeue] at h
    cases hi : q.indexOf id with
    | none =>
      rw [hi] at h
      cases h
      exact .refl q
    | some i =>
      rw [hi] at h
      obtain ⟨u, e₁, -, h⟩ := Prog.bind_eq_ok.1 h
      obtain ⟨now, e₂, -, h⟩ := Prog.bind_eq_ok.1 h
      cases h
      exact derives_updateAt (fun _ => ⟨rfl, rfl⟩) fun r hr _ => Or.inr ⟨rfl, hid hi hr⟩
  | deadLetter =>
    cases h
    simp only [RetryStore.memDeadLetter]
    cases q.indexOf id with
    | none => exact .refl q
    | some i =>
      refine derives_updateAt (fun _ => ⟨rfl, rfl⟩) fun r _ hw => ?_
      cases hw.2

/-- What is claimed is a waiting row. -/
theorem memDequeue_claims {item : RetryItem} {e e' : Env}
    (h : q.memDequeue e = .ok ((.claimed item, q'), e')) :
    ∃ r ∈ q.rows, Waiting r ∧ item.id = r.id ∧ item.subscriptionId = r.subscriptionId := by
  obtain ⟨now, r, hr, hdue, hid, hsub, -⟩ := RetryStore.memDequeue_item h
  obtain ⟨hclaimed, hpending, -⟩ := RetryStore.due_spec hdue
  exact ⟨r, hr, ⟨hclaimed, hpending⟩, hid, hsub⟩

theorem enqueue_rows {sub : String} {callbackUri payload correlationId : Option String} {ok : Bool}
    {e e' : Env}
    (h : q.enqueue (some sub) callbackUri payload correlationId e = .ok ((ok, q'), e')) :
    q' = q ∨ ∃ row : Row, row.id = q.nextId ∧ row.subscriptionId = sub ∧
      q' = ⟨q.rows ++ [row], q.nextId + 1⟩ := by
  cases payload with
  | none =>
    cases h
    exact Or.inl rfl
  | some p =>
    simp only [RetryStore.enqueue] at h
    split_ifs at h
    · rcases RetryStore.memEnqueue_cases h with ⟨-, rfl⟩ | ⟨-, envelope, now, e₁, -, rfl⟩
      · exact Or.inl rfl
      · exact Or.inr ⟨_, rfl, rfl, rfl⟩
    · cases h
      exact Or.inl rfl

end derives

/-- Row ids stand for one subscription each, in the queue and on the desk. -/
structure MemSystem.Signed (s : MemSystem ι) (name : ℕ → String) : Prop where
  rows : ∀ r ∈ s.queue.rows, r.subscriptionId = name r.id ∧ r.id < s.queue.nextId
  items : ∀ i item, (s.desk.phase i).item? = some item →
    item.subscriptionId = name item.id ∧ item.id < s.queue.nextId

def MemSystem.backlog (s : MemSystem ι) : Backlog ι String where
  waiting := {k | ∃ r ∈ s.queue.rows, Waiting r ∧ r.subscriptionId = k}
  held := s.desk.held
  gone := {k | k ∈ s.gone}
  finished := s.desk.posted

variable {s s' : MemSystem ι} {name : ℕ → String}

theorem held_eq_some {d : Desk ι} {i : ι} {k : String} (h : d.held i = some k) :
    ∃ item, (d.phase i).item? = some item ∧ item.subscriptionId = k :=
  Option.map_eq_some_iff.1 h

/-- A call that only changes the subscriptions is none of the backlog's concern. -/
theorem move_subs (subs : SubscriptionStore) :
    s.backlog.Move ({ s with subs := subs } : MemSystem ι).backlog where
  waiting _ hk := Or.inl hk
  gone _ hk := Or.inl hk
  kept _ hk := hk
  held _ _ hi := Or.inl hi
  finished := Or.inl rfl

/-- A call that moves rows along, and the dispatcher that made it. -/
theorem MemSystem.Signed.derives {W : Row → Prop} {queue : RetryStore} {i : ι} {p : Phase}
    (hs : s.Signed name) (hq : Derives W s.queue queue)
    (hp : ∀ item, p.item? = some item →
      ∃ r ∈ s.queue.rows, item.id = r.id ∧ item.subscriptionId = r.subscriptionId) :
    MemSystem.Signed { s with queue := queue, desk := s.desk.put i p } name where
  rows r' hr' := by
    obtain ⟨r, hr, hid, hsub, -⟩ := hq.rows r' hr'
    rw [hid, hsub, hq.nextId]
    exact hs.rows r hr
  items j item hj := by
    rw [hq.nextId]
    rcases item_put hj with ⟨-, hitem⟩ | hitem
    · obtain ⟨r, hr, hid, hsub⟩ := hp item hitem
      rw [hid, hsub]
      exact hs.rows r hr
    · exact hs.items j item hitem

theorem move_derives {W : Row → Prop} {queue : RetryStore} {i : ι} {p : Phase}
    (hq : Derives W s.queue queue) (hW : ∀ r ∈ s.queue.rows, W r → r.subscriptionId ∉ s.gone)
    (hp : ∀ item, p.item? = some item →
      ∃ r ∈ s.queue.rows, Waiting r ∧ item.subscriptionId = r.subscriptionId) :
    s.backlog.Move ({ s with queue := queue, desk := s.desk.put i p } : MemSystem ι).backlog where
  waiting k hk := by
    obtain ⟨r', hr', hw', hsub'⟩ := hk
    obtain ⟨r, hr, -, hsub, hw⟩ := hq.rows r' hr'
    rcases hw hw' with hwait | hput
    · exact Or.inl ⟨r, hr, hwait, hsub ▸ hsub'⟩
    · have hfree := hW r hr hput
      rw [← hsub, hsub'] at hfree
      exact Or.inr hfree
  gone _ hk := Or.inl hk
  kept _ hk := hk
  held j k hj := by
    obtain ⟨item, hitem, hk⟩ := held_eq_some hj
    rcases item_put hitem with ⟨-, hnew⟩ | hold
    · obtain ⟨r, hr, hw, hsub⟩ := hp item hnew
      exact Or.inr ⟨r, hr, hw, hsub ▸ hk⟩
    · exact Or.inl (Option.map_eq_some_iff.2 ⟨item, hold, hk⟩)
  finished := Or.inl rfl

theorem claimedPhase_item {got : RetryStore.Dequeued} {item : RetryItem}
    (h : (claimedPhase got).item? = some item) : got = .claimed item := by
  cases got with
  | none => cases h
  | error => cases h
  | claimed held =>
    cases h
    rfl

theorem next_enqueue {sub : String} {queue : RetryStore} (hs : s.Signed name)
    (hgone : sub ∉ s.gone)
    (hq : queue = s.queue ∨ ∃ row : Row, row.id = s.queue.nextId ∧ row.subscriptionId = sub ∧
      queue = ⟨s.queue.rows ++ [row], s.queue.nextId + 1⟩) :
    (∃ name', MemSystem.Signed { s with queue := queue } name') ∧
      s.backlog.Move ({ s with queue := queue } : MemSystem ι).backlog := by
  rcases hq with rfl | ⟨row, hid, hsub, rfl⟩
  · exact ⟨⟨name, hs⟩, move_subs s.subs⟩
  · constructor
    · refine ⟨Function.update name s.queue.nextId sub, fun r hr => ?_, fun i item hi => ?_⟩
      · rcases List.mem_append.1 hr with hold | hnew
        · obtain ⟨hname, hlt⟩ := hs.rows r hold
          rw [Function.update_of_ne hlt.ne]
          exact ⟨hname, hlt.trans (Nat.lt_succ_self _)⟩
        · rw [List.mem_singleton.1 hnew, hid, hsub, Function.update_self]
          exact ⟨rfl, Nat.lt_succ_self _⟩
      · obtain ⟨hname, hlt⟩ := hs.items i item hi
        rw [Function.update_of_ne hlt.ne]
        exact ⟨hname, hlt.trans (Nat.lt_succ_self _)⟩
    · constructor
      · intro k hk
        obtain ⟨r, hr, hw, hrk⟩ := hk
        rcases List.mem_append.1 hr with hold | hnew
        · exact Or.inl ⟨r, hold, hw, hrk⟩
        · rw [List.mem_singleton.1 hnew, hsub] at hrk
          exact Or.inr (hrk ▸ hgone)
      · exact fun _ hk => Or.inl hk
      · exact fun _ hk => hk
      · exact fun _ _ hi => Or.inl hi
      · exact Or.inl rfl

theorem next_delete {id : String} (subs : SubscriptionStore)
    (hmeets : ∀ r ∈ s.queue.rows, r.subscriptionId = id → r.claimed = true ∨
      r.status = .deadLetter) :
    s.backlog.Move
      ({ s with subs := subs, gone := id :: s.gone } : MemSystem ι).backlog where
  waiting _ hk := Or.inl hk
  gone k hk := by
    rcases List.mem_cons.1 hk with rfl | hgone
    · refine Or.inr ?_
      intro hwait
      obtain ⟨r, hr, ⟨hclaimed, hpending⟩, hsub⟩ := hwait
      rcases hmeets r hr hsub with h | h
      · rw [hclaimed] at h
        cases h
      · rw [hpending] at h
        cases h
    · exact Or.inl hgone
  kept _ hk := List.mem_cons_of_mem _ hk
  held _ _ hi := Or.inl hi
  finished := Or.inl rfl

/-- A step under the condition keeps the ids in order and is a move of the backlog. -/
theorem mem_next (hs : ∃ name, s.Signed name) (h : s.Next s') :
    (∃ name, s'.Signed name) ∧ s.backlog.Move s'.backlog := by
  obtain ⟨name, hs⟩ := hs
  obtain ⟨c, hstep, hmeets⟩ := h
  cases hstep with
  | insert id callbackUri filter amfId amfSetId expiryAt e e' ok subs _ =>
    exact ⟨⟨name, hs.rows, hs.items⟩, move_subs subs⟩
  | replace id callbackUri filter expiryAt e e' code subs _ =>
    exact ⟨⟨name, hs.rows, hs.items⟩, move_subs subs⟩
  | tombstone id => exact ⟨⟨name, hs.rows, hs.items⟩, move_subs _⟩
  | delete id subs _ => exact ⟨⟨name, hs.rows, hs.items⟩, next_delete subs hmeets⟩
  | enqueue sub callbackUri payload correlationId e e' ok queue hq =>
    exact next_enqueue hs hmeets (enqueue_rows hq)
  | dequeue i e e' got queue hi hq =>
    have hclaims {item : RetryItem} (hitem : (claimedPhase got).item? = some item) :
        ∃ r ∈ s.queue.rows, Waiting r ∧ item.id = r.id ∧
          item.subscriptionId = r.subscriptionId :=
      memDequeue_claims (claimedPhase_item hitem ▸ hq)
    have hq' : Derives (fun _ => False) s.queue queue := derives_memDequeue hq
    refine ⟨⟨name, hs.derives hq' fun item hitem => ?_⟩,
      move_derives hq' (fun _ _ h => h.elim) fun item hitem => ?_⟩
    · obtain ⟨r, hr, -, hid, hsub⟩ := hclaims hitem
      exact ⟨r, hr, hid, hsub⟩
    · obtain ⟨r, hr, hw, -, hsub⟩ := hclaims hitem
      exact ⟨r, hr, hw, hsub⟩
  | work desk hdesk =>
    refine ⟨⟨name, hs.rows, fun j item hj => hs.items j item (hdesk.item hj)⟩, ?_⟩
    constructor
    · exact fun _ hk => Or.inl hk
    · exact fun _ hk => Or.inl hk
    · exact fun _ hk => hk
    · intro j k hj
      obtain ⟨item, hitem, hk⟩ := held_eq_some hj
      exact Or.inl (Option.map_eq_some_iff.2 ⟨item, hdesk.item hitem, hk⟩)
    · exact hdesk.posted
  | resolve i item v e e' queue hi hq =>
    have hq' := derives_resolve hq
    have hitem : (s.desk.phase i).item? = some item := by
      rw [hi]
      rfl
    refine ⟨⟨name, hs.derives hq' fun _ h => by cases h⟩,
      move_derives hq' (fun r hr hput => ?_) fun _ h => by cases h⟩
    have hsub : r.subscriptionId = item.subscriptionId := by
      rw [(hs.rows r hr).1, (hs.items i item hitem).1, hput.2]
    rw [resolving, if_pos hput.1] at hmeets
    rw [hsub]
    exact hmeets

omit [DecidableEq ι] in
theorem signed_init : (MemSystem.init : MemSystem ι).Signed fun _ => "" where
  rows r hr := by cases hr
  items i item hi := by cases hi

theorem clear_init : (MemSystem.init : MemSystem ι).backlog.Clear := by
  intro k hk
  cases hk

omit [DecidableEq ι] in
theorem held_of_idle {d : Desk ι} (h : d.Idle) (i : ι) (k : String) : d.held i ≠ some k := by
  rw [Desk.held, h i]
  simp [Phase.item?]

/-- After a delete, and with no dispatch going on, nothing is posted for the id any more. -/
theorem mem_final {id : String} (h : Runs MemSystem.Next MemSystem.init s) (hid : id ∈ s.gone)
    (hidle : s.desk.Idle) (hr : Runs MemSystem.Next s s') :
    ∃ new, s'.desk.posted = new ++ s.desk.posted ∧ id ∉ new := by
  obtain ⟨hs, hruns⟩ := Runs.simulate (f := MemSystem.backlog) h ⟨_, signed_init⟩
    fun _ _ hI hstep => mem_next hI hstep
  obtain ⟨-, hlater⟩ := Runs.simulate (f := MemSystem.backlog) hr hs
    fun _ _ hI hstep => mem_next hI hstep
  exact (Backlog.runs_settled (Backlog.runs_clear clear_init hruns) hid
    (fun i => held_of_idle hidle i id) hlater).finished

end memory

section sample

/-- The steps of a run without any condition. -/
def MemSystem.Any (s s' : MemSystem Unit) : Prop := ∃ c, MemStep s c s'

def sampleQueue : RetryStore :=
  ⟨[⟨1, "s", "\x7b\"callbackUri\":\"https://a\",\"body\":\x7b\x7d\x7d", 0, false, .pending, 0⟩], 2⟩

def sampleItem : RetryItem := ⟨1, "s", some "https://a", "\x7b\x7d", none, 0⟩

theorem next_enqueue_sample :
    MemStep MemSystem.init (.enqueue "s") ⟨.newInmemory, sampleQueue, (.init : Desk Unit), []⟩ :=
  .enqueue "s" (some "https://a") (some "\x7b\x7d") none Env.quiet _ true sampleQueue rfl

def HeaderBuild.isOk : HeaderBuild → Bool
  | .ok _ => true
  | _ => false

/-- The next dispatch posts the row, whatever was deleted before. -/
theorem next_posts (gone : List String) :
    ∃ s', Runs MemSystem.Next ⟨.newInmemory, sampleQueue, (.init : Desk Unit), gone⟩ s' ∧
      s'.desk.posted = ["s"] := by
  have hclaim : Prog.seen? (fun r _ => r.1) sampleQueue.memDequeue Env.quiet =
      some (.claimed sampleItem) := by
    decide +kernel
  obtain ⟨⟨got, queue⟩, e₁, hdequeue, hgot⟩ := Prog.exists_of_seen? hclaim
  obtain rfl : got = .claimed sampleItem := hgot
  have hbuilt : Prog.seen? (fun r _ => HeaderBuild.isOk r.1)
      ((notificationDispatcherNew none).prepare sampleItem none) Env.quiet = some true := by
    decide +kernel
  obtain ⟨⟨built, dispatcher⟩, e₂, hprepare, hok⟩ := Prog.exists_of_seen? hbuilt
  cases built with
  | ok headers =>
    have hfirst := next_of_other
      (.dequeue (s := ⟨.newInmemory, sampleQueue, .init, gone⟩) () _ _ _ _ rfl hdequeue)
    have hgate := next_of_other (MemStep.work (s := ⟨.newInmemory, queue, _, gone⟩) _
      (.gate (d := Desk.put .init () _) () sampleItem (notificationDispatcherNew none) rfl))
    have hprep := next_of_other (MemStep.work (s := ⟨.newInmemory, queue, _, gone⟩) _
      (.prepare (d := Desk.put (Desk.put .init () (.claimed sampleItem)) () _) () sampleItem _ _ _ _ _ _ rfl
        hprepare))
    have hpost := next_of_other (MemStep.work (s := ⟨.newInmemory, queue, _, gone⟩) _
      (.deliver (d := Desk.put (Desk.put (Desk.put .init () (.claimed sampleItem)) ()
        (.admitted sampleItem)) () _) () sampleItem headers ⟨0, 200⟩ rfl))
    have hrun := ((Relation.ReflTransGen.single hfirst).tail hgate).tail hprep
    exact ⟨_, hrun.tail hpost, rfl⟩
  | abort => cases hok
  | failed => cases hok

end sample

end Nssf.Unsubscribe
