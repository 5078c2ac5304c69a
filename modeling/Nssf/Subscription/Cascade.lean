import Mathlib.Data.List.Forall2
import Nssf.Availability.Publication
import Nssf.Dispatcher.RoundTrip
import Nssf.Subscription.Fanout
import Nssf.Subscription.PatchCommit

/-! Who hears of a committed change. The fan-out writes one row for each live subscription that
covers the tracking area of the event. That area is the one of the call, so a subscriber to the
area an NF leaves, by moving or by being deleted, is not told. -/

namespace Nssf

open Base Run

namespace SubscriptionRecord

def filterTai (x : SubscriptionRecord) : Option Json := x.filter.bind (·.member? "tai")

/-- The filter has no tracking area, or the given one. -/
def covers (x : SubscriptionRecord) (area : Option Json) : Bool :=
  x.filterTai.all fun wanted => area.any wanted.compare

/-- Neither the subscriber's own change nor a callback that the policy refuses. -/
def addressed (x : SubscriptionRecord) (nf : String) : Bool :=
  x.amfId != some nf && notificationCallbackUrlAllowed x.callbackUri

def hears (x : SubscriptionRecord) (nf : String) (area : Option Json) : Bool :=
  !x.tombstone && (x.covers area && x.addressed nf)

/-- A live record whose filter matches the event. -/
def isMatch (x : SubscriptionRecord) (ev : ChangeEvent) : Bool :=
  !x.tombstone && x.covers ev.tai

/-- The record gets a row: it matches, it is not the cause itself, and its callback may be
posted to. -/
def told (x : SubscriptionRecord) (ev : ChangeEvent) : Bool :=
  x.isMatch ev && (!Subscription.selfNotificationSuppressed x.amfId ev &&
    notificationCallbackUrlAllowed x.callbackUri)

/-- The filter can be looked into. -/
def Searchable (x : SubscriptionRecord) : Prop :=
  ∀ filter, x.filter = some filter → filter.Lookable

end SubscriptionRecord

namespace Subscription

/-- A fresh row with the id and the callback of the subscription. -/
def RowFor (row : Row) (x : SubscriptionRecord) : Prop :=
  row.subscriptionId = x.id.text ∧ row.attemptCount = 0 ∧ row.claimed = false ∧
    row.status = .pending ∧ ∃ cb body, x.callbackUri = some cb ∧
      row.envelope = Json.printText (.object [("callbackUri", .string cb), ("body", body)])

theorem filterMatchesEvent_eq {x : SubscriptionRecord} (h : x.Searchable) (ev : ChangeEvent) :
    filterMatchesEvent x.filter ev = pure (x.covers ev.tai) := by
  unfold filterMatchesEvent SubscriptionRecord.covers SubscriptionRecord.filterTai
  cases hf : x.filter with
  | none => rfl
  | some filter =>
    change (Json.getObjectItem (some filter) "tai" >>= _) = _
    rw [Json.getObjectItem_of_lookable (h filter hf), pure_bind, Option.bind_some]
    cases filter.member? "tai" with
    | none => rfl
    | some wanted => rfl

theorem selfNotificationSuppressed_eq {ev : ChangeEvent} {nf : String} (h : ev.nfId = some nf)
    (amfId : Option String) :
    selfNotificationSuppressed amfId ev = (amfId == some nf) := by
  unfold selfNotificationSuppressed
  rw [h]
  cases amfId with
  | none => rfl
  | some a => rfl

theorem yields_buildSnapshotPayload (id : String) : Yields (buildSnapshotPayload id)
    (some (Json.printText (.object [("subscriptionId", .string id)]))) := by
  refine Yields.bind (yields_allocated id) ?_
  refine Yields.bind yields_alloc ?_
  refine Yields.bind (yields_allocated (Json.object [])) ?_
  refine Yields.bind yields_alloc ?_
  exact yields_allocated _

/-- With every allocation granted a row that passes the structural gate is written. -/
theorem enqueue_granted (q : RetryStore) (id cb payload : String) {e : Env} (he : e.AllocOk)
    (hgate : callbackUrlAllowed (some cb) true = true) :
    ∃ body t e', q.enqueue (some id) (some cb) (some payload) none e =
      .ok ((true, ⟨q.rows ++ [⟨q.nextId, id,
        Json.printText (.object [("callbackUri", .string cb), ("body", body)]), 0, false,
        .pending, t⟩], q.nextId + 1⟩), e') ∧ e'.AllocOk ∧ e'.effects = e.effects := by
  obtain ⟨e₁, h₁, hd₁⟩ := yields_envelopeBuild (some cb) none payload e he
  obtain ⟨e₂, h₂, hd₂⟩ := yields_allocated id e₁ (hd₁.allocOk he)
  obtain ⟨e₃, h₃, hd₃⟩ := yields_alloc e₂ (hd₂.allocOk (hd₁.allocOk he))
  have hd := (hd₁.trans hd₂).trans hd₃
  have he₃ : e₃.AllocOk := hd.allocOk he
  refine ⟨storedBody payload, e₃.clockMs.head, { e₃ with clockMs := e₃.clockMs.tail }, ?_, he₃,
    hd.effects_eq⟩
  unfold RetryStore.enqueue
  simp only [hgate, if_true]
  unfold RetryStore.memEnqueue
  rw [Prog.bind_of_ok h₁, Prog.bind_of_ok h₂]
  change (alloc >>= _) e₂ = _
  rw [Prog.bind_of_ok h₃]
  rfl

theorem enqueueFor_row (st : FanoutState) {x : SubscriptionRecord} {e : Env} (he : e.AllocOk)
    (hcb : notificationCallbackUrlAllowed x.callbackUri = true) :
    ∃ st' row e', enqueueFor st x e = .ok (st', e') ∧ e'.AllocOk ∧ RowFor row x ∧
      st'.store = st.store ∧ st'.queue.rows = st.queue.rows ++ [row] ∧
      st'.enqueued = st.enqueued + 1 := by
  obtain ⟨cb, hsome⟩ := callbackUrlAllowed_isSome hcb
  have hgate : callbackUrlAllowed (some cb) true = true := by
    rw [← hsome]
    exact callbackUrlAllowed_mono hcb
  obtain ⟨e₁, h₁, hd₁⟩ := yields_buildSnapshotPayload x.id.text e he
  obtain ⟨body, t, e₂, h₂, he₂, -⟩ := enqueue_granted st.queue x.id.text cb
    (Json.printText (.object [("subscriptionId", .string x.id.text)])) (hd₁.allocOk he) hgate
  let row : Row := ⟨st.queue.nextId, x.id.text,
    Json.printText (.object [("callbackUri", .string cb), ("body", body)]), 0, false, .pending, t⟩
  refine ⟨⟨st.store, ⟨st.queue.rows ++ [row], st.queue.nextId + 1⟩, st.enqueued + 1⟩, row, e₂, ?_,
    he₂, ⟨rfl, rfl, rfl, rfl, cb, body, hsome, rfl⟩, rfl, rfl, rfl⟩
  unfold enqueueFor
  rw [Prog.bind_of_ok h₁, hsome]
  change (st.queue.enqueue _ _ _ _ >>= _) e₁ = _
  rw [Prog.bind_of_ok h₂]
  rfl

theorem drop_eq_cons {l rest : List SubscriptionRecord} {i : ℕ} {x : SubscriptionRecord}
    (h : l.drop i = x :: rest) : l[i]? = some x ∧ l.drop (i + 1) = rest := by
  constructor
  · rw [← Nat.add_zero i, ← List.getElem?_drop, h]
    rfl
  · rw [← List.drop_drop, h]
    rfl

/-- A scan that is past the record does not see its tombstone. -/
theorem drop_memTombstone {s : SubscriptionStore} {i : ℕ} {x : SubscriptionRecord}
    (hx : s.items[i]? = some x) :
    (s.memTombstone x.id.text).items.drop (i + 1) = s.items.drop (i + 1) := by
  unfold SubscriptionStore.memTombstone
  cases hj : s.indexOf x.id.text with
  | none => rfl
  | some j =>
    obtain ⟨hlt, -, hfirst⟩ := List.findIdx?_eq_some_iff_getElem.1 hj
    obtain ⟨hi, hxi⟩ := List.getElem?_eq_some_iff.1 hx
    have hji : j ≤ i := by
      by_contra hij
      have hne := hfirst i (by omega)
      rw [hxi] at hne
      simp at hne
    exact List.drop_modify_of_lt _ j (i + 1) s.items (by omega)

theorem tombstoneMatch_queue (ev : ChangeEvent) (st : FanoutState) (x : SubscriptionRecord) :
    (tombstoneMatch ev st x).queue = st.queue := by
  unfold tombstoneMatch
  split_ifs with h
  · rfl
  · rfl

theorem tombstoneMatch_enqueued (ev : ChangeEvent) (st : FanoutState) (x : SubscriptionRecord) :
    (tombstoneMatch ev st x).enqueued = st.enqueued := by
  simp only [tombstoneMatch]
  split_ifs with h
  · rfl
  · rfl

/-- The store once the matches among the records have been swept, which a deletion does. -/
def swept (ev : ChangeEvent) (s : SubscriptionStore) (l : List SubscriptionRecord) :
    SubscriptionStore :=
  if ev.changeType = .deleted then
    (l.filter fun x => x.isMatch ev).foldl (fun s x => s.memTombstone x.id.text) s
  else s

theorem swept_nil (ev : ChangeEvent) (s : SubscriptionStore) : swept ev s [] = s := by
  simp [swept]

theorem swept_cons (ev : ChangeEvent) (s : SubscriptionStore) (x : SubscriptionRecord)
    (l : List SubscriptionRecord) : swept ev s (x :: l) = swept ev (swept ev s [x]) l := by
  simp only [swept]
  split_ifs with h
  · rw [← List.singleton_append, List.filter_append, List.foldl_append]
  · rfl

theorem swept_singleton (ev : ChangeEvent) (st : FanoutState) (x : SubscriptionRecord) :
    swept ev st.store [x] = if x.isMatch ev then (tombstoneMatch ev st x).store else st.store := by
  simp only [swept, tombstoneMatch, List.filter_singleton]
  cases x.isMatch ev with
  | false => simp
  | true => by_cases h : ev.changeType = .deleted <;> simp [h]

theorem drop_tombstoneMatch (ev : ChangeEvent) {st : FanoutState} {i : ℕ}
    {x : SubscriptionRecord} (hx : st.store.items[i]? = some x) :
    (tombstoneMatch ev st x).store.items.drop (i + 1) = st.store.items.drop (i + 1) := by
  unfold tombstoneMatch
  split_ifs with h
  · exact drop_memTombstone hx
  · rfl

theorem drop_swept_singleton (ev : ChangeEvent) {st : FanoutState} {i : ℕ}
    {x : SubscriptionRecord} (hx : st.store.items[i]? = some x) :
    (swept ev st.store [x]).items.drop (i + 1) = st.store.items.drop (i + 1) := by
  rw [swept_singleton]
  split_ifs with h
  · exact drop_tombstoneMatch ev hx
  · rfl

theorem told_eq_hears {ev : ChangeEvent} {nf : String} (hnf : ev.nfId = some nf)
    (x : SubscriptionRecord) : x.told ev = x.hears nf ev.tai := by
  simp only [SubscriptionRecord.told, SubscriptionRecord.isMatch, SubscriptionRecord.hears,
    SubscriptionRecord.addressed, selfNotificationSuppressed_eq hnf, Bool.and_assoc]
  rfl

section scan

variable {ev : ChangeEvent}

/-- One live record. It is swept whenever it matches; it is told if it may be. -/
theorem fanoutOne_told {st : FanoutState} {x : SubscriptionRecord} (hlive : x.tombstone = false)
    (hs : x.Searchable) {e : Env} (he : e.AllocOk) :
    ∃ st' new e', fanoutOne ev st x e = .ok (st', e') ∧ e'.AllocOk ∧
      st'.store = swept ev st.store [x] ∧ st'.queue.rows = st.queue.rows ++ new ∧
      st'.enqueued = st.enqueued + new.length ∧
      List.Forall₂ RowFor new ([x].filter fun x => x.told ev) := by
  have htold : x.told ev = (x.covers ev.tai && (!selfNotificationSuppressed x.amfId ev &&
      notificationCallbackUrlAllowed x.callbackUri)) := by
    simp [SubscriptionRecord.told, SubscriptionRecord.isMatch, hlive]
  have hmatch : x.isMatch ev = x.covers ev.tai := by
    simp [SubscriptionRecord.isMatch, hlive]
  simp only [fanoutOne, filterMatchesEvent_eq hs, pure_bind]
  rw [List.filter_singleton, htold, swept_singleton, hmatch]
  cases x.covers ev.tai with
  | false => exact ⟨st, [], e, rfl, he, rfl, by simp, rfl, List.Forall₂.nil⟩
  | true =>
    have hqueue := tombstoneMatch_queue ev st x
    have hbefore := tombstoneMatch_enqueued ev st x
    cases hself : selfNotificationSuppressed x.amfId ev with
    | true =>
      exact ⟨_, [], e, rfl, he, rfl, by rw [hqueue, List.append_nil], hbefore, by simp⟩
    | false =>
      cases hcb : notificationCallbackUrlAllowed x.callbackUri with
      | false =>
        exact ⟨_, [], e, rfl, he, rfl, by rw [hqueue, List.append_nil], hbefore, by simp⟩
      | true =>
        obtain ⟨st', row, e', hrun, he', hrow, hstore, hrows, hcount⟩ :=
          enqueueFor_row (tombstoneMatch ev st x) he hcb
        refine ⟨st', [row], e', hrun, he', hstore, ?_, ?_, .cons hrow .nil⟩
        · rw [hrows, hqueue]
        · rw [hcount, hbefore, List.length_singleton]

/-- The records from `i` on are those of the store the scan began with. -/
theorem forEachLive_told {l : List SubscriptionRecord}
    (hs : ∀ x ∈ l, x.tombstone = false → x.Searchable) (i : ℕ) (st : FanoutState)
    (hl : st.store.items.drop i = l) {e : Env} (he : e.AllocOk) :
    ∃ st' new e', forEachLive ev i l.length st e = .ok (st', e') ∧
      st'.store = swept ev st.store l ∧ st'.queue.rows = st.queue.rows ++ new ∧
      st'.enqueued = st.enqueued + new.length ∧
      List.Forall₂ RowFor new (l.filter fun x => x.told ev) := by
  induction l generalizing i st e with
  | nil => exact ⟨st, [], e, rfl, (swept_nil ev st.store).symm, by simp, rfl, List.Forall₂.nil⟩
  | cons x l ih =>
    obtain ⟨hx, htail⟩ := drop_eq_cons hl
    have hs' : ∀ y ∈ l, y.tombstone = false → y.Searchable :=
      fun y hy => hs y (List.mem_cons_of_mem x hy)
    rw [List.length_cons, forEachLive]
    simp only [hx]
    by_cases hlive : x.tombstone = true
    · obtain ⟨st', new, e', hrun, hstore, hrows, hcount, hnew⟩ := ih hs' _ _ htail he
      have hmute : x.isMatch ev = false := by
        simp [SubscriptionRecord.isMatch, hlive]
      refine ⟨st', new, e', ?_, ?_, hrows, hcount, ?_⟩
      · rw [if_pos hlive]
        exact hrun
      · rw [hstore, swept_cons, swept_singleton, hmute]
        rfl
      · rw [List.filter_cons_of_neg (by simp [SubscriptionRecord.told, hmute])]
        exact hnew
    · have hlive' : x.tombstone = false := by simpa using hlive
      obtain ⟨st₁, new₁, e₁, hone, he₁, hstore₁, hrows₁, hcount₁, hnew₁⟩ :=
        fanoutOne_told hlive' (hs x List.mem_cons_self hlive') he
      have hdrop : st₁.store.items.drop (i + 1) = l := by
        rw [hstore₁, drop_swept_singleton ev hx, htail]
      obtain ⟨st', new, e', hrun, hstore, hrows, hcount, hnew⟩ := ih hs' _ _ hdrop he₁
      refine ⟨st', new₁ ++ new, e', ?_, ?_, ?_, ?_, ?_⟩
      · rw [if_neg hlive, Prog.bind_of_ok hone]
        exact hrun
      · rw [hstore, hstore₁, ← swept_cons]
      · rw [hrows, hrows₁, List.append_assoc]
      · rw [hcount, hcount₁, List.length_append]
        omega
      · rw [← List.singleton_append, List.filter_append]
        exact List.rel_append hnew₁ hnew

theorem enqueueFor_store {st st' : FanoutState} {x : SubscriptionRecord} {e e' : Env}
    (h : enqueueFor st x e = .ok (st', e')) : st'.store = st.store := by
  obtain ⟨o, e₁, -, h⟩ := Prog.bind_eq_ok.1 h
  cases o with
  | none =>
    cases h
    rfl
  | some payload =>
    obtain ⟨⟨ok, queue⟩, e₂, -, h⟩ := Prog.bind_eq_ok.1 h
    cases h
    rfl

theorem searchable_of_filterMatchesEvent {x : SubscriptionRecord} {e : Env}
    (h : Prog.Returns (filterMatchesEvent x.filter ev) e) : x.Searchable := by
  intro filter hf
  rw [hf] at h
  obtain ⟨⟨b, e'⟩, h⟩ := h
  obtain ⟨o, e₁, hget, -⟩ := Prog.bind_eq_ok.1 h
  exact Json.getObjectItem_returns_iff.1 ⟨_, hget⟩

theorem fanoutOne_ok {st st' : FanoutState} {x : SubscriptionRecord} {e e' : Env}
    (h : fanoutOne ev st x e = .ok (st', e')) :
    x.Searchable ∧ (st'.store = st.store ∨ st'.store = (tombstoneMatch ev st x).store) := by
  obtain ⟨covered, e₁, hmatch, h⟩ := Prog.bind_eq_ok.1 h
  refine ⟨searchable_of_filterMatchesEvent ⟨_, hmatch⟩, ?_⟩
  split_ifs at h with hcovered hself hcb
  · cases h
    exact Or.inr rfl
  · exact Or.inr (enqueueFor_store h)
  · cases h
    exact Or.inr rfl
  · cases h
    exact Or.inl rfl

/-- A scan that returns has looked into every live filter. -/
theorem searchable_of_forEachLive {l : List SubscriptionRecord} (i : ℕ) (st : FanoutState)
    {st' : FanoutState} (hl : st.store.items.drop i = l) {e e' : Env}
    (h : forEachLive ev i l.length st e = .ok (st', e')) :
    ∀ x ∈ l, x.tombstone = false → x.Searchable := by
  induction l generalizing i st e with
  | nil =>
    intro x hx
    cases hx
  | cons x l ih =>
    obtain ⟨hx, htail⟩ := drop_eq_cons hl
    rw [List.length_cons, forEachLive] at h
    simp only [hx] at h
    intro y hy hlive
    by_cases hdead : x.tombstone = true
    · rw [if_pos hdead] at h
      rcases List.mem_cons.1 hy with rfl | hy
      · rw [hlive] at hdead
        cases hdead
      · exact ih _ _ htail h y hy hlive
    · rw [if_neg hdead] at h
      obtain ⟨st₁, e₁, hone, h⟩ := Prog.bind_eq_ok.1 h
      obtain ⟨hs, hstore⟩ := fanoutOne_ok hone
      have hdrop : st₁.store.items.drop (i + 1) = l := by
        rcases hstore with hstore | hstore
        · rw [hstore, htail]
        · rw [hstore, drop_tombstoneMatch ev hx, htail]
      rcases List.mem_cons.1 hy with rfl | hy
      · exact hs
      · exact ih _ _ hdrop h y hy hlive

end scan

/-- The fan-out returns, and its new rows are those of the wanted subscriptions, in order. -/
def FansOut (s : SubscriptionStore) (q : RetryStore) (ev : ChangeEvent) (e : Env)
    (wanted : SubscriptionRecord → Bool) : Prop :=
  ∃ st new e', fanoutChange s q ev e = .ok (st, e') ∧ st.queue.rows = q.rows ++ new ∧
    List.Forall₂ RowFor new (s.items.filter wanted)

theorem fansOut_of_searchable {s : SubscriptionStore} {ev : ChangeEvent} {nf : String} {e : Env}
    (hnf : ev.nfId = some nf) (he : e.AllocOk)
    (hs : ∀ x ∈ s.items, x.tombstone = false → x.Searchable) (q : RetryStore) :
    FansOut s q ev e fun x => x.hears nf ev.tai := by
  obtain ⟨st, new, e', hrun, -, hrows, -, hnew⟩ :=
    @forEachLive_told ev s.items hs 0 ⟨s, q, 0⟩ rfl e he
  simp only [told_eq_hears hnf] at hnew
  exact ⟨st, new, e', hrun, hrows, hnew⟩

theorem FansOut.searchable {s : SubscriptionStore} {q : RetryStore} {ev : ChangeEvent} {e : Env}
    {wanted : SubscriptionRecord → Bool} (h : FansOut s q ev e wanted) :
    ∀ x ∈ s.items, x.tombstone = false → x.Searchable := by
  obtain ⟨st, new, e', hrun, -⟩ := h
  exact searchable_of_forEachLive 0 ⟨s, q, 0⟩ rfl hrun

theorem ids_of_rows {new : List Row} {l : List SubscriptionRecord}
    (h : List.Forall₂ RowFor new l) : l.map (·.id.text) = new.map Row.subscriptionId := by
  induction h with
  | nil => rfl
  | cons hrow _ ih => rw [List.map_cons, List.map_cons, ih, hrow.1]

/-- With unique ids the new rows tell who was wanted. -/
theorem FansOut.agree {s : SubscriptionStore} {q : RetryStore} {ev : ChangeEvent} {e : Env}
    {p w : SubscriptionRecord → Bool} (hn : (s.items.map (·.id.text)).Nodup)
    (hp : FansOut s q ev e p) (hw : FansOut s q ev e w) {x : SubscriptionRecord}
    (hx : x ∈ s.items) (h : p x = true) : w x = true := by
  obtain ⟨st, new, e₁, hrun, hrows, hnew⟩ := hp
  obtain ⟨st', new', e₂, hrun', hrows', hnew'⟩ := hw
  rw [hrun] at hrun'
  cases hrun'
  rw [hrows] at hrows'
  have hids : (s.items.filter p).map (·.id.text) = (s.items.filter w).map (·.id.text) := by
    rw [ids_of_rows hnew, ids_of_rows hnew', List.append_cancel_left hrows']
  have hmem : x.id.text ∈ (s.items.filter w).map (·.id.text) := by
    rw [← hids]
    exact List.mem_map_of_mem (List.mem_filter.2 ⟨hx, h⟩)
  obtain ⟨y, hy, hid⟩ := List.mem_map.1 hmem
  obtain ⟨hys, hwy⟩ := List.mem_filter.1 hy
  rw [← eq_of_key_eq hn hys hx hid]
  exact hwy

end Subscription

/-- The tracking area stored for an NF. -/
def AvailabilityRepo.storedTai (r : AvailabilityRepo) (nf : String) : Option Json :=
  (r.row? nf).bind (·.tai)

namespace EngineCall

open Subscription NssaiAvailabilityInfo

/-- The tracking area that the call leaves stored for the NF, read off its arguments. -/
def taiAfter (c : EngineCall) (r : AvailabilityRepo) (nf : String) : Option Json :=
  match c with
  | .replace _ info _ => info.bind firstTai?
  | .patch _ _ _ _ _ => r.storedTai nf
  | .delete _ => none

theorem storedTai_of_committed {c : EngineCall} {r r' : AvailabilityRepo}
    {reply : AvailabilityReply} {e e' : Env} {u : Unit} (hr : r.Keyed)
    (h : c.run none r u e = .ok ((reply, r', u), e')) (hc : reply.result.committed = true) :
    ∃ nf, c.nfId = some nf ∧ r'.storedTai nf = c.taiAfter r nf := by
  cases c with
  | replace nfId info wanted =>
    rcases replace_cases h with ⟨hno, -⟩ | ⟨nf, body, tai, plmnId, before, hid, hbody, hv, htai,
      -, rfl, -⟩
    · rw [hno] at hc
      cases hc
    · refine ⟨nf, hid, ?_⟩
      unfold AvailabilityRepo.storedTai taiAfter
      rw [AvailabilityRepo.row?_put, replacementRecord_id hv, if_pos rfl, hbody]
      exact htai.symm
  | patch nfId contentType tai ops wanted =>
    rcases patch_cases hr h with ⟨hno, -⟩ | ⟨nf, area, plmnId, before, patched, hid, -, -, rfl, -⟩
    · rw [hno] at hc
      cases hc
    · refine ⟨nf, hid, ?_⟩
      unfold taiAfter AvailabilityRepo.storedTai
      rw [AvailabilityRepo.row?_withSlices, if_pos rfl]
      cases r.row? nf with
      | none => rfl
      | some x => rfl
  | delete nfId =>
    rcases delete_cases hr h with ⟨hno, -⟩ | ⟨nf, x, hid, -, -, hrows, -⟩
    · rw [hno] at hc
      cases hc
    · refine ⟨nf, hid, ?_⟩
      unfold AvailabilityRepo.storedTai
      rw [hrows nf, if_pos rfl]
      rfl

/-- Live, addressed, and subscribed to everything or to an area the NF had or has. -/
def concerned (r r' : AvailabilityRepo) (nf : String) (x : SubscriptionRecord) : Bool :=
  !x.tombstone &&
    ((x.covers (r.storedTai nf) || x.covers (r'.storedTai nf)) && x.addressed nf)

/-- No live filter is a non-empty array, and each live addressed subscription covers the area
of the event exactly when it covers one that the NF had or gets. -/
def AreaTold (c : EngineCall) (r : AvailabilityRepo) (nf : String) (s : SubscriptionStore) :
    Prop :=
  ∀ x ∈ s.items, x.tombstone = false → x.Searchable ∧ (x.addressed nf = true →
    (x.covers (r.storedTai nf) || x.covers (c.taiAfter r nf)) = x.covers c.eventTai)

/-- Whether a call commits is up to the engine alone, so it is asked of the call without a
seam. The equation says what the same call does with the seam of the server. -/
theorem cascade_told_iff {c : EngineCall} {r r' : AvailabilityRepo} {reply : AvailabilityReply}
    {e e' : Env} (hr : r.Keyed) (he : e.AllocOk)
    (h : c.run none r () e = .ok ((reply, r', ()), e')) (hc : reply.result.committed = true)
    (s : SubscriptionStore) (o : Outbox) :
    ∃ nf ev e₁ finish, c.nfId = some nf ∧
      c.run cascade r (s, o) e =
        (fanoutPublish ev (s, o) >>= fun t => finish >>= fun reply => pure (reply, r', t)) e₁ ∧
      (c.AreaTold r nf s → FansOut s o.queue ev e₁ (concerned r r' nf)) ∧
      ((s.items.map (·.id.text)).Nodup → FansOut s o.queue ev e₁ (concerned r r' nf) →
        c.AreaTold r nf s) := by
  obtain ⟨nf, hid, hafter⟩ := storedTai_of_committed hr h hc
  obtain ⟨ev, e₁, hevnf, hevtai, hd, finish, hpub⟩ := run_publishes hr h hc
  rw [hid] at hevnf
  have he₁ := hd.allocOk he
  refine ⟨nf, ev, e₁, finish, hid, hpub _ cascade (s, o), ?_, ?_⟩
  · intro htold
    have hfan := fansOut_of_searchable hevnf he₁ (fun x hx hl => (htold x hx hl).1) o.queue
    have hsame : s.items.filter (concerned r r' nf) =
        s.items.filter fun x => x.hears nf ev.tai := by
      apply List.filter_congr
      intro x hx
      unfold concerned SubscriptionRecord.hears
      rw [hafter, hevtai]
      cases hl : x.tombstone with
      | true => rfl
      | false =>
        cases ha : x.addressed nf with
        | false => simp
        | true => rw [(htold x hx hl).2 ha]
    obtain ⟨st, new, e₂, hrun, hrows, hnew⟩ := hfan
    refine ⟨st, new, e₂, hrun, hrows, ?_⟩
    rw [hsame]
    exact hnew
  · intro hn hfan x hx hl
    refine ⟨hfan.searchable x hx hl, ?_⟩
    intro ha
    have hheard := fansOut_of_searchable hevnf he₁ hfan.searchable o.queue
    have hc₁ := hfan.agree hn hheard hx
    have hc₂ := hheard.agree hn hfan hx
    unfold concerned SubscriptionRecord.hears at hc₁ hc₂
    rw [hafter, hevtai, hl, ha, Bool.and_true, Bool.and_true] at hc₁ hc₂
    exact Bool.eq_iff_iff.2 ⟨hc₁, hc₂⟩

section sample

open SubscriptionStore

def firstReplace : EngineCall :=
  .replace (some "nf-1") (some (sampleInfo [sampleEntry "000001" 1])) true

theorem firstReplace_committed : ∃ reply r' e',
    firstReplace.run none AvailabilityRepo.newInmemory () Env.quiet = .ok ((reply, r', ()), e') ∧
      reply.result.committed = true := by
  have hsome : (Prog.result? (firstReplace.run none AvailabilityRepo.newInmemory ())
      Env.quiet).map (fun p => p.1.result.committed) = some true := by
    decide
  obtain ⟨⟨reply, r', u⟩, hres, hc⟩ := Option.map_eq_some_iff.1 hsome
  obtain ⟨e', h⟩ := Prog.exists_of_result? hres
  exact ⟨reply, r', e', h, hc⟩

/-- The subscriber of everything hears of the first replace. -/
theorem cascade_told_firstReplace : ∃ reply r' e',
    firstReplace.run none AvailabilityRepo.newInmemory () Env.quiet = .ok ((reply, r', ()), e') ∧
      ∃ nf ev e₁ finish, firstReplace.nfId = some nf ∧
        firstReplace.run cascade AvailabilityRepo.newInmemory (sampleStore, sampleOutbox)
          Env.quiet = (fanoutPublish ev (sampleStore, sampleOutbox) >>= fun t =>
            finish >>= fun reply => pure (reply, r', t)) e₁ ∧
        (firstReplace.AreaTold AvailabilityRepo.newInmemory nf sampleStore →
          FansOut sampleStore sampleOutbox.queue ev e₁
            (concerned AvailabilityRepo.newInmemory r' nf)) ∧
        ((sampleStore.items.map (·.id.text)).Nodup →
          FansOut sampleStore sampleOutbox.queue ev e₁
            (concerned AvailabilityRepo.newInmemory r' nf) →
          firstReplace.AreaTold AvailabilityRepo.newInmemory nf sampleStore) := by
  obtain ⟨reply, r', e', h, hc⟩ := firstReplace_committed
  exact ⟨reply, r', e', h, cascade_told_iff sound_newInmemory.keyed Env.allocOk_quiet h hc
    sampleStore sampleOutbox⟩

def servingRepo : AvailabilityRepo :=
  ⟨[replacementRecord "nf-1" (.object [("mcc", .string "001"), ("mnc", .string "01")])
    (sampleTai "000001") [sampleSnssai 1] none]⟩

def areaStore : SubscriptionStore :=
  ⟨[{ sampleRecord with filter := some (.object [("tai", sampleTai "000001")]) }]⟩

def deletedEvent : ChangeEvent := ⟨some "nf-1", none, .deleted, none, none⟩

/-- The subscriber of the area in which the NF was is not told that it is gone. -/
theorem cascade_not_told :
    (EngineCall.delete (some "nf-1")).run cascade servingRepo (areaStore, sampleOutbox)
        Env.quiet = (fanoutPublish deletedEvent (areaStore, sampleOutbox) >>= fun t =>
          pure (⟨.noContent, none, ""⟩, ⟨[]⟩, t)) Env.quiet ∧
      ¬FansOut areaStore sampleOutbox.queue deletedEvent Env.quiet
        (concerned servingRepo ⟨[]⟩ "nf-1") := by
  refine ⟨rfl, ?_⟩
  intro h
  obtain ⟨st, new, e', hrun, hrows, hnew⟩ := h
  have hqueue : (Prog.result? (fanoutChange areaStore sampleOutbox.queue deletedEvent)
      Env.quiet).map (fun st => st.queue.rows) = some [] := by
    decide
  unfold Prog.result? at hqueue
  rw [hrun] at hqueue
  have hempty : st.queue.rows = [] := Option.some.inj hqueue
  have hwanted : areaStore.items.filter (concerned servingRepo ⟨[]⟩ "nf-1") = areaStore.items := by
    decide
  rw [hempty] at hrows
  have hnone : new = [] := (List.append_eq_nil_iff.1 hrows.symm).2
  rw [hwanted, hnone] at hnew
  cases hnew

end sample

end EngineCall

end Nssf
