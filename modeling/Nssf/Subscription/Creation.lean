import Nssf.Dispatcher.FailClosed
import Nssf.Subscription.Cascade
import Nssf.Subscription.LiveRecords

/-! The creation of a subscription with its initial notification. The record is stored first;
what the snapshot read, the queue and the dispatcher do after it leaves no trace in the answer.
The store keeps the snapshot key of the filter for the time of the call. -/

namespace Nssf

open Base Run

namespace Subscription

/-- The store together with the snapshot key that it borrows. -/
structure KeyedStore where
  subscriptions : SubscriptionStore
  snapshotPlmnId : Option Json
  snapshotTai : Option Json
  deriving DecidableEq

namespace KeyedStore

/-- A filter without these members leaves the key as it was. -/
def setSnapshotKeyFromFilter (st : KeyedStore) (filter : Json) : Run KeyedStore := do
  let plmnId ← Json.getObjectItem (some filter) "plmnId"
  let tai ← Json.getObjectItem (some filter) "tai"
  return { st with
    snapshotPlmnId := plmnId.or st.snapshotPlmnId
    snapshotTai := tai.or st.snapshotTai }

def create (st : KeyedStore) (repo : AvailabilityRepo) (o : Outbox) (callbackUri : Option String)
    (filter : Option Json) (amfId amfSetId : Option String) (expirySeconds : ℤ) :
    Run (SubResult × String × KeyedStore × Outbox) :=
  match callbackUri, filter with
  | some callbackUri, some filter => do
    let id ← genUuid
    let expiry ← formatExpiry expirySeconds
    match ← st.subscriptions.memInsert id (some callbackUri) (some filter) amfId amfSetId
        (some expiry) with
    | (false, s) => return (.error, "", { st with subscriptions := s }, o)
    | (true, s) =>
      let st ← { st with subscriptions := s }.setSnapshotKeyFromFilter filter
      let o ← SubscriptionStore.dispatchInitialSnapshot repo o st.snapshotPlmnId st.snapshotTai
        id.text callbackUri
      return (.ok, id.text, ⟨st.subscriptions, none, none⟩, o)
  | _, _ => pure (.error, "", st, o)

end KeyedStore

section draws

/-- The id that a create draws from the counter and the clock. -/
def drawnId (e : Env) : RecordId :=
  .cut (uuidText ((e.uuids + 1) % 2 ^ 64) (e.time.head % 2 ^ 64).toNat)

/-- The surroundings after the id and the expiry are drawn. -/
def drawn (e : Env) : Env := { e with uuids := e.uuids + 1, time := e.time.tail.tail }

def newRecord (e : Env) (callbackUri : String) (filter : Json) (amfId amfSetId : Option String)
    (expirySeconds : ℤ) : SubscriptionRecord :=
  ⟨drawnId e, some callbackUri, some filter, amfId, amfSetId,
    some (utcText (e.time.tail.head + expirySeconds)), false⟩

/-- How many allocations the record takes. -/
def recordAllocs (amfId amfSetId : Option String) : ℕ :=
  4 + amfId.toList.length + amfSetId.toList.length

theorem needs_recordFill (id : String) (callbackUri : Option String) (filter : Option Json)
    (amfId amfSetId expiryAt : Option String) :
    Needs (callbackUri.toList.length + (filter.toList.length + (amfId.toList.length +
        (amfSetId.toList.length + (expiryAt.toList.length + 0)))))
      (recordFill id callbackUri filter amfId amfSetId expiryAt)
      (some ⟨.cut id, callbackUri, filter, amfId, amfSetId, expiryAt, false⟩) := by
  refine Needs.bind (needs_copyField callbackUri) ?_
  refine Needs.bind (needs_copyField filter) ?_
  refine Needs.bind (needs_copyField amfId) ?_
  refine Needs.bind (needs_copyField amfSetId) ?_
  refine Needs.bind (needs_copyField expiryAt) ?_
  exact needs_pure _

theorem needs_memInsert (s : SubscriptionStore) (id : RecordId) (callbackUri : String)
    (filter : Json) (amfId amfSetId : Option String) (expiry : String) :
    Needs (recordAllocs amfId amfSetId)
      (s.memInsert id (some callbackUri) (some filter) amfId amfSetId (some expiry))
      (true, ⟨s.items ++ [⟨id, some callbackUri, some filter, amfId, amfSetId, some expiry,
        false⟩]⟩) := by
  have hfill := needs_recordFill id.text (some callbackUri) (some filter) amfId amfSetId
    (some expiry)
  rw [RecordId.cut_text] at hfill
  have hinsert : Needs _ (s.memInsert id (some callbackUri) (some filter) amfId amfSetId
      (some expiry)) _ := Needs.bind needs_alloc (Needs.bind hfill (needs_pure _))
  have hcount : recordAllocs amfId amfSetId = 1 + ((some callbackUri).toList.length +
      ((some filter).toList.length + (amfId.toList.length + (amfSetId.toList.length +
        ((some expiry).toList.length + 0)))) + 0) := by
    simp only [recordAllocs, Option.toList_some, List.length_singleton]
    omega
  rw [hcount]
  exact hinsert

end draws

section posts

def isPost : Effect → Bool
  | .post _ _ _ => true
  | _ => false

/-- At most `n` POSTs were sent. -/
def Posts (n : ℕ) (e e' : Env) : Prop :=
  ∃ new, e'.effects = e.effects ++ new ∧ new.countP isPost ≤ n

theorem posts_of_eq {n : ℕ} {e e' : Env} (h : e'.effects = e.effects) : Posts n e e' :=
  ⟨[], by rw [h, List.append_nil], Nat.zero_le n⟩

theorem Posts.trans {n k : ℕ} {e e₁ e' : Env} (h : Posts n e e₁) (h' : Posts k e₁ e') :
    Posts (n + k) e e' := by
  obtain ⟨new, hnew, hn⟩ := h
  obtain ⟨new', hnew', hk⟩ := h'
  refine ⟨new ++ new', by rw [hnew', hnew, List.append_assoc], ?_⟩
  rw [List.countP_append]
  omega

theorem posts_of_tokens {e e' : Env} (h : Env.Emits tokenEffect e e') : Posts 0 e e' := by
  obtain ⟨new, hnew, hall⟩ := h
  refine ⟨new, hnew, ?_⟩
  have hnone : new.countP isPost = 0 := by
    rw [List.countP_eq_zero]
    intro x hx hpost
    have htoken := hall x hx
    cases x with
    | post uri body headers => exact htoken
    | _ => cases hpost
  omega

theorem posts_deliver {uri body : String} {headers : List String} {e e' : Env} {x : Delivery}
    (h : deliver uri body headers e = .ok (x, e')) : Posts 1 e e' :=
  ⟨_, deliver_effects h, by simp [isPost]⟩

theorem posts_resolve {q q' : RetryStore} {id : ℕ} {op : StoreOp} {e e' : Env}
    (h : q.resolve id op e = .ok (q', e')) : Posts 0 e e' :=
  posts_of_eq ((resolve_emitting q id op).silent e q' e' h)

/-- A claimed row is sent at most once. -/
theorem posts_dispatchItem {d d' : Dispatcher} {q q' : RetryStore} {item : RetryItem}
    {inbound : Option String} {result : DispatchResult} {e e' : Env}
    (h : dispatchItem d q item inbound e = .ok ((result, d', q'), e')) : Posts 1 e e' := by
  simp only [dispatchItem] at h
  cases hadm : d.admits item with
  | false =>
    rw [hadm] at h
    obtain ⟨q₁, e₁, hq, h⟩ := Prog.bind_eq_ok.1 h
    cases h
    exact posts_of_eq ((resolve_emitting _ _ _).silent _ _ _ hq)
  | true =>
    rw [hadm] at h
    obtain ⟨⟨built, d₁⟩, e₁, hprep, h⟩ := Prog.bind_eq_ok.1 h
    have htokens := posts_of_tokens ((prepare_emitting _ _ _).within e _ e₁ hprep)
    cases built with
    | abort =>
      obtain ⟨q₁, e₂, hq, h⟩ := Prog.bind_eq_ok.1 h
      cases h
      exact htokens.trans (posts_of_eq (n := 1) ((resolve_emitting _ _ _).silent _ _ _ hq))
    | failed =>
      obtain ⟨q₁, e₂, hq, h⟩ := Prog.bind_eq_ok.1 h
      cases h
      exact htokens.trans (posts_of_eq (n := 1) ((resolve_emitting _ _ _).silent _ _ _ hq))
    | ok headers =>
      obtain ⟨x, e₂, hdel, h⟩ := Prog.bind_eq_ok.1 h
      generalize afterDelivery item x = decision at h
      obtain ⟨op, r⟩ := decision
      obtain ⟨q₁, e₃, hq, h⟩ := Prog.bind_eq_ok.1 h
      cases h
      exact (htokens.trans (posts_deliver hdel)).trans (posts_resolve hq)

theorem posts_dispatchPending {d d' : Dispatcher} {q q' : RetryStore} {inbound : Option String}
    {result : DispatchResult} {e e' : Env}
    (h : dispatchPending d q inbound e = .ok ((result, d', q'), e')) : Posts 1 e e' := by
  obtain ⟨⟨got, q₁⟩, e₁, hdq, h⟩ := Prog.bind_eq_ok.1 h
  have hread := memDequeue_silent q e _ e₁ hdq
  cases got with
  | none =>
    cases h
    exact posts_of_eq hread
  | error =>
    cases h
    exact posts_of_eq hread
  | claimed item => exact (posts_of_eq (n := 0) hread).trans (posts_dispatchItem h)

end posts

section snapshot

theorem yields_readForSnapshot (repo : AvailabilityRepo) (plmnId tai : Option Json) :
    Yields (SubscriptionStore.readForSnapshot repo plmnId tai) () := by
  cases plmnId with
  | none => exact yields_pure ()
  | some plmnId =>
    cases tai with
    | none => exact yields_pure ()
    | some tai => exact Yields.bind (repo.yields_memFindForPlmnTai _ _) (yields_pure ())

/-- What the initial notification does to the queue: nothing for a callback that no dispatcher
could send to; otherwise one row for the record, and then one dispatch. -/
structure Notified (o o' : Outbox) (x : SubscriptionRecord) (callbackUri : String) (e' : Env) :
    Prop where
  refused : callbackUrlAllowed (some callbackUri) true = false → o' = o
  queued : callbackUrlAllowed (some callbackUri) true = true → ∃ row result e₁,
    RowFor row x ∧ row.id = o.queue.nextId ∧
      dispatchPending o.dispatcher ⟨o.queue.rows ++ [row], o.queue.nextId + 1⟩ none e₁ =
        .ok ((result, o'.dispatcher, o'.queue), e')

theorem dispatchInitialSnapshot_granted {o : Outbox} (ho : o.queue.Enveloped)
    (repo : AvailabilityRepo) (plmnId tai : Option Json) {x : SubscriptionRecord}
    {callbackUri : String} (hx : x.callbackUri = some callbackUri) {e : Env} (he : e.AllocOk) :
    ∃ o' e', SubscriptionStore.dispatchInitialSnapshot repo o plmnId tai x.id.text callbackUri e =
      .ok (o', e') ∧ Posts 1 e e' ∧ Notified o o' x callbackUri e' := by
  obtain ⟨e₁, h₁, hd₁⟩ := yields_readForSnapshot repo plmnId tai e he
  obtain ⟨e₂, h₂, hd₂⟩ := yields_buildSnapshotPayload x.id.text e₁ (hd₁.allocOk he)
  have hd := hd₁.trans hd₂
  cases hgate : callbackUrlAllowed (some callbackUri) true with
  | false =>
    refine ⟨o, e₂, ?_, posts_of_eq hd.effects_eq, fun _ => rfl, fun h => ?_⟩
    swap
    · rw [hgate] at h
      cases h
    simp only [SubscriptionStore.dispatchInitialSnapshot]
    rw [Prog.bind_of_ok h₁, Prog.bind_of_ok h₂]
    simp only [RetryStore.enqueue, hgate]
    rfl
  | true =>
    obtain ⟨body, t, e₃, h₃, he₃, heffects⟩ := enqueue_granted o.queue x.id.text callbackUri
      (Json.printText (.object [("subscriptionId", .string x.id.text)])) (hd.allocOk he) hgate
    have hrows := ho.enqueue h₃
    obtain ⟨⟨result, d', q'⟩, e₄, h₄, -⟩ :=
      (RetryStore.ends_dispatchPending hrows o.dispatcher none).ok e₃
    have hnotified : Notified o ⟨q', d'⟩ x callbackUri e₄ := by
      refine ⟨fun h => ?_, fun _ => ?_⟩
      · rw [hgate] at h
        cases h
      · exact ⟨_, result, e₃, ⟨rfl, rfl, rfl, rfl, callbackUri, body, hx, rfl⟩, rfl, h₄⟩
    refine ⟨⟨q', d'⟩, e₄, ?_, ?_, hnotified⟩
    · simp only [SubscriptionStore.dispatchInitialSnapshot]
      rw [Prog.bind_of_ok h₁, Prog.bind_of_ok h₂]
      change (o.queue.enqueue _ _ _ _ >>= _) e₂ = _
      rw [Prog.bind_of_ok h₃]
      change (dispatchPending _ _ _ >>= _) e₃ = _
      rw [Prog.bind_of_ok h₄]
      rfl
    · have hquiet : e₃.effects = e.effects := heffects.trans hd.effects_eq
      exact (posts_of_eq (n := 0) hquiet).trans (posts_dispatchPending h₄)

end snapshot

section creation

variable {st : KeyedStore} {repo : AvailabilityRepo} {o : Outbox} {callbackUri : String}
  {filter : Json} {amfId amfSetId : Option String} {expirySeconds : ℤ} {e : Env}

/-- The store once the record is in it, and no key is kept. -/
def KeyedStore.stored (st : KeyedStore) (x : SubscriptionRecord) : KeyedStore :=
  ⟨⟨st.subscriptions.items ++ [x]⟩, none, none⟩

/-- What is left of a create when the record is stored. -/
def KeyedStore.announce (st : KeyedStore) (repo : AvailabilityRepo) (o : Outbox)
    (x : SubscriptionRecord) (callbackUri : String) (filter : Json) :
    Run (SubResult × String × KeyedStore × Outbox) := do
  let keyed ← { st with
    subscriptions := ⟨st.subscriptions.items ++ [x]⟩ : KeyedStore }.setSnapshotKeyFromFilter filter
  let o ← SubscriptionStore.dispatchInitialSnapshot repo o keyed.snapshotPlmnId keyed.snapshotTai
    x.id.text callbackUri
  return (.ok, x.id.text, ⟨keyed.subscriptions, none, none⟩, o)

theorem create_eq_announce (st : KeyedStore) (repo : AvailabilityRepo) (o : Outbox)
    (callbackUri : String) (filter : Json) (expirySeconds : ℤ)
    (he : ∀ k < recordAllocs amfId amfSetId, e.alloc.get k = true) :
    st.create repo o (some callbackUri) (some filter) amfId amfSetId expirySeconds e =
      st.announce repo o (newRecord e callbackUri filter amfId amfSetId expirySeconds)
        callbackUri filter
        { drawn e with alloc := e.alloc.drop (recordAllocs amfId amfSetId) } := by
  have hinsert := needs_memInsert st.subscriptions (drawnId e) callbackUri filter amfId amfSetId
    (utcText (e.time.tail.head + expirySeconds)) (drawn e) he
  have hid : genUuid e = .ok (drawnId e, { e with uuids := e.uuids + 1, time := e.time.tail }) :=
    rfl
  have hexpiry : formatExpiry expirySeconds
      { e with uuids := e.uuids + 1, time := e.time.tail } =
        .ok (utcText (e.time.tail.head + expirySeconds), drawn e) := rfl
  simp only [KeyedStore.create]
  rw [Prog.bind_of_ok hid, Prog.bind_of_ok hexpiry, Prog.bind_of_ok hinsert]
  rfl

theorem setSnapshotKeyFromFilter_of_lookable (st : KeyedStore) (h : filter.Lookable) :
    st.setSnapshotKeyFromFilter filter = pure { st with
      snapshotPlmnId := (filter.member? "plmnId").or st.snapshotPlmnId
      snapshotTai := (filter.member? "tai").or st.snapshotTai } := by
  simp only [KeyedStore.setSnapshotKeyFromFilter, Json.getObjectItem_of_lookable h, pure_bind]

/-- Whatever comes of the announcement, the answer and the store are those of the record. -/
theorem announce_answer {x : SubscriptionRecord} {e' : Env}
    {r : SubResult × String × KeyedStore × Outbox}
    (h : st.announce repo o x callbackUri filter e = .ok (r, e')) :
    r.1 = .ok ∧ r.2.1 = x.id.text ∧ r.2.2.1 = st.stored x ∧ filter.Lookable := by
  simp only [KeyedStore.announce] at h
  obtain ⟨keyed, e₁, hkeyed, hrest⟩ := Prog.bind_eq_ok.1 h
  obtain ⟨o', e₂, -, hanswer⟩ := Prog.bind_eq_ok.1 hrest
  obtain ⟨plmnId, e₃, hlook, -⟩ := Prog.bind_eq_ok.1 hkeyed
  have hfilter := Json.getObjectItem_returns_iff.1 ⟨_, hlook⟩
  rw [setSnapshotKeyFromFilter_of_lookable _ hfilter] at hkeyed
  cases hkeyed
  cases hanswer
  exact ⟨rfl, rfl, rfl, hfilter⟩

theorem announce_granted (ho : o.queue.Enveloped) (st : KeyedStore) (repo : AvailabilityRepo)
    (hfilter : filter.Lookable) {x : SubscriptionRecord} (hx : x.callbackUri = some callbackUri)
    (he : e.AllocOk) : ∃ o' e', st.announce repo o x callbackUri filter e =
      .ok ((.ok, x.id.text, st.stored x, o'), e') ∧ Posts 1 e e' ∧
        Notified o o' x callbackUri e' := by
  obtain ⟨o', e', hrun, hposts, hnotified⟩ := dispatchInitialSnapshot_granted ho repo
    ((filter.member? "plmnId").or st.snapshotPlmnId) ((filter.member? "tai").or st.snapshotTai)
    hx he
  refine ⟨o', e', ?_, hposts, hnotified⟩
  simp only [KeyedStore.announce]
  rw [setSnapshotKeyFromFilter_of_lookable _ hfilter, pure_bind]
  rw [Prog.bind_of_ok hrun]
  rfl

/-- A create does all that it should exactly when its filter can be looked into: it stores one
live record, announces it once, clears the borrowed key, and answers the same whatever the
collaborators are and do, an allocation that they miss included. -/
theorem create_announces_iff (ho : o.queue.Enveloped) (he : e.AllocOk) (st : KeyedStore)
    (repo : AvailabilityRepo) (callbackUri : String) (filter : Json)
    (amfId amfSetId : Option String) (expirySeconds : ℤ) :
    (∃ x o' e', x = newRecord e callbackUri filter amfId amfSetId expirySeconds ∧
      st.create repo o (some callbackUri) (some filter) amfId amfSetId expirySeconds e =
        .ok ((.ok, x.id.text, st.stored x, o'), e') ∧
      Posts 1 e e' ∧ Notified o o' x callbackUri e' ∧
      ∀ repo₂ o₂ f r f', f.uuids = e.uuids → f.time = e.time →
        (∀ k < recordAllocs amfId amfSetId, f.alloc.get k = true) →
        st.create repo₂ o₂ (some callbackUri) (some filter) amfId amfSetId expirySeconds f =
          .ok (r, f') → r.1 = .ok ∧ r.2.1 = x.id.text ∧ r.2.2.1 = st.stored x) ↔
      filter.Lookable := by
  have hgranted : ∀ k < recordAllocs amfId amfSetId, e.alloc.get k = true := fun k _ => he k
  constructor
  · rintro ⟨x, o', e', -, hrun, -⟩
    rw [create_eq_announce st repo o callbackUri filter expirySeconds hgranted] at hrun
    exact (announce_answer hrun).2.2.2
  · intro hfilter
    have hrest : ({ drawn e with alloc := e.alloc.drop (recordAllocs amfId amfSetId) } : Env).AllocOk :=
      fun k => by
        rw [Stream'.get_drop]
        exact he _
    obtain ⟨o', e', hrun, hposts, hnotified⟩ := announce_granted ho st repo hfilter
      (x := newRecord e callbackUri filter amfId amfSetId expirySeconds) rfl hrest
    refine ⟨_, o', e', rfl, ?_, hposts, hnotified, ?_⟩
    · rw [create_eq_announce st repo o callbackUri filter expirySeconds hgranted, hrun]
    · intro repo₂ o₂ f r f' huuids htime hf hrun₂
      rw [create_eq_announce st repo₂ o₂ callbackUri filter expirySeconds hf] at hrun₂
      have hsame : newRecord f callbackUri filter amfId amfSetId expirySeconds =
          newRecord e callbackUri filter amfId amfSetId expirySeconds := by
        simp only [newRecord, drawnId, huuids, htime]
      have hanswer := announce_answer hrun₂
      rw [hsame] at hanswer
      exact ⟨hanswer.1, hanswer.2.1, hanswer.2.2.1⟩

/-- Between the calls the store keeps no key, and then a create is the call without keys. -/
theorem create_of_no_keys {s s' : SubscriptionStore} {result : SubResult} {id : String}
    {o' : Outbox} {e' : Env}
    (h : s.create repo o (some callbackUri) (some filter) amfId amfSetId expirySeconds e =
      .ok ((result, id, s', o'), e')) :
    KeyedStore.create ⟨s, none, none⟩ repo o (some callbackUri) (some filter) amfId amfSetId
      expirySeconds e = .ok ((result, id, ⟨s', none, none⟩, o'), e') := by
  simp only [SubscriptionStore.create] at h
  obtain ⟨drawnOne, e₁, hid, hrest⟩ := Prog.bind_eq_ok.1 h
  obtain ⟨expiry, e₂, hexpiry, hrest⟩ := Prog.bind_eq_ok.1 hrest
  obtain ⟨⟨inserted, s₁⟩, e₃, hinsert, hrest⟩ := Prog.bind_eq_ok.1 hrest
  simp only [KeyedStore.create]
  rw [Prog.bind_of_ok hid, Prog.bind_of_ok hexpiry, Prog.bind_of_ok hinsert]
  cases inserted with
  | false =>
    cases hrest
    rfl
  | true =>
    obtain ⟨plmnId, e₄, hplmn, hrest⟩ := Prog.bind_eq_ok.1 hrest
    obtain ⟨tai, e₅, htai, hrest⟩ := Prog.bind_eq_ok.1 hrest
    obtain ⟨o₁, e₆, hsent, hrest⟩ := Prog.bind_eq_ok.1 hrest
    cases hrest
    have hkeys : KeyedStore.setSnapshotKeyFromFilter ⟨s', none, none⟩ filter e₃ =
        .ok (⟨s', plmnId, tai⟩, e₅) := by
      simp only [KeyedStore.setSnapshotKeyFromFilter]
      rw [Prog.bind_of_ok hplmn, Prog.bind_of_ok htai, Option.or_none, Option.or_none]
      rfl
    simp only
    rw [Prog.bind_of_ok hkeys, Prog.bind_of_ok hsent]
    rfl

def emptyStore : KeyedStore := ⟨.newInmemory, none, none⟩

def emptyOutbox : Outbox := ⟨retryStoreNewInmemory, notificationDispatcherNew none⟩

theorem create_announces_object : ∃ x o' e',
    x = newRecord .quiet "https://amf/cb" (.object []) none none 86400 ∧
    emptyStore.create ⟨[]⟩ emptyOutbox (some "https://amf/cb") (some (.object [])) none none 86400
      .quiet = .ok ((.ok, x.id.text, emptyStore.stored x, o'), e') ∧
    Posts 1 .quiet e' ∧ Notified emptyOutbox o' x "https://amf/cb" e' ∧
    ∀ repo₂ o₂ f r f', f.uuids = Env.quiet.uuids → f.time = Env.quiet.time →
      (∀ k < recordAllocs none none, f.alloc.get k = true) →
      emptyStore.create repo₂ o₂ (some "https://amf/cb") (some (.object [])) none none 86400 f =
        .ok (r, f') → r.1 = .ok ∧ r.2.1 = x.id.text ∧ r.2.2.1 = emptyStore.stored x :=
  (create_announces_iff RetryStore.enveloped_newInmemory Env.allocOk_quiet emptyStore ⟨[]⟩
    "https://amf/cb" (.object []) none none 86400).2 trivial

/-- A filter that is a non-empty array stops the program after the record was stored. -/
theorem create_array_filter_stops : ¬ ∃ r e', emptyStore.create ⟨[]⟩ emptyOutbox
    (some "https://amf/cb") (some (.array [.null])) none none 86400 .quiet = .ok (r, e') := by
  rintro ⟨r, e', h⟩
  have hfault : Prog.fault? (emptyStore.create ⟨[]⟩ emptyOutbox (some "https://amf/cb")
      (some (.array [.null])) none none 86400) .quiet = some .nullName := by
    decide
  rw [Prog.error_of_fault? hfault] at h
  cases h

end creation

end Subscription

end Nssf
