import Nssf.Subscription.LiveRecords
import Nssf.Subscription.PgUnsubscribe

/-! What the end of its lifetime does to a subscription: nothing. Neither backend compares the
expiry with a clock, so only a tombstone, or a removal, takes a subscription out of the lookups
and out of the fan-out. -/

namespace Nssf

open Base Run Subscription

namespace SubscriptionStore

def get (s : SubscriptionStore) (id : Option String) :
    Run (SubResult × Option SubscriptionRecord) :=
  match id with
  | none => pure (.error, none)
  | some id => do
    match ← s.memGet id with
    | .absent => return (.notFound, none)
    | .found x => return (.ok, some x)
    | .failed => return (.error, none)

/-- The lookups answer that the id is not found, and no fan-out queues a row for it. -/
structure Dead (s : SubscriptionStore) (id : String) : Prop where
  get : ∀ e, ∃ e', s.get (some id) e = .ok ((.notFound, none), e')
  patch : ∀ contentType doc e, patchContentTypeOk contentType = true →
    ∃ e', s.patch (some id) contentType (some doc) e = .ok ((.notFound, s), e')
  fanout : ∀ ev q e st e', fanoutChange s q ev e = .ok (st, e') →
    ∃ new, st.queue.rows = q.rows ++ new ∧ ∀ r ∈ new, r.subscriptionId ≠ id

variable {s : SubscriptionStore} {id : String}

def Spares (id : String) (q q' : RetryStore) : Prop :=
  ∃ new, q'.rows = q.rows ++ new ∧ ∀ r ∈ new, r.subscriptionId ≠ id

theorem Spares.refl (q : RetryStore) : Spares id q q := ⟨[], by simp, by simp⟩

theorem Spares.trans {q q' q'' : RetryStore} (h : Spares id q q') (h' : Spares id q' q'') :
    Spares id q q'' := by
  obtain ⟨new, hrows, hnew⟩ := h
  obtain ⟨new', hrows', hnew'⟩ := h'
  refine ⟨new ++ new', by rw [hrows', hrows, List.append_assoc], ?_⟩
  intro r hr
  rcases List.mem_append.1 hr with hr | hr
  · exact hnew r hr
  · exact hnew' r hr

/-- A record of another id is queued under that id. -/
theorem spares_fanoutOne {ev : ChangeEvent} {st st' : FanoutState} {x : SubscriptionRecord}
    {e e' : Env} (hlive : st.store.AllLive fun y => y.id.text ≠ id) (hx : x.id.text ≠ id)
    (h : fanoutOne ev st x e = .ok (st', e')) :
    Spares id st.queue st'.queue ∧ st'.store.AllLive fun y => y.id.text ≠ id := by
  have hmatch : (tombstoneMatch ev st x).store.AllLive fun y => y.id.text ≠ id := by
    simp only [tombstoneMatch]
    split_ifs
    · exact hlive.memTombstone _
    · exact hlive
  have hsame : Spares id st.queue (tombstoneMatch ev st x).queue := by
    rw [tombstoneMatch_queue]
    exact .refl _
  simp only [fanoutOne] at h
  obtain ⟨hit, e₁, -, h⟩ := Prog.bind_eq_ok.1 h
  split_ifs at h
  · cases h
    exact ⟨hsame, hmatch⟩
  · have hstore := enqueueFor_store h
    rw [hstore]
    refine ⟨hsame.trans ?_, hmatch⟩
    obtain ⟨o, e₂, -, h⟩ := Prog.bind_eq_ok.1 h
    cases o with
    | none =>
      cases h
      exact .refl _
    | some payload =>
      obtain ⟨⟨ok, queue⟩, e₃, henqueue, h⟩ := Prog.bind_eq_ok.1 h
      cases h
      rcases Unsubscribe.enqueue_rows henqueue with rfl | ⟨row, -, hsub, rfl⟩
      · exact .refl _
      · refine ⟨[row], rfl, ?_⟩
        intro r hr
        rw [List.mem_singleton.1 hr, hsub]
        exact hx
  · cases h
    exact ⟨hsame, hmatch⟩
  · cases h
    exact ⟨.refl _, hlive⟩

theorem spares_forEachLive {ev : ChangeEvent} {n i : ℕ} {st st' : FanoutState} {e e' : Env}
    (hlive : st.store.AllLive fun y => y.id.text ≠ id)
    (h : forEachLive ev i n st e = .ok (st', e')) : Spares id st.queue st'.queue := by
  induction n generalizing i st e with
  | zero =>
    cases h
    exact .refl _
  | succ n ih =>
    rw [forEachLive] at h
    cases hx : st.store.items[i]? with
    | none =>
      rw [hx] at h
      cases h
      exact .refl _
    | some x =>
      rw [hx] at h
      simp only at h
      split_ifs at h with htomb
      · exact ih hlive h
      · obtain ⟨st₁, e₁, hone, hrest⟩ := Prog.bind_eq_ok.1 h
        have hx' := hlive x (List.mem_of_getElem? hx) (by simpa using htomb)
        obtain ⟨hsame, hlive₁⟩ := spares_fanoutOne hlive hx' hone
        exact hsame.trans (ih hlive₁ hrest)

/-- Without a live record the id is dead. -/
theorem dead_of_allLive (h : s.AllLive fun y => y.id.text ≠ id) : s.Dead id := by
  have hnone : s.live? id = none := by
    cases hlive : s.live? id with
    | none => rfl
    | some p =>
      obtain ⟨i, x⟩ := p
      obtain ⟨hi, hx, htomb⟩ := live?_eq_some_iff.1 hlive
      exact absurd (id_of_indexOf hi hx) (h x (List.mem_of_getElem? hx) htomb)
  constructor
  · intro e
    refine ⟨e, ?_⟩
    simp only [get, memGet, hnone, pure_bind]
    rfl
  · intro contentType doc e hct
    refine ⟨e, ?_⟩
    simp only [patch, hct, if_true, memGet, hnone, pure_bind]
    rfl
  · intro ev q e st e' hrun
    have hspare : Spares id (FanoutState.mk s q 0).queue st.queue := spares_forEachLive h hrun
    exact hspare

theorem live?_of_dead (h : s.Dead id) : s.live? id = none := by
  cases hlive : s.live? id with
  | none => rfl
  | some p =>
    obtain ⟨i, x⟩ := p
    obtain ⟨e', hget⟩ := h.get .quiet
    simp only [get] at hget
    obtain ⟨got, e₁, hmem, hget⟩ := Prog.bind_eq_ok.1 hget
    rcases ((gives_memGet (F := fun _ => False) hlive).of_ok hmem).1 with rfl | rfl
    · cases hget
    · cases hget

/-- The ids of the store name one record each. -/
def UniqueIds (s : SubscriptionStore) : Prop := (s.items.map fun x => x.id.text).Nodup

theorem dead_iff_tombstone (hids : s.UniqueIds) {x : SubscriptionRecord} (hx : x ∈ s.items) :
    s.Dead x.id.text ↔ x.tombstone = true := by
  constructor
  · intro h
    by_contra htomb
    cases hindex : s.indexOf x.id.text with
    | none =>
      have hfree := List.findIdx?_eq_none_iff.1 hindex x hx
      simp at hfree
    | some i =>
      obtain ⟨hlt, hkey, -⟩ := List.findIdx?_eq_some_iff_getElem.1 hindex
      have hsame := eq_of_key_eq hids (List.getElem_mem hlt) hx (beq_iff_eq.1 hkey)
      have hi : s.items[i]? = some x := by rw [List.getElem?_eq_getElem hlt, hsame]
      have hlive := live?_eq_some_iff.2 ⟨hindex, hi, by simpa using htomb⟩
      rw [live?_of_dead h] at hlive
      cases hlive
  · intro htomb
    apply dead_of_allLive
    intro y hy hlive hid
    rw [eq_of_key_eq hids hy hx hid, htomb] at hlive
    cases hlive

/-- The lifetime has ended by `now`, as the text of the expiry is read. -/
def Expired (read : String → Option ℤ) (now : ℤ) (x : SubscriptionRecord) : Prop :=
  ∃ text t, x.expiryAt = some text ∧ read text = some t ∧ t < now

end SubscriptionStore

namespace Pg

open SubscriptionStore

/-- `nssf_subscription_store_get`. -/
def pgStoreGet (sql : SqlTypes) (w : ServerTurn) (s : Session SubscriptionTable)
    (id : Option String) :
    Run ((SubResult × Option SubscriptionRecord) × Session SubscriptionTable) :=
  match id with
  | none => pure ((.error, none), s)
  | some id => do
    match ← pgGet sql w s id with
    | (.absent, s) => return ((.notFound, none), s)
    | (.found x, s) => return ((.ok, some x), s)
    | (.failed, s) => return ((.error, none), s)

/-- What the primary key and its type make sure of. -/
structure Keyed (sql : SqlTypes) (rows : SubscriptionTable) : Prop where
  unique : (rows.map PgSubscription.id).Nodup
  canonical : ∀ x ∈ rows, sql.uuid x.id = some x.id

/-- As in memory, where the statements of the call are answered. A row in the queue counts as
committed and as seen by the connection of the queue. -/
structure Dead (sql : SqlTypes) (s : Session SubscriptionTable) (id : String) : Prop where
  get : ∀ w e, w.answers 0 = .done →
    ∃ s' e', pgStoreGet sql w s (some id) e = .ok (((.notFound, none), s'), e')
  patch : ∀ w contentType doc e, w.answers 0 = .done → patchContentTypeOk contentType = true →
    ∃ s' e', pgPatch sql w s (some id) contentType (some doc) e = .ok ((.notFound, s'), e')
  fanout : ∀ w turns q ev e o st e', pgFanoutChange sql w turns s q ev e = .ok ((o, st), e') →
    st.queue.session.All fun rows => ∀ r ∈ rows, r.subscriptionId = id →
      r ∈ q.session.committed ∨ r ∈ q.session.view

section dead

variable {sql : SqlTypes} {s : Session SubscriptionTable} {id : String} {old : PgStore}

/-- The rows of the id in the queue were there before. -/
def Old (old : PgStore) (id : String) (rows : List PgRow) : Prop :=
  ∀ r ∈ rows, r.subscriptionId = id → r ∈ old.session.committed ∨ r ∈ old.session.view

theorem old_pgFanoutOne {w : ServerTurn × ServerTurn} {ev : ChangeEvent} {st st' : PgFanoutState}
    {x : PgSubscription} {e e' : Env} (hx : sql.uuid x.id = some x.id) (hid : x.id ≠ id)
    (hold : st.queue.session.All (Old old id))
    (h : pgFanoutOne sql w ev st x e = .ok (st', e')) : st'.queue.session.All (Old old id) := by
  have hmatch : (pgTombstoneMatch sql w.1 ev st x).queue.session.All (Old old id) := by
    simp only [pgTombstoneMatch]
    split_ifs
    · exact hold
    · exact hold
  simp only [pgFanoutOne] at h
  obtain ⟨filter, e₁, -, h⟩ := Prog.bind_eq_ok.1 h
  obtain ⟨hit, e₂, -, h⟩ := Prog.bind_eq_ok.1 h
  split_ifs at h
  · cases h
    exact hmatch
  · obtain ⟨o, e₃, -, h⟩ := Prog.bind_eq_ok.1 h
    cases o with
    | none =>
      cases h
      exact hmatch
    | some payload =>
      obtain ⟨⟨rc, queue⟩, e₄, henqueue, h⟩ := Prog.bind_eq_ok.1 h
      cases h
      refine all_linkedEnqueue (fun rows row hrows hkey _ r hr hrid => ?_) hmatch henqueue
      rcases List.mem_append.1 hr with hold | hnew
      · exact hrows r hold hrid
      · rw [hx, Option.some.injEq] at hkey
        rw [List.mem_singleton.1 hnew, ← hkey] at hrid
        exact absurd hrid hid
  · cases h
    exact hmatch
  · cases h
    exact hold

theorem old_pgForEachLive {turns : ℕ → ServerTurn × ServerTurn} {ev : ChangeEvent} {n : ℕ}
    {rows : SubscriptionTable} {st st' : PgFanoutState} {e e' : Env}
    (hrows : ∀ x ∈ rows, sql.uuid x.id = some x.id ∧ x.id ≠ id)
    (hold : st.queue.session.All (Old old id))
    (h : pgForEachLive sql turns ev n rows st e = .ok (st', e')) :
    st'.queue.session.All (Old old id) := by
  induction rows generalizing n st e with
  | nil =>
    cases h
    exact hold
  | cons x rows ih =>
    obtain ⟨st₁, e₁, hone, hrest⟩ := Prog.bind_eq_ok.1 h
    obtain ⟨hx, hid⟩ := hrows x List.mem_cons_self
    exact ih (fun y hy => hrows y (List.mem_cons_of_mem _ hy)) (old_pgFanoutOne hx hid hold hone)
      hrest

theorem namedRow_iff (hk : Keyed sql s.view) {x y : PgSubscription} (hx : x ∈ s.view)
    (hy : y ∈ s.view) : namedRow sql x.id y = true ↔ y = x ∧ x.tombstone = false := by
  simp only [namedRow, hk.canonical x hx, Bool.and_eq_true, beq_iff_eq, Option.some.injEq,
    Bool.not_eq_true']
  constructor
  · intro h
    obtain rfl := eq_of_key_eq hk.unique hy hx h.1.symm
    exact ⟨rfl, h.2⟩
  · intro h
    rw [h.1]
    exact ⟨rfl, h.2⟩

theorem find_tombstone (hk : Keyed sql s.view) {x : PgSubscription} (hx : x ∈ s.view)
    (htomb : x.tombstone = true) : s.view.find? (namedRow sql x.id) = none := by
  rw [List.find?_eq_none]
  intro y hy hnamed
  have hlive := ((namedRow_iff hk hx hy).1 hnamed).2
  rw [htomb] at hlive
  cases hlive

theorem find_live (hk : Keyed sql s.view) {x : PgSubscription} (hx : x ∈ s.view)
    (hlive : x.tombstone = false) : s.view.find? (namedRow sql x.id) = some x := by
  cases hfind : s.view.find? (namedRow sql x.id) with
  | none => exact absurd ((namedRow_iff hk hx hx).2 ⟨rfl, hlive⟩) (List.find?_eq_none.1 hfind x hx)
  | some y =>
    have hy := List.mem_of_find?_eq_some hfind
    rw [((namedRow_iff hk hx hy).1 (List.find?_some hfind)).1]

theorem castAck_done {valid : Bool} (hv : valid = true) {a : Ack} (ha : a = .done) :
    castAck valid a = .done := by
  rw [hv, ha]
  rfl

theorem pgGet_tombstone (hk : Keyed sql s.view) {x : PgSubscription} (hx : x ∈ s.view)
    (htomb : x.tombstone = true) {w : ServerTurn} (hw : w.answers 0 = .done) :
    ∃ s', pgGet sql w s x.id = pure (.absent, s') := by
  have hvalid : (sql.uuid x.id).isSome = true := by rw [hk.canonical x hx, Option.isSome_some]
  refine ⟨s.exec (fun rows => rows) .done, ?_⟩
  simp only [pgGet, castAck_done hvalid hw, if_true, find_tombstone hk hx htomb]

theorem pgGet_live (hk : Keyed sql s.view) {x : PgSubscription} (hx : x ∈ s.view)
    (hlive : x.tombstone = false) {w : ServerTurn} (hw : w.answers 0 = .done)
    {s' : Session SubscriptionTable} {e e' : Env} : pgGet sql w s x.id e ≠ .ok ((.absent, s'), e') := by
  have hvalid : (sql.uuid x.id).isSome = true := by rw [hk.canonical x hx, Option.isSome_some]
  intro h
  simp only [pgGet, castAck_done hvalid hw, if_true, find_live hk hx hlive] at h
  obtain ⟨o, e₁, -, h⟩ := Prog.bind_eq_ok.1 h
  cases o with
  | none => cases h
  | some record => cases h

/-- A stored subscription is dead exactly if it is a tombstone. -/
theorem dead_iff_tombstone (hk : Keyed sql s.view) {x : PgSubscription} (hx : x ∈ s.view) :
    Dead sql s x.id ↔ x.tombstone = true := by
  constructor
  · intro h
    by_contra htomb
    obtain ⟨s', e', hget⟩ := h.get ⟨0, 0, fun _ => .done⟩ .quiet rfl
    obtain ⟨⟨got, s₁⟩, e₁, hread, hget⟩ := Prog.bind_eq_ok.1 hget
    cases got with
    | absent => exact pgGet_live hk hx (by simpa using htomb) rfl hread
    | failed => cases hget
    | found record => cases hget
  · intro htomb
    constructor
    · intro w e hw
      obtain ⟨s', hget⟩ := pgGet_tombstone hk hx htomb hw
      refine ⟨s', e, ?_⟩
      simp only [pgStoreGet, hget, pure_bind]
      rfl
    · intro w contentType doc e hw hct
      obtain ⟨s', hget⟩ := pgGet_tombstone hk hx htomb hw
      refine ⟨s', e, ?_⟩
      simp only [pgPatch, hct, if_true, hget, pure_bind]
      rfl
    · intro w turns q ev e o st e' h
      have hold : q.session.All (Old q x.id) :=
        ⟨fun r hr _ => Or.inl hr, fun r hr _ => Or.inr hr⟩
      simp only [pgFanoutChange] at h
      split_ifs at h
      · obtain ⟨st₁, e₁, hscan, h⟩ := Prog.bind_eq_ok.1 h
        cases h
        refine old_pgForEachLive (fun y hy => ?_) hold hscan
        obtain ⟨hmem, hlive⟩ := List.mem_filter.1 hy
        refine ⟨hk.canonical y hmem, ?_⟩
        intro hid
        rw [eq_of_key_eq hk.unique hmem hx hid, htomb] at hlive
        cases hlive
      · cases h
        exact hold

end dead

end Pg

/-- In both backends an expired subscription is dead exactly if it is a tombstone: its expiry
makes no difference. In memory an id without a live record is dead even if ids repeat. -/
theorem expired_dead_iff (s : SubscriptionStore) (read : String → Option ℤ) (sql : Pg.SqlTypes)
    (t : Session Pg.SubscriptionTable) (now : ℤ) :
    (s.UniqueIds →
      ((∀ x ∈ s.items, SubscriptionStore.Expired read now x → s.Dead x.id.text) ↔
        ∀ x ∈ s.items, SubscriptionStore.Expired read now x → x.tombstone = true)) ∧
    (∀ id, (s.AllLive fun x => x.id.text ≠ id) → s.Dead id) ∧
    (Pg.Keyed sql t.view →
      ((∀ x ∈ t.view, (∃ expiry, x.expiryAt = some expiry ∧ expiry < now) → Pg.Dead sql t x.id) ↔
        ∀ x ∈ t.view, (∃ expiry, x.expiryAt = some expiry ∧ expiry < now) → x.tombstone = true)) := by
  refine ⟨fun hids => ?_, fun id h => SubscriptionStore.dead_of_allLive h, fun hk => ?_⟩
  · refine forall₃_congr fun x hx _ => ?_
    exact SubscriptionStore.dead_iff_tombstone hids hx
  · refine forall₃_congr fun x hx _ => ?_
    exact Pg.dead_iff_tombstone hk hx

section sample

open SubscriptionStore

/-- The clock stands at zero for the one text of the samples. -/
def sampleRead (text : String) : Option ℤ :=
  if text = "1970-01-01T00:00:00Z" then some 0 else none

def buriedStore : SubscriptionStore := ⟨[{ sampleRecord with tombstone := true }]⟩

def buriedSession : Session Pg.SubscriptionTable :=
  ⟨[{ Pg.subscribedRow with tombstone := true }], none⟩

theorem expired_dead_tombstone :
    buriedStore.Dead (uuidText 1 0) ∧
      Pg.Dead (Pg.zonedTypes 0 (by decide)) buriedSession Pg.subscribedRow.id := by
  have hkeyed : Pg.Keyed (Pg.zonedTypes 0 (by decide)) buriedSession.view :=
    ⟨by simp [buriedSession, Session.view], fun _ _ => rfl⟩
  obtain ⟨hmem, -, hpg⟩ := expired_dead_iff buriedStore sampleRead (Pg.zonedTypes 0 (by decide))
    buriedSession 1893456000000001
  constructor
  · refine (hmem (by simp [UniqueIds, buriedStore])).2 (fun x hx _ => ?_) _ List.mem_cons_self
      ⟨"1970-01-01T00:00:00Z", 0, rfl, rfl, by decide⟩
    rw [List.mem_singleton.1 hx]
  · refine (hpg hkeyed).2 (fun x hx _ => ?_) { Pg.subscribedRow with tombstone := true }
      List.mem_cons_self ⟨1893456000000000, rfl, by decide⟩
    rw [List.mem_singleton.1 hx]

/-- A record whose lifetime ended a second ago is found as before. -/
theorem expired_not_dead :
    ¬∀ (s : SubscriptionStore) (read : String → Option ℤ) (now : ℤ), ∀ x ∈ s.items,
      SubscriptionStore.Expired read now x → s.Dead x.id.text := by
  intro hall
  have hdead := hall sampleStore sampleRead 1 sampleRecord List.mem_cons_self
    ⟨"1970-01-01T00:00:00Z", 0, rfl, rfl, by decide⟩
  have hlive : (sampleStore.live? sampleRecord.id.text).isSome = true := by decide
  rw [live?_of_dead hdead] at hlive
  cases hlive

end sample

end Nssf
