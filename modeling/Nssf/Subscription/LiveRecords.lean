import Nssf.Dispatcher.Envelopes
import Nssf.Subscription.Cascade

/-! What the calls of the store keep of its live records, next to the envelopes of the queue. A
property of live records is written by a create or a patch only: a record that is removed or
becomes a tombstone is no longer asked for it. -/

namespace Nssf

open Base Run

namespace SubscriptionStore

variable {s : SubscriptionStore} {P : SubscriptionRecord → Prop}

def AllLive (P : SubscriptionRecord → Prop) (s : SubscriptionStore) : Prop :=
  ∀ x ∈ s.items, x.tombstone = false → P x

theorem allLive_newInmemory (P : SubscriptionRecord → Prop) : newInmemory.AllLive P := by
  intro x hx
  cases hx

theorem AllLive.append (h : s.AllLive P) {x : SubscriptionRecord} (hx : P x) :
    AllLive P ⟨s.items ++ [x]⟩ := by
  intro y hy hlive
  rcases List.mem_append.1 hy with hy | hy
  · exact h y hy hlive
  · rw [List.mem_singleton] at hy
    rw [hy]
    exact hx

theorem AllLive.set (h : s.AllLive P) (i : ℕ) {x : SubscriptionRecord} (hx : P x) :
    AllLive P ⟨s.items.set i x⟩ := by
  intro y hy hlive
  rcases List.mem_or_eq_of_mem_set hy with hy | rfl
  · exact h y hy hlive
  · exact hx

theorem AllLive.memTombstone (h : s.AllLive P) (id : String) : (s.memTombstone id).AllLive P := by
  unfold SubscriptionStore.memTombstone
  cases s.indexOf id with
  | none => exact h
  | some i =>
    intro y hy hlive
    obtain ⟨j, hj, rfl⟩ := List.mem_iff_getElem.1 hy
    simp only [List.length_modify] at hj
    simp only [List.getElem_modify] at hlive ⊢
    split_ifs at hlive ⊢ with hij
    exact h _ (List.getElem_mem hj) hlive

theorem AllLive.memRemove (h : s.AllLive P) (id : String) : (s.memRemove id).AllLive P := by
  unfold SubscriptionStore.memRemove
  cases hi : s.indexOf id with
  | none => exact h
  | some i =>
    obtain ⟨hlt, -⟩ := List.findIdx?_eq_some_iff_getElem.1 hi
    intro y hy hlive
    have hmem := (swapRemove_perm hlt).mem_iff.1 hy
    exact h y (List.mem_of_mem_eraseIdx hmem) hlive

theorem allLive_of_live? (h : s.AllLive P) {k : String} {i : ℕ} {x : SubscriptionRecord}
    (hx : s.live? k = some (i, x)) : P x := by
  obtain ⟨-, hget, hlive⟩ := live?_eq_some_iff.1 hx
  exact h x (List.mem_of_getElem? hget) hlive

end SubscriptionStore

namespace Subscription

open SubscriptionStore

section queue

variable {F : Fault → Prop} {o : Outbox}

theorem ends_dispatchOne (h : o.queue.Enveloped) :
    Ends F (fun o' => o'.queue.Enveloped) (dispatchOne o) := by
  have hkept : Ends (fun _ => True) (fun r => r.2.2.Enveloped)
      (dispatchPending o.dispatcher o.queue none) :=
    ends_of_ok fun _ _ _ hr => h.dispatchPending hr
  have hrun := (RetryStore.ends_dispatchPending (F := F) h o.dispatcher none).and hkept
  exact Ends.bind hrun fun r hr => ends_pure hr.2

theorem gives_buildSnapshotPayload (id : String) :
    Gives F (fun _ => True) (buildSnapshotPayload id) := by
  refine Gives.bind (gives_allocated id) fun o ho => ?_
  rcases ho with rfl | rfl
  · exact gives_pure trivial
  refine Gives.bind gives_alloc fun b _ => ?_
  cases b with
  | false => exact gives_pure trivial
  | true =>
    refine Gives.bind (gives_allocated (Json.object [])) fun o ho => ?_
    rcases ho with rfl | rfl
    · exact gives_pure trivial
    refine Gives.bind gives_alloc fun b _ => ?_
    cases b with
    | false => exact gives_pure trivial
    | true => exact (gives_allocated _).mono (fun _ _ => trivial) fun _ h => h

theorem ends_dispatchInitialSnapshot (hF : F .outOfBounds) (h : o.queue.Enveloped)
    (repo : AvailabilityRepo) (plmnId tai : Option Json) (id callbackUri : String) :
    Ends F (fun o' => o'.queue.Enveloped)
      (dispatchInitialSnapshot repo o plmnId tai id callbackUri) := by
  have hread : Ends F (fun _ => True) (readForSnapshot repo plmnId tai) := by
    unfold readForSnapshot
    split
    · refine Ends.bind (P := fun _ => True) ?_ fun _ _ => ends_pure trivial
      refine ((repo.gives_memFindForPlmnTai _ _).mono (fun _ _ => trivial) fun x hx => ?_).ends
      rw [hx]
      exact hF
    · exact ends_pure trivial
  refine Ends.bind hread fun _ _ => ?_
  refine Ends.bind (gives_buildSnapshotPayload id).ends fun payload _ => ?_
  cases payload with
  | none => exact ends_pure h
  | some payload =>
    refine Ends.bind (RetryStore.ends_enqueue h _ _ _ _) fun r hr => ?_
    obtain ⟨ok, queue⟩ := r
    cases ok with
    | false => exact ends_pure hr
    | true => exact ends_dispatchOne hr

end queue

section calls

variable {F : Fault → Prop} {P : SubscriptionRecord → Prop} {s : SubscriptionStore}

theorem gives_memInsert (id : RecordId) (callbackUri : Option String) (filter : Option Json)
    (amfId amfSetId expiryAt : Option String) :
    Gives F (fun r => r = (false, s) ∨ r = (true,
        ⟨s.items ++ [⟨id, callbackUri, filter, amfId, amfSetId, expiryAt, false⟩]⟩))
      (s.memInsert id callbackUri filter amfId amfSetId expiryAt) := by
  refine Gives.bind gives_alloc fun b _ => ?_
  cases b with
  | false => exact gives_pure (Or.inl rfl)
  | true =>
    refine Gives.bind ((makes_recordFill _ _ _ _ _ _).gives F) fun o ho => ?_
    rcases ho with rfl | rfl
    · exact gives_pure (Or.inl rfl)
    · refine gives_pure (Or.inr ?_)
      rw [RecordId.cut_text]

/-- The state that a call of the store hands back. -/
def Sound (P : SubscriptionRecord → Prop) (t : SubscriptionStore × Outbox) : Prop :=
  t.1.AllLive P ∧ t.2.queue.Enveloped

/-- A create looks into the filter it was given, after the record is stored. -/
theorem ends_create (hF : F .outOfBounds) {o : Outbox} (h : Sound P (s, o))
    {callbackUri : String} {filter : Json}
    (hlook : F .nullName ∨ filter.Lookable)
    (hP : ∀ x : SubscriptionRecord, x.callbackUri = some callbackUri → x.filter = some filter →
      P x) (repo : AvailabilityRepo) (amfId amfSetId : Option String) (expirySeconds : ℤ) :
    Ends F (fun r => Sound P r.2.2) (s.create repo o (some callbackUri) (some filter) amfId
      amfSetId expirySeconds) := by
  have hid : Ends F (fun _ => True) genUuid := by
    refine Ends.bind (emitting_nextUuid (P := fun _ => True)).ends fun _ _ => ?_
    exact Ends.bind (emitting_time (P := fun _ => True)).ends fun _ _ => ends_pure trivial
  have hexpiry : Ends F (fun _ => True) (formatExpiry expirySeconds) :=
    Ends.bind (emitting_time (P := fun _ => True)).ends fun _ _ => ends_pure trivial
  refine Ends.bind hid fun id _ => ?_
  refine Ends.bind hexpiry fun expiry _ => ?_
  refine Ends.bind (gives_memInsert _ _ _ _ _ _).ends fun r hr => ?_
  rcases hr with rfl | rfl
  · exact ends_pure h
  · refine Ends.bind (ends_getObjectItem hlook _) fun plmnId _ => ?_
    refine Ends.bind (ends_getObjectItem hlook _) fun tai _ => ?_
    refine Ends.bind (ends_dispatchInitialSnapshot hF h.2 _ _ _ _ _) fun o' ho' => ?_
    exact ends_pure ⟨h.1.append (hP _ rfl rfl), ho'⟩

end calls

section fanout

variable {F : Fault → Prop} {P : SubscriptionRecord → Prop} {ev : ChangeEvent}

def FanoutState.Sound (P : SubscriptionRecord → Prop) (st : FanoutState) : Prop :=
  st.store.AllLive P ∧ st.queue.Enveloped

theorem FanoutState.Sound.tombstoneMatch {st : FanoutState} (h : st.Sound P)
    (x : SubscriptionRecord) : (tombstoneMatch ev st x).Sound P := by
  unfold Subscription.tombstoneMatch
  split_ifs with hdel
  · exact ⟨h.1.memTombstone _, h.2⟩
  · exact h

theorem ends_enqueueFor {st : FanoutState} (h : st.Sound P) (x : SubscriptionRecord) :
    Ends F (FanoutState.Sound P) (enqueueFor st x) := by
  refine Ends.bind (gives_buildSnapshotPayload _).ends fun payload _ => ?_
  cases payload with
  | none => exact ends_pure h
  | some payload =>
    exact Ends.bind (RetryStore.ends_enqueue h.2 _ _ _ _) fun r hr => ends_pure ⟨h.1, hr⟩

variable (hP : ∀ x, P x → F .nullName ∨ x.Searchable)
include hP

theorem ends_fanoutOne {st : FanoutState} (h : st.Sound P) {x : SubscriptionRecord} (hx : P x) :
    Ends F (FanoutState.Sound P) (fanoutOne ev st x) := by
  have hmatch : Ends F (fun _ => True) (filterMatchesEvent x.filter ev) := by
    cases hf : x.filter with
    | none => exact ends_pure trivial
    | some filter =>
      have hlook := (hP x hx).imp_right fun hs => hs filter hf
      refine Ends.bind (ends_getObjectItem hlook "tai") fun o _ => ?_
      cases o with
      | none => exact ends_pure trivial
      | some wanted => exact ends_pure trivial
  refine Ends.bind hmatch fun covered _ => ?_
  split_ifs with hcovered hself hcb
  · exact ends_pure (h.tombstoneMatch x)
  · exact ends_enqueueFor (h.tombstoneMatch x) x
  · exact ends_pure (h.tombstoneMatch x)
  · exact ends_pure h

theorem ends_forEachLive (n i : ℕ) {st : FanoutState} (h : st.Sound P) :
    Ends F (FanoutState.Sound P) (forEachLive ev i n st) := by
  induction n generalizing i st with
  | zero => exact ends_pure h
  | succ n ih =>
    unfold forEachLive
    cases hx : st.store.items[i]? with
    | none => exact ends_pure h
    | some x =>
      cases hlive : x.tombstone with
      | true =>
        simp only [hlive, if_true]
        exact ih (i + 1) h
      | false =>
        simp only [hlive, Bool.false_eq_true, if_false]
        have hx' := h.1 x (List.mem_of_getElem? hx) hlive
        exact Ends.bind (ends_fanoutOne hP h hx') fun st' h' => ih (i + 1) h'

theorem ends_fanoutPublish {t : SubscriptionStore × Outbox} (h : Sound P t) :
    Ends F (Sound P) (fanoutPublish ev t) := by
  refine Ends.bind (ends_forEachLive hP _ 0 h) fun st hst => ?_
  exact Ends.bind (ends_dispatchOne hst.2) fun o ho => ends_pure ⟨hst.1, ho⟩

end fanout

end Subscription

end Nssf
