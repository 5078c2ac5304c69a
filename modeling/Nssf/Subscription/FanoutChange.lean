import Nssf.Subscription.Cascade

/-! What one fan-out does to the queue and to the store. A deletion marks the matches by their
id, so a mark goes astray where two records have one id. -/

namespace Nssf

open Base Run

namespace SubscriptionStore

theorem indexOf_memTombstone (s : SubscriptionStore) (id k : String) :
    (s.memTombstone id).indexOf k = s.indexOf k := by
  simp only [memTombstone]
  cases hi : s.indexOf id with
  | none => rfl
  | some i =>
    have hids : (s.items.modify i fun x => { x with tombstone := true }).map (·.id.text) =
        s.items.map (·.id.text) := by
      apply List.ext_getElem?
      intro j
      simp only [List.getElem?_map, List.getElem?_modify]
      cases s.items[j]? with
      | none => rfl
      | some y => by_cases h : i = j <;> simp [h]
    have hfind (l : List SubscriptionRecord) : l.findIdx? (fun x => x.id.text == k) =
        (l.map (·.id.text)).findIdx? (· == k) := by
      rw [List.findIdx?_map]
      rfl
    simp only [indexOf, hfind, hids]

theorem getElem?_memTombstone (s : SubscriptionStore) (id : String) (j : ℕ) :
    (s.memTombstone id).items[j]? = (s.items[j]?).map fun y =>
      if s.indexOf id = some j then { y with tombstone := true } else y := by
  simp only [memTombstone]
  cases hi : s.indexOf id with
  | none => simp
  | some i =>
    simp only [List.getElem?_modify, Option.some.injEq]
    rfl

/-- The marks of many calls: a record is marked when it is the first of one of the ids. -/
theorem getElem?_foldl_memTombstone (l : List SubscriptionRecord) (s : SubscriptionStore)
    (j : ℕ) : (l.foldl (fun s x => s.memTombstone x.id.text) s).items[j]? =
      (s.items[j]?).map fun y =>
        if ∃ x ∈ l, s.indexOf x.id.text = some j then { y with tombstone := true } else y := by
  induction l generalizing s with
  | nil => simp
  | cons x l ih =>
    rw [List.foldl_cons, ih, getElem?_memTombstone, Option.map_map]
    congr 1
    funext y
    simp only [Function.comp_apply, indexOf_memTombstone, List.mem_cons, exists_eq_or_imp]
    by_cases hx : s.indexOf x.id.text = some j
    · simp [hx]
    · simp [hx]

end SubscriptionStore

namespace Subscription

/-- The store with every match marked, if the event is a deletion. -/
def marked (ev : ChangeEvent) (s : SubscriptionStore) : SubscriptionStore :=
  if ev.changeType = .deleted then
    ⟨s.items.map fun x => if x.isMatch ev then { x with tombstone := true } else x⟩
  else s

/-- No match of the event stands behind a record with its id. -/
def FirstOfId (ev : ChangeEvent) (s : SubscriptionStore) : Prop :=
  ∀ (i : ℕ) (x : SubscriptionRecord), s.items[i]? = some x → x.isMatch ev = true →
    s.indexOf x.id.text = some i

theorem indexOf_spec {s : SubscriptionStore} {k : String} {i : ℕ} (h : s.indexOf k = some i) :
    ∃ x, s.items[i]? = some x ∧ x.id.text = k := by
  obtain ⟨hlt, hid, -⟩ := List.findIdx?_eq_some_iff_getElem.1 h
  exact ⟨s.items[i], List.getElem?_eq_getElem hlt, beq_iff_eq.1 hid⟩

theorem getElem?_swept (ev : ChangeEvent) (s : SubscriptionStore) (hdel : ev.changeType = .deleted)
    (j : ℕ) : (swept ev s s.items).items[j]? = (s.items[j]?).map fun y =>
      if ∃ x ∈ s.items, x.isMatch ev = true ∧ s.indexOf x.id.text = some j then
        { y with tombstone := true }
      else y := by
  simp only [swept, if_pos hdel, SubscriptionStore.getElem?_foldl_memTombstone, List.mem_filter,
    and_assoc]

/-- The marks fall on the matches exactly when each match is the first record of its id. -/
theorem swept_eq_marked_iff (ev : ChangeEvent) (s : SubscriptionStore) :
    swept ev s s.items = marked ev s ↔ (ev.changeType = .deleted → FirstOfId ev s) := by
  by_cases hdel : ev.changeType = .deleted
  · have hmarked (j : ℕ) : (marked ev s).items[j]? = (s.items[j]?).map fun y =>
        if y.isMatch ev then { y with tombstone := true } else y := by
      simp only [marked, if_pos hdel, List.getElem?_map]
    constructor
    · intro heq _ i x hx hmatch
      have hlive : x.tombstone = false := by
        simp only [SubscriptionRecord.isMatch, Bool.and_eq_true, Bool.not_eq_true'] at hmatch
        exact hmatch.1
      have hi := getElem?_swept ev s hdel i
      rw [heq, hmarked, hx, Option.map_some, Option.map_some, if_pos hmatch] at hi
      by_cases hfirst : ∃ y ∈ s.items, y.isMatch ev = true ∧ s.indexOf y.id.text = some i
      · obtain ⟨y, -, -, hy⟩ := hfirst
        obtain ⟨z, hz, hid⟩ := indexOf_spec hy
        rw [hx] at hz
        cases hz
        rw [hid]
        exact hy
      · rw [if_neg hfirst] at hi
        have hdead := congrArg SubscriptionRecord.tombstone (Option.some.inj hi)
        rw [hlive] at hdead
        cases hdead
    · intro hfirst
      have hitems : (swept ev s s.items).items = (marked ev s).items := by
        apply List.ext_getElem?
        intro j
        rw [getElem?_swept ev s hdel, hmarked]
        cases hj : s.items[j]? with
        | none => rfl
        | some y =>
          have hiff : (∃ x ∈ s.items, x.isMatch ev = true ∧ s.indexOf x.id.text = some j) ↔
              y.isMatch ev = true := by
            constructor
            · rintro ⟨x, hx, hmatch, hindex⟩
              obtain ⟨i, hi⟩ := List.mem_iff_getElem?.1 hx
              have hxi := hfirst hdel i x hi hmatch
              rw [hindex] at hxi
              cases hxi
              rw [hj] at hi
              cases hi
              exact hmatch
            · intro hmatch
              exact ⟨y, List.mem_of_getElem? hj, hmatch, hfirst hdel j y hj hmatch⟩
          rw [Option.map_some, Option.map_some]
          by_cases hmatch : y.isMatch ev = true
          · rw [if_pos (hiff.2 hmatch), if_pos hmatch]
          · rw [if_neg fun h => hmatch (hiff.1 h), if_neg hmatch]
      cases hs : swept ev s s.items with
      | mk items =>
        rw [hs] at hitems
        cases hm : marked ev s with
        | mk items' =>
          rw [hm] at hitems
          exact congrArg SubscriptionStore.mk hitems
  · simp [swept, marked, hdel]

/-- With every allocation granted a fan-out writes the rows of the records to be told, in
order, counts them, and marks the matches of a deletion, exactly when it can look into every
live filter and finds every match under its id. -/
theorem fanoutChange_exact_iff (s : SubscriptionStore) (q : RetryStore) (ev : ChangeEvent)
    {e : Env} (he : e.AllocOk) :
    (∃ st new e', fanoutChange s q ev e = .ok (st, e') ∧ st.queue.rows = q.rows ++ new ∧
      List.Forall₂ RowFor new (s.items.filter fun x => x.told ev) ∧ st.enqueued = new.length ∧
      st.store = marked ev s) ↔
    (∀ x ∈ s.items, x.tombstone = false → x.Searchable) ∧
      (ev.changeType = .deleted → FirstOfId ev s) := by
  constructor
  · rintro ⟨st, new, e', hrun, -, -, -, hstore⟩
    have hs := searchable_of_forEachLive 0 ⟨s, q, 0⟩ rfl hrun
    obtain ⟨st', new', e'', hrun', hstore', -⟩ :=
      @forEachLive_told ev s.items hs 0 ⟨s, q, 0⟩ rfl e he
    have hsame : st' = st := by
      have hboth := hrun'.symm.trans hrun
      cases hboth
      rfl
    rw [hsame, hstore] at hstore'
    exact ⟨hs, (swept_eq_marked_iff ev s).1 hstore'.symm⟩
  · rintro ⟨hs, hfirst⟩
    obtain ⟨st, new, e', hrun, hstore, hrows, hcount, hnew⟩ :=
      @forEachLive_told ev s.items hs 0 ⟨s, q, 0⟩ rfl e he
    refine ⟨st, new, e', hrun, hrows, hnew, by rw [hcount, Nat.zero_add], ?_⟩
    rw [hstore]
    exact (swept_eq_marked_iff ev s).2 hfirst

/-- A subscriber that may be told, with the given filter. -/
def filteredBy (id : String) (filter : Json) : SubscriptionRecord :=
  ⟨.cut id, some "https://amf/cb", some filter, none, none, none, false⟩

def twoBroad : SubscriptionStore := ⟨[filteredBy "a" (.object []), filteredBy "b" (.object [])]⟩

def replacedEvent : ChangeEvent := ⟨some "nf-1", none, .replaced, none, none⟩

theorem twoBroad_searchable : ∀ x ∈ twoBroad.items, x.tombstone = false → x.Searchable := by
  intro x hx _ filter hf
  rcases List.mem_cons.1 hx with rfl | hx
  · cases hf
    trivial
  · rw [List.mem_singleton.1 hx] at hf
    cases hf
    trivial

theorem fanoutChange_exact_two : ∃ st new e',
    fanoutChange twoBroad retryStoreNewInmemory replacedEvent .quiet = .ok (st, e') ∧
    st.queue.rows = [] ++ new ∧
    List.Forall₂ RowFor new (twoBroad.items.filter fun x => x.told replacedEvent) ∧
    st.enqueued = new.length ∧ st.store = marked replacedEvent twoBroad :=
  (fanoutChange_exact_iff twoBroad retryStoreNewInmemory replacedEvent Env.allocOk_quiet).2
    ⟨twoBroad_searchable, fun h => by cases h⟩

/-- A live record whose filter is a non-empty array stops the fan-out. -/
theorem fanoutChange_array_stops : ¬ ∃ st e',
    fanoutChange ⟨[filteredBy "a" (.array [.null])]⟩ retryStoreNewInmemory replacedEvent
      .quiet = .ok (st, e') := by
  rintro ⟨st, e', h⟩
  have hfault : Prog.fault? (fanoutChange ⟨[filteredBy "a" (.array [.null])]⟩
      retryStoreNewInmemory replacedEvent) .quiet = some .nullName := by
    decide
  rw [Prog.error_of_fault? hfault] at h
  cases h

end Subscription

end Nssf
