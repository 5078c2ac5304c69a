import Nssf.Base.Transition
import Nssf.Dispatcher.RowLife

/-! Any number of dispatchers on one queue. The store calls are atomic, everything between
them is local to one dispatcher, and the steps of all dispatchers and producers interleave
freely. Every clock, allocation, transport and token outcome is left open by letting each
step run in an environment of its own. -/

namespace Nssf.Protocol

open Base

structure Event where
  id : ℕ
  kind : Kind
  deriving DecidableEq, Repr

structure System (ι : Type) where
  store : RetryStore
  phase : ι → Phase
  log : List Event

variable {ι : Type} [DecidableEq ι]

def tag (id : ℕ) (ks : List Kind) : List Event := ks.map fun k => ⟨id, k⟩

def Phase.id? (p : Phase) : Option ℕ := p.item?.map RetryItem.id

def claimedPhase : RetryStore.Dequeued → Phase
  | .claimed item => .claimed item
  | .none | .error => .idle

/-- The rows a store call dropped. -/
def vanished (q q' : RetryStore) : List ℕ :=
  (q.rows.map Row.id).filter fun id => (findKey Row.id id q'.rows).isNone

def System.decide (s : System ι) (i : ι) (item : RetryItem) (v : Verdict) : System ι :=
  ⟨s.store, Function.update s.phase i (.resolving item v), tag item.id v.mark ++ s.log⟩

inductive Step (s : System ι) : System ι → Prop
  | enqueue (sub cb payload corr : Option String) (e e' : Env) (ok : Bool) (q' : RetryStore)
      (h : s.store.enqueue sub cb payload corr e = .ok ((ok, q'), e')) :
      Step s ⟨q', s.phase, tag s.store.nextId (if ok then [.enqueued] else []) ++ s.log⟩
  | dequeue (i : ι) (e e' : Env) (got : RetryStore.Dequeued) (q' : RetryStore)
      (hi : s.phase i = .idle) (h : s.store.memDequeue e = .ok ((got, q'), e')) :
      Step s ⟨q', Function.update s.phase i (claimedPhase got),
        (vanished s.store q').flatMap (fun id => tag id [.deleted .quarantined]) ++ s.log⟩
  | gate (i : ι) (item : RetryItem) (d : Dispatcher) (hi : s.phase i = .claimed item) :
      Step s (if d.admits item then
          ⟨s.store, Function.update s.phase i (.admitted item), s.log⟩
        else s.decide i item .rejected)
  | prepare (i : ι) (item : RetryItem) (d d' : Dispatcher) (inbound : Option String)
      (e e' : Env) (built : HeaderBuild) (hi : s.phase i = .admitted item)
      (h : d.prepare item inbound e = .ok ((built, d'), e')) :
      Step s (match built with
        | .ok headers => ⟨s.store, Function.update s.phase i (.ready item headers), s.log⟩
        | .abort => s.decide i item .aborted
        | .failed => s.decide i item .unbuilt)
  | deliver (i : ι) (item : RetryItem) (headers : List String) (x : Delivery)
      (hi : s.phase i = .ready item headers) :
      Step s ⟨s.store, Function.update s.phase i (.resolving item (verdictOf item x)),
        tag item.id ((verdictOf item x).mark ++ [.posted]) ++ s.log⟩
  | resolve (i : ι) (item : RetryItem) (v : Verdict) (e e' : Env) (q' : RetryStore)
      (hi : s.phase i = .resolving item v)
      (h : s.store.resolve item.id v.op e = .ok (q', e')) :
      Step s ⟨q', Function.update s.phase i .idle, tag item.id v.closing ++ s.log⟩

def System.init : System ι := ⟨retryStoreNewInmemory, fun _ => .idle, []⟩

def Reachable (s : System ι) : Prop := Runs Step System.init s

def System.events (s : System ι) (id : ℕ) : List Kind :=
  (s.log.filter fun x => x.id = id).map Event.kind

def System.held (s : System ι) (id : ℕ) : ι → Option Phase := fun i =>
  if (s.phase i).id? = some id then some (s.phase i) else none

def System.view (s : System ι) (id : ℕ) : View ι :=
  ⟨findKey Row.id id s.store.rows, s.held id, s.events id⟩

omit [DecidableEq ι] in
theorem events_tag_append (s : System ι) (q : RetryStore) (ph : ι → Phase) (id m : ℕ)
    (ks : List Kind) :
    System.events ⟨q, ph, tag id ks ++ s.log⟩ m =
      if m = id then ks ++ s.events m else s.events m := by
  unfold System.events tag
  rw [List.filter_append, List.map_append]
  by_cases h : m = id
  · subst h
    simp [List.filter_map, Function.comp_def]
  · have hne : ¬ id = m := fun he => h he.symm
    simp [List.filter_map, Function.comp_def, h, hne]

theorem held_update_self (s : System ι) (q : RetryStore) (L : List Event) (i : ι) (p : Phase)
    (id : ℕ) :
    System.held ⟨q, Function.update s.phase i p, L⟩ id =
      Function.update (s.held id) i (if p.id? = some id then some p else none) := by
  funext j
  by_cases hj : j = i
  · subst hj
    simp [System.held]
  · simp [System.held, Function.update_of_ne hj]

theorem held_update_of_ne {s : System ι} {q : RetryStore} {L : List Event} {i : ι} {p : Phase}
    {m : ℕ} (hs : (s.phase i).id? ≠ some m) (hp : p.id? ≠ some m) :
    System.held ⟨q, Function.update s.phase i p, L⟩ m = s.held m := by
  rw [held_update_self, if_neg hp]
  apply Function.update_eq_self_iff.2
  simp [System.held, hs]

/-- A step of dispatcher `i` about row `id` leaves the view of every other row alone. -/
theorem view_update_of_ne {s : System ι} {q : RetryStore} {i : ι} {p : Phase} {id m : ℕ}
    {ks : List Kind} (hq : findKey Row.id m q.rows = findKey Row.id m s.store.rows)
    (hs : (s.phase i).id? ≠ some m) (hp : p.id? ≠ some m) (hm : m ≠ id) :
    System.view ⟨q, Function.update s.phase i p, tag id ks ++ s.log⟩ m = s.view m := by
  unfold System.view
  rw [held_update_of_ne hs hp, events_tag_append, if_neg hm, hq]

theorem view_update_self {s : System ι} {q : RetryStore} {i : ι} {p : Phase} {id : ℕ}
    {ks : List Kind} :
    System.view ⟨q, Function.update s.phase i p, tag id ks ++ s.log⟩ id =
      ⟨findKey Row.id id q.rows,
        Function.update (s.held id) i (if p.id? = some id then some p else none),
        ks ++ s.events id⟩ := by
  unfold System.view
  rw [held_update_self, events_tag_append, if_pos rfl]

structure Sound (s : System ι) : Prop where
  nodup : (s.store.rows.map Row.id).Nodup
  fresh_rows : ∀ r ∈ s.store.rows, r.id < s.store.nextId
  fresh_log : ∀ x ∈ s.log, x.id < s.store.nextId
  life : ∀ id, Life (s.view id)

theorem Sound.find_held {s : System ι} (h : Sound s) {i : ι} {id : ℕ}
    (hi : (s.phase i).id? = some id) :
    ∃ r, findKey Row.id id s.store.rows = some r ∧ r.claimed = true ∧ r.status = .pending := by
  have hh : (s.view id).held i = some (s.phase i) := by simp [System.view, System.held, hi]
  exact (h.life id).row_of_held hh

theorem Sound.lt_nextId_of_held {s : System ι} (h : Sound s) {i : ι} {id : ℕ}
    (hi : (s.phase i).id? = some id) : id < s.store.nextId := by
  obtain ⟨r, hr, -⟩ := h.find_held hi
  obtain ⟨hm, rfl⟩ := (findKey_eq_some_iff h.nodup).1 hr
  exact h.fresh_rows r hm

theorem Sound.view_nextId {s : System ι} (h : Sound s) :
    s.view s.store.nextId = ⟨none, nobody, []⟩ := by
  have hrow : findKey Row.id s.store.nextId s.store.rows = none := by
    rw [findKey_eq_none_iff]
    intro r hr
    exact (h.fresh_rows r hr).ne
  have hheld : s.held s.store.nextId = nobody := by
    funext i
    unfold System.held
    rw [if_neg]
    · rfl
    · intro hi
      exact (h.lt_nextId_of_held hi).ne rfl
  have hlog : s.events s.store.nextId = [] := by
    unfold System.events
    rw [List.map_eq_nil_iff, List.filter_eq_nil_iff]
    intro x hx
    simpa using (h.fresh_log x hx).ne
  unfold System.view
  rw [hrow, hheld, hlog]

/-- Soundness carries over a step that touches one row and moves it along its life. -/
theorem Sound.of_rowStep {s s' : System ι} (h : Sound s) (id : ℕ)
    (hn : (s'.store.rows.map Row.id).Nodup)
    (hr : ∀ r ∈ s'.store.rows, r.id < s'.store.nextId)
    (hl : ∀ x ∈ s'.log, x.id < s'.store.nextId)
    (hne : ∀ m, m ≠ id → s'.view m = s.view m) (hid : RowStep (s.view id) (s'.view id)) :
    Sound s' := by
  refine ⟨hn, hr, hl, ?_⟩
  intro m
  by_cases hm : m = id
  · subst hm
    exact hid.life (h.life m)
  · rw [hne m hm]
    exact h.life m

theorem tag_lt {id n : ℕ} {ks : List Kind} {L : List Event} (hid : id < n)
    (hL : ∀ x ∈ L, x.id < n) : ∀ x ∈ tag id ks ++ L, x.id < n := by
  intro x hx
  rcases List.mem_append.1 hx with hx | hx
  · obtain ⟨k, -, rfl⟩ := List.mem_map.1 hx
    exact hid
  · exact hL x hx

theorem enqueue_sound {s : System ι} (h : Sound s) {sub cb payload corr : Option String}
    {e e' : Env} {ok : Bool} {q' : RetryStore}
    (hq : s.store.enqueue sub cb payload corr e = .ok ((ok, q'), e')) :
    Sound ⟨q', s.phase, tag s.store.nextId (if ok then [.enqueued] else []) ++ s.log⟩ := by
  rcases RetryStore.enqueue_cases hq with ⟨rfl, rfl⟩ | ⟨rfl, sub, envelope, now, -, -, rfl⟩
  · exact h
  · have hfresh : ∀ r ∈ s.store.rows, r.id ≠ s.store.nextId :=
      fun r hr => (h.fresh_rows r hr).ne
    refine h.of_rowStep s.store.nextId ?_ ?_ ?_ ?_ ?_
    · rw [List.map_append, List.nodup_append]
      refine ⟨h.nodup, by simp, ?_⟩
      intro a ha b hb
      obtain ⟨r, hr, rfl⟩ := List.mem_map.1 ha
      simp only [List.map_cons, List.map_nil, List.mem_singleton] at hb
      exact hb ▸ hfresh r hr
    · intro r hr
      rcases List.mem_append.1 hr with hr | hr
      · exact (h.fresh_rows r hr).trans (Nat.lt_succ_self _)
      · rw [List.mem_singleton] at hr
        rw [hr]
        exact Nat.lt_succ_self _
    · exact tag_lt (Nat.lt_succ_self _) fun x hx =>
        (h.fresh_log x hx).trans (Nat.lt_succ_self _)
    · intro m hm
      unfold System.view
      rw [events_tag_append, if_neg hm, findKey_append_singleton hfresh, if_neg hm]
      rfl
    · have hv : System.view ⟨⟨s.store.rows ++
          [⟨s.store.nextId, sub, envelope, 0, false, .pending, now⟩], s.store.nextId + 1⟩,
          s.phase, tag s.store.nextId [.enqueued] ++ s.log⟩ s.store.nextId =
          ⟨some ⟨s.store.nextId, sub, envelope, 0, false, .pending, now⟩,
            (s.view s.store.nextId).held, .enqueued :: (s.view s.store.nextId).events⟩ := by
        unfold System.view
        rw [events_tag_append, if_pos rfl, findKey_append_singleton hfresh, if_pos rfl]
        rfl
      rw [if_pos rfl, hv, h.view_nextId]
      exact RowStep.enqueue _ ⟨rfl, rfl, rfl⟩

/-- A step of dispatcher `i` that leaves the store alone and keeps its item. -/
theorem local_sound {s : System ι} (h : Sound s) {i : ι} {item : RetryItem} {p p' : Phase}
    (ks : List Kind) (hi : s.phase i = p) (hp : p.item? = some item)
    (hp' : p'.item? = some item)
    (hstep : ∀ row held L, held i = some p →
      RowStep (ι := ι) ⟨row, held, L⟩ ⟨row, Function.update held i (some p'), ks ++ L⟩) :
    Sound ⟨s.store, Function.update s.phase i p', tag item.id ks ++ s.log⟩ := by
  have hid : (s.phase i).id? = some item.id := by simp [hi, Phase.id?, hp]
  have hid' : p'.id? = some item.id := by simp [Phase.id?, hp']
  refine h.of_rowStep item.id h.nodup h.fresh_rows ?_ ?_ ?_
  · exact tag_lt (h.lt_nextId_of_held hid) h.fresh_log
  · intro m hm
    have hne : some item.id ≠ some m := fun he => hm (Option.some.inj he).symm
    exact view_update_of_ne rfl (hid ▸ hne) (hid' ▸ hne) hm
  · rw [view_update_self, if_pos hid']
    apply hstep
    unfold System.held
    rw [if_pos hid, hi]

theorem findKey_isSome {q : RetryStore} {id : ℕ} (h : id ∈ q.rows.map Row.id) :
    (findKey Row.id id q.rows).isSome = true := by
  obtain ⟨r, hr, rfl⟩ := List.mem_map.1 h
  rw [Option.isSome_iff_ne_none, ne_eq, findKey_eq_none_iff]
  intro hn
  exact hn r hr rfl

theorem vanished_eq_nil {q q' : RetryStore}
    (h : ∀ id ∈ q.rows.map Row.id, (findKey Row.id id q'.rows).isSome = true) :
    vanished q q' = [] := by
  unfold vanished
  rw [List.filter_eq_nil_iff]
  intro id hid
  have hs := h id hid
  cases hf : findKey Row.id id q'.rows with
  | none =>
    rw [hf] at hs
    cases hs
  | some r => simp

theorem vanished_of_touches {q q' : RetryStore} {id : ℕ} {r : Row}
    (h : RetryStore.Touches q q' id (some r)) : vanished q q' = [] := by
  apply vanished_eq_nil
  intro m hm
  by_cases hid : m = id
  · rw [hid, h.self]
    rfl
  · rw [h.other m hid]
    exact findKey_isSome hm

theorem vanished_removeId {q : RetryStore} (hn : (q.rows.map Row.id).Nodup) {r : Row}
    (hr : r ∈ q.rows) : vanished q (q.removeId r.id) = [r.id] := by
  have hfilter : vanished q (q.removeId r.id) =
      (q.rows.map Row.id).filter fun id => id = r.id := by
    apply List.filter_congr
    intro id hid
    unfold RetryStore.removeId
    rw [findKey_removeKey]
    by_cases hm : id = r.id
    · simp [hm]
    · obtain ⟨b, hb⟩ := Option.isSome_iff_exists.1 (findKey_isSome hid)
      simp [hm, hb]
  rw [hfilter, List.filter_eq, List.count_eq_one_of_mem hn (List.mem_map_of_mem hr)]
  rfl

/-- A store call of dispatcher `i` on the one row that it holds before or after the call. -/
theorem Sound.of_touches {s : System ι} (h : Sound s) {q' : RetryStore} {i : ι} {p : Phase}
    {id : ℕ} {row' : Option Row} (ks : List Kind)
    (ht : RetryStore.Touches s.store q' id row') (hid : id < s.store.nextId)
    (hs : ∀ m, m ≠ id → (s.phase i).id? ≠ some m) (hp : ∀ m, m ≠ id → p.id? ≠ some m)
    (hstep : RowStep (s.view id) ⟨row',
      Function.update (s.held id) i (if p.id? = some id then some p else none),
      ks ++ s.events id⟩) :
    Sound ⟨q', Function.update s.phase i p, tag id ks ++ s.log⟩ := by
  refine h.of_rowStep id ht.nodup ?_ ?_ ?_ ?_
  · intro b hb
    obtain ⟨c, hc, hcb⟩ := ht.ids b hb
    rw [← hcb, ht.nextId]
    exact h.fresh_rows c hc
  · rw [ht.nextId]
    exact tag_lt hid h.fresh_log
  · intro m hm
    exact view_update_of_ne (ht.other m hm) (hs m hm) (hp m hm) hm
  · rw [view_update_self, ht.self]
    exact hstep

theorem idle_id : Phase.idle.id? = none := rfl

theorem quarantine_sound {s : System ι} (h : Sound s) {i : ι} (hi : s.phase i = .idle) {r : Row}
    (hmem : r ∈ s.store.rows) (hr : r.claimed = false ∧ r.status = .pending) :
    Sound ⟨s.store.removeId r.id, Function.update s.phase i .idle,
      tag r.id [.deleted .quarantined] ++ s.log⟩ := by
  have hfind := (findKey_eq_some_iff h.nodup).2 ⟨hmem, rfl⟩
  have hidle : (s.phase i).id? = none := by rw [hi, idle_id]
  refine h.of_touches _ (RetryStore.touches_removeId h.nodup r.id) (h.fresh_rows r hmem)
    (by simp [hidle]) (by simp [idle_id]) ?_
  have hheld : Function.update (s.held r.id) i
      (if Phase.idle.id? = some r.id then some Phase.idle else none) = s.held r.id := by
    apply Function.update_eq_self_iff.2
    simp [System.held, hidle, idle_id]
  rw [hheld]
  unfold System.view
  rw [hfind]
  exact RowStep.quarantine r _ _ hr

theorem claim_sound {s : System ι} (h : Sound s) {i : ι} (hi : s.phase i = .idle) {r : Row}
    {item : RetryItem} (hmem : r ∈ s.store.rows) (hr : r.claimed = false ∧ r.status = .pending)
    (hid : item.id = r.id) (hcount : item.attemptCount = r.attemptCount) :
    Sound ⟨s.store.updateId r.id fun r => { r with claimed := true },
      Function.update s.phase i (.claimed item), s.log⟩ := by
  have hfind := (findKey_eq_some_iff h.nodup).2 ⟨hmem, rfl⟩
  have hidle : (s.phase i).id? = none := by rw [hi, idle_id]
  have hp : (Phase.claimed item).id? = some r.id := congrArg some hid
  refine h.of_touches [] (RetryStore.touches_updateId h.nodup (fun _ => rfl) hfind)
    (h.fresh_rows r hmem) (by simp [hidle]) ?_ ?_
  · intro m hm
    rw [hp]
    exact fun he => hm (Option.some.inj he).symm
  · rw [if_pos hp]
    unfold System.view
    rw [hfind]
    exact RowStep.claim r _ _ i item hr hcount

theorem dequeue_sound {s : System ι} (h : Sound s) {i : ι} {e e' : Env}
    {got : RetryStore.Dequeued} {q' : RetryStore} (hi : s.phase i = .idle)
    (hq : s.store.memDequeue e = .ok ((got, q'), e')) :
    Sound ⟨q', Function.update s.phase i (claimedPhase got),
      (vanished s.store q').flatMap (fun id => tag id [.deleted .quarantined]) ++ s.log⟩ := by
  have hsame : Function.update s.phase i .idle = s.phase := by
    rw [← hi]
    exact Function.update_eq_self i s.phase
  have hself : vanished s.store s.store = [] := vanished_eq_nil fun id hid => findKey_isSome hid
  rcases RetryStore.memDequeue_cases hq with
    ⟨rfl, rfl⟩ | ⟨rfl, rfl⟩ | ⟨now, r, k, hrow, hdue, hcase⟩
  · rw [hself]
    simp only [claimedPhase, hsame]
    exact h
  · rw [hself]
    simp only [claimedPhase, hsame]
    exact h
  · have hmem := List.mem_of_getElem? hrow
    obtain ⟨hclaimed, hpending, -⟩ := RetryStore.due_spec hdue
    rcases hcase with ⟨rfl, rfl⟩ | ⟨item, rfl, hid, hcount, rfl⟩
    · rw [RetryStore.removeAt_eq_removeId h.nodup hrow, vanished_removeId h.nodup hmem]
      simp only [List.flatMap_cons, List.flatMap_nil, List.append_nil, claimedPhase]
      exact quarantine_sound h hi hmem ⟨hclaimed, hpending⟩
    · have ht := RetryStore.touches_updateId h.nodup
        (f := fun r => { r with claimed := true }) (fun _ => rfl)
        ((findKey_eq_some_iff h.nodup).2 ⟨hmem, rfl⟩)
      rw [RetryStore.updateAt_eq_updateId h.nodup hrow, vanished_of_touches ht]
      exact claim_sound h hi hmem ⟨hclaimed, hpending⟩ hid hcount

theorem resolve_touches {q q' : RetryStore} (hn : (q.rows.map Row.id).Nodup) {id : ℕ} {r : Row}
    (hr : findKey Row.id id q.rows = some r) {op : StoreOp} {e e' : Env}
    (hq : q.resolve id op e = .ok (q', e')) :
    ∃ row', RetryStore.Touches q q' id row' ∧ Resolved r row' op := by
  cases op with
  | complete =>
    cases hq
    rw [RetryStore.memComplete_eq hn]
    exact ⟨none, RetryStore.touches_removeId hn id, rfl⟩
  | requeue =>
    obtain ⟨dueAt, rfl⟩ := RetryStore.memRequeue_eq hn hq
    exact ⟨_, RetryStore.touches_updateId hn (fun _ => rfl) hr, dueAt r, rfl⟩
  | deadLetter =>
    cases hq
    rw [RetryStore.memDeadLetter_eq hn]
    exact ⟨_, RetryStore.touches_updateId hn (fun _ => rfl) hr, rfl⟩

theorem resolve_sound {s : System ι} (h : Sound s) {i : ι} {item : RetryItem} {v : Verdict}
    {e e' : Env} {q' : RetryStore} (hi : s.phase i = .resolving item v)
    (hq : s.store.resolve item.id v.op e = .ok (q', e')) :
    Sound ⟨q', Function.update s.phase i .idle, tag item.id v.closing ++ s.log⟩ := by
  have hid : (s.phase i).id? = some item.id := by simp [hi, Phase.id?, Phase.item?]
  have hheld : s.held item.id i = some (.resolving item v) := by
    unfold System.held
    rw [if_pos hid, hi]
  obtain ⟨r, hfind, -⟩ := h.find_held hid
  obtain ⟨row', ht, hrow⟩ := resolve_touches h.nodup hfind hq
  refine h.of_touches _ ht (h.lt_nextId_of_held hid) ?_ (by simp [idle_id]) ?_
  · intro m hm
    rw [hid]
    exact fun he => hm (Option.some.inj he).symm
  · rw [idle_id, if_neg (by simp)]
    unfold System.view
    rw [hfind]
    exact RowStep.resolve r _ _ i item v row' hheld hrow

theorem step_sound {s s' : System ι} (h : Sound s) (hs : Step s s') : Sound s' := by
  cases hs with
  | enqueue sub cb payload corr e e' ok q' hq => exact enqueue_sound h hq
  | dequeue i e e' got q' hi hq => exact dequeue_sound h hi hq
  | gate i item d hi =>
    split_ifs
    · exact local_sound h [] hi rfl rfl fun _ _ _ hh => .pass _ _ _ i item hh
    · exact local_sound h _ hi rfl rfl fun _ _ _ hh => .reject _ _ _ i item hh
  | prepare i item d d' inbound e e' built hi hb =>
    cases built with
    | ok headers =>
      exact local_sound h [] hi rfl rfl fun _ _ _ hh => .build _ _ _ i item headers hh
    | abort => exact local_sound h _ hi rfl rfl fun _ _ _ hh => .abort _ _ _ i item hh
    | failed => exact local_sound h _ hi rfl rfl fun _ _ _ hh => .unbuilt _ _ _ i item hh
  | deliver i item headers x hi =>
    refine local_sound h _ hi rfl rfl fun row held L hh => ?_
    rw [List.append_assoc]
    exact .deliver row held L i item headers x hh
  | resolve i item v e e' q' hi hq => exact resolve_sound h hi hq

/-- The last step of a call: the verdict has fallen, the store call is due. -/
theorem resolve_runs {s : System ι} {i : ι} (ph : ι → Phase) {item : RetryItem} {v : Verdict}
    {e e' : Env} {q' : RetryStore} (hs : s.phase = Function.update ph i (.resolving item v))
    (hq : s.store.resolve item.id v.op e = .ok (q', e')) :
    ∃ s', Runs Step s s' ∧ s'.store = q' ∧ s'.phase = Function.update ph i .idle := by
  have hi : s.phase i = .resolving item v := by rw [hs, Function.update_self]
  refine ⟨_, Relation.ReflTransGen.single (Step.resolve i item v e e' q' hi hq), rfl, ?_⟩
  change Function.update s.phase i .idle = _
  rw [hs, Function.update_idem]

theorem dispatchItem_runs {s : System ι} {i : ι} {item : RetryItem}
    (hi : s.phase i = .claimed item) {d d' : Dispatcher} {inbound : Option String}
    {result : DispatchResult} {q' : RetryStore} {e e' : Env}
    (h : dispatchItem d s.store item inbound e = .ok ((result, d', q'), e')) :
    ∃ s', Runs Step s s' ∧ s'.store = q' ∧
      s'.phase = Function.update s.phase i .idle := by
  have hgate := Step.gate i item d hi
  unfold dispatchItem at h
  by_cases ha : d.admits item = true
  · rw [if_pos ha] at h hgate
    obtain ⟨⟨built, d₁⟩, e₁, hb, h⟩ := Prog.bind_eq_ok.1 h
    have hprep := Step.prepare (s := ⟨s.store, Function.update s.phase i (.admitted item), s.log⟩)
      i item d d₁ inbound e e₁ built (Function.update_self ..) hb
    have htwo := (Relation.ReflTransGen.single hgate).tail hprep
    cases built with
    | abort =>
      obtain ⟨q₁, e₂, hq, h⟩ := Prog.bind_eq_ok.1 h
      cases h
      obtain ⟨s', hr, hst, hph⟩ := resolve_runs (v := .aborted) s.phase
        (s := System.decide ⟨s.store, Function.update s.phase i (.admitted item), s.log⟩
          i item .aborted) (Function.update_idem ..) hq
      exact ⟨s', htwo.trans hr, hst, hph⟩
    | failed =>
      obtain ⟨q₁, e₂, hq, h⟩ := Prog.bind_eq_ok.1 h
      cases h
      obtain ⟨s', hr, hst, hph⟩ := resolve_runs (v := .unbuilt) s.phase
        (s := System.decide ⟨s.store, Function.update s.phase i (.admitted item), s.log⟩
          i item .unbuilt) (Function.update_idem ..) hq
      exact ⟨s', htwo.trans hr, hst, hph⟩
    | ok headers =>
      obtain ⟨x, e₂, -, h⟩ := Prog.bind_eq_ok.1 h
      have hop := afterDelivery_op item x
      generalize afterDelivery item x = decision at h hop
      obtain ⟨op, r⟩ := decision
      obtain rfl : op = (verdictOf item x).op := hop
      obtain ⟨q₁, e₃, hq, h⟩ := Prog.bind_eq_ok.1 h
      cases h
      have hready : Function.update (Function.update s.phase i (.admitted item)) i
          (.ready item headers) i = .ready item headers := Function.update_self ..
      have hpost := htwo.tail (Step.deliver i item headers x hready)
      have hphase : Function.update (Function.update (Function.update s.phase i
          (.admitted item)) i (.ready item headers)) i (.resolving item (verdictOf item x)) =
          Function.update s.phase i (.resolving item (verdictOf item x)) := by
        rw [Function.update_idem, Function.update_idem]
      obtain ⟨s', hr, hst, hph⟩ := resolve_runs (s := ⟨s.store, _,
        tag item.id ((verdictOf item x).mark ++ [.posted]) ++ s.log⟩) s.phase hphase hq
      exact ⟨s', hpost.trans hr, hst, hph⟩
  · rw [if_neg ha] at h hgate
    obtain ⟨q₁, e₁, hq, h⟩ := Prog.bind_eq_ok.1 h
    cases h
    obtain ⟨s', hr, hst, hph⟩ := resolve_runs (v := .rejected) s.phase
      (s := s.decide i item .rejected) rfl hq
    exact ⟨s', (Relation.ReflTransGen.single hgate).trans hr, hst, hph⟩

/-- A call of `dispatch_pending` that nothing interrupts is a run of one dispatcher. -/
theorem dispatchPending_runs {s : System ι} {i : ι} (hi : s.phase i = .idle) {d d' : Dispatcher}
    {inbound : Option String} {result : DispatchResult} {q' : RetryStore} {e e' : Env}
    (h : dispatchPending d s.store inbound e = .ok ((result, d', q'), e')) :
    ∃ s', Runs Step s s' ∧ s'.store = q' ∧ s'.phase = s.phase := by
  have hsame : Function.update s.phase i .idle = s.phase := by
    rw [← hi]
    exact Function.update_eq_self i s.phase
  unfold dispatchPending at h
  obtain ⟨⟨got, q₁⟩, e₁, hdq, h⟩ := Prog.bind_eq_ok.1 h
  have hstep := Relation.ReflTransGen.single (Step.dequeue i e e₁ got q₁ hi hdq)
  cases got with
  | none =>
    cases h
    exact ⟨_, hstep, rfl, hsame⟩
  | error =>
    cases h
    exact ⟨_, hstep, rfl, hsame⟩
  | claimed item =>
    obtain ⟨s', hr, hst, hph⟩ := dispatchItem_runs (s := ⟨q₁,
      Function.update s.phase i (.claimed item), _⟩) (Function.update_self ..) h
    refine ⟨s', hstep.trans hr, hst, ?_⟩
    rw [hph, Function.update_idem, hsame]

end Nssf.Protocol
