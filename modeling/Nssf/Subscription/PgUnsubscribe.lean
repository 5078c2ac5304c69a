import Nssf.Subscription.PgFanout
import Nssf.Subscription.Unsubscribe

/-! Unsubscribing in PostgreSQL, where a queued row refers to a stored subscription by the
foreign key of the schema. The two stores have a connection each, and any command may fail. -/

namespace Nssf.Unsubscribe

open Base Run Protocol Pg

structure PgSystem (ι : Type) where
  subs : Session SubscriptionTable
  queue : PgStore
  desk : Desk ι
  gone : List String

/-- The rows are those of subscriptions in `A`. -/
def Addressed (A : String → Prop) (rows : List PgRow) : Prop := ∀ r ∈ rows, A r.subscriptionId

section steps

variable {ι : Type} [DecidableEq ι]

/-- `ON DELETE CASCADE`. A delete waits for the locks of an open claim before it gets so far;
here it goes ahead, which only adds runs. -/
def PgSystem.cascade (s : PgSystem ι) (subs : Session SubscriptionTable) : PgSystem ι :=
  { s with
    subs := subs
    queue := { s.queue with
      session := s.queue.session.both
        (List.filter fun r => stores subs.committed r.subscriptionId) } }

inductive PgStep (sql : SqlTypes) (s : PgSystem ι) : Call → PgSystem ι → Prop
  | insert (w : ServerTurn) (id : RecordId) (callbackUri : String) (filter : Json)
      (amfId amfSetId expiryAt : Option String) (e e' : Env) (ok : Bool)
      (subs : Session SubscriptionTable)
      (h : pgInsert sql w s.subs id callbackUri filter amfId amfSetId expiryAt e =
        .ok ((ok, subs), e')) :
      PgStep sql s (.insert ((sql.uuid id.text).getD id.text)) (s.cascade subs)
  | get (w : ServerTurn) (id : String) (e e' : Env) (got : SubscriptionStore.Got)
      (subs : Session SubscriptionTable) (h : pgGet sql w s.subs id e = .ok ((got, subs), e')) :
      PgStep sql s .other (s.cascade subs)
  | replace (w : ServerTurn) (id : String) (fields : Subscription.PatchedFields) (e e' : Env)
      (code : RepoCode) (subs : Session SubscriptionTable)
      (h : pgReplace sql w s.subs id fields e = .ok ((code, subs), e')) :
      PgStep sql s .other (s.cascade subs)
  | tombstone (w : ServerTurn) (id : String) :
      PgStep sql s .other (s.cascade (pgTombstone sql w s.subs id).2)
  | delete (w : ServerTurn) (id : String) (subs : Session SubscriptionTable)
      (h : pgRemove sql w s.subs id = (true, subs)) :
      PgStep sql s (.delete id)
        { s.cascade subs with gone := (sql.uuid id).toList ++ s.gone }
  | deleteFailed (w : ServerTurn) (id : String) (subs : Session SubscriptionTable)
      (h : pgRemove sql w s.subs id = (false, subs)) :
      PgStep sql s .other (s.cascade subs)
  | enqueue (w : ServerTurn) (sub : String) (callbackUri payload correlationId : Option String)
      (e e' : Env) (rc : ℤ) (queue : PgStore)
      (h : linkedEnqueue sql w s.subs.committed s.queue sub callbackUri payload correlationId e =
        .ok ((rc, queue), e')) :
      PgStep sql s (.enqueue sub) { s with queue := queue }
  | dequeue (w : ServerTurn) (i : ι) (e e' : Env) (got : RetryStore.Dequeued) (queue : PgStore)
      (hi : s.desk.phase i = .idle) (h : pgDequeue w s.queue e = .ok ((got, queue), e')) :
      PgStep sql s .other { s with queue := queue, desk := s.desk.put i (claimedPhase got) }
  | work (desk : Desk ι) (h : s.desk.Step desk) : PgStep sql s .other { s with desk := desk }
  | resolve (w : ServerTurn) (i : ι) (item : RetryItem) (v : Verdict)
      (hi : s.desk.phase i = .resolving item v) :
      PgStep sql s (resolving item v)
        { s with
          queue := (Pg.resolve w s.queue item.id v.op).2
          desk := s.desk.put i .idle }

/-- No subscription is created under an id that was deleted before. -/
def PgSystem.Meets (s : PgSystem ι) : Call → Prop
  | .insert id => id ∉ s.gone
  | _ => True

def PgSystem.Next (sql : SqlTypes) (s s' : PgSystem ι) : Prop :=
  ∃ c, PgStep sql s c s' ∧ s.Meets c

/-- Every row that is stored, or seen by the connection of the queue, refers to a subscription. -/
def PgSystem.Linked (s : PgSystem ι) : Prop :=
  s.queue.session.All (Addressed fun k => stores s.subs.committed k = true)

/-- The stores as they are opened on a database that meets its constraint. -/
structure PgSystem.Opened (s : PgSystem ι) : Prop where
  subs : s.subs.tx = none
  queue : s.queue.session.tx = none
  linked : Addressed (fun k => stores s.subs.committed k = true) s.queue.session.committed
  desk : s.desk = .init
  gone : s.gone = []

def PgSystem.backlog (s : PgSystem ι) : Backlog ι String where
  waiting := {k | stores s.subs.committed k = true ∨ stores s.subs.view k = true}
  held := s.desk.held
  gone := {k | k ∈ s.gone}
  finished := s.desk.posted

end steps

section rows

variable {A : String → Prop} {q q' : PgStore} {w : ServerTurn} {e e' : Env}

theorem mem_of_pgSelect {now : ℤ} {rows : List PgRow} {r : PgRow}
    (h : pgSelect now rows = some r) : r ∈ rows := by
  have hfold (l : List PgRow) (pick : Option PgRow) (hpick : ∀ p, pick = some p → p ∈ rows)
      (hl : ∀ p ∈ l, p ∈ rows) : ∀ p, l.foldl (pgPickStep now) pick = some p → p ∈ rows := by
    induction l generalizing pick with
    | nil => exact hpick
    | cons b l ih =>
      refine ih _ ?_ fun p hp => hl p (List.mem_cons_of_mem _ hp)
      intro p hp
      have hb := hl b List.mem_cons_self
      simp only [pgPickStep] at hp
      split_ifs at hp with hdue
      · cases pick with
        | none =>
          cases hp
          exact hb
        | some old =>
          simp only at hp
          split_ifs at hp
          · cases hp
            exact hb
          · exact hpick p hp
      · exact hpick p hp
  exact hfold rows none (fun p hp => by cases hp) (fun p hp => hp) r h

theorem addressed_removeKey {id : ℕ} {rows : List PgRow} (h : Addressed A rows) :
    Addressed A (removeKey PgRow.id id rows) :=
  fun r hr => h r (mem_removeKey.1 hr).1

theorem addressed_updateKey {id : ℕ} {f : PgRow → PgRow}
    (hf : ∀ r, (f r).subscriptionId = r.subscriptionId) {rows : List PgRow}
    (h : Addressed A rows) : Addressed A (updateKey PgRow.id id f rows) := by
  intro r hr
  rcases mem_updateKey.1 hr with ⟨c, hc, -, rfl⟩ | ⟨hmem, -⟩
  · rw [hf]
    exact h c hc
  · exact h r hmem

theorem all_resolve (h : q.session.All (Addressed A)) (id : ℕ) (op : StoreOp) :
    (Pg.resolve w q id op).2.session.All (Addressed A) := by
  have hany {f : List PgRow → List PgRow} (hf : ∀ rows, Addressed A rows → Addressed A (f rows)) :
      (pgResolve w q f).2.session.All (Addressed A) := by
    have hexec := h.exec hf (w.answers 0)
    simp only [pgResolve]
    split_ifs
    · exact hexec.commit _
    · exact hexec.rollback _
  cases op with
  | complete => exact hany fun _ => addressed_removeKey
  | requeue =>
    refine hany fun _ => addressed_updateKey fun r => ?_
    simp only [rearm]
    split_ifs
    · rfl
    · rfl
  | deadLetter =>
    exact hany fun _ => addressed_updateKey (f := fun r => { r with status := .deadLetter })
      fun _ => rfl

theorem readRow_item {row : PgRow} {item : RetryItem} (h : readRow row e = .ok (.item item, e')) :
    item.subscriptionId = row.subscriptionId := by
  simp only [readRow] at h
  obtain ⟨env, e₁, -, h⟩ := Prog.bind_eq_ok.1 h
  obtain ⟨id, e₂, -, h⟩ := Prog.bind_eq_ok.1 h
  obtain ⟨sub, e₃, hsub, h⟩ := Prog.bind_eq_ok.1 h
  have hcopy := ((gives_allocated (F := fun _ => False) row.subscriptionId).of_ok hsub).1
  cases env with
  | none => cases h
  | some env =>
    cases id with
    | none => cases h
    | some id =>
      cases sub with
      | none => cases h
      | some sub =>
        obtain ⟨parts, e₄, -, h⟩ := Prog.bind_eq_ok.1 h
        cases parts with
        | none => cases h
        | some parts =>
          cases h
          simpa using hcopy

/-- A dequeue keeps the rows in order, and claims one that the connection sees. -/
theorem all_pgDequeue (h : q.session.All (Addressed A)) {got : RetryStore.Dequeued}
    (hrun : pgDequeue w q e = .ok ((got, q'), e')) :
    q'.session.All (Addressed A) ∧ ∀ item, got = .claimed item → A item.subscriptionId := by
  have hbegun := h.start w.now (w.answers 0)
  have hread := hbegun.exec (f := id) (fun _ h => h) (w.answers 1)
  simp only [pgDequeue] at hrun
  split_ifs at hrun with hbegin hselect
  · cases hrun
    exact ⟨hbegun, by simp⟩
  · cases hrun
    exact ⟨hread.rollback _, by simp⟩
  · cases hsel : pgSelect ((q.session.start w.now (w.answers 0)).now w.now)
        (q.session.start w.now (w.answers 0)).view with
    | none =>
      rw [hsel] at hrun
      cases hrun
      exact ⟨hread.commit _, by simp⟩
    | some row =>
      have hrow := hbegun.view row (mem_of_pgSelect hsel)
      rw [hsel] at hrun
      simp only [pgClaimRow] at hrun
      obtain ⟨kind, e₁, hkind, hrun⟩ := Prog.bind_eq_ok.1 hrun
      cases kind with
      | short =>
        cases hrun
        exact ⟨hread.rollback _, by simp⟩
      | poison =>
        have hdeleted := hread.exec (f := removeKey PgRow.id row.id)
          (fun _ => addressed_removeKey) (w.answers 2)
        simp only at hrun
        split_ifs at hrun
        · cases hrun
          exact ⟨hdeleted.commit _, by simp⟩
        · cases hrun
          exact ⟨hdeleted.rollback _, by simp⟩
      | item item =>
        cases hrun
        refine ⟨hread, ?_⟩
        intro item' hitem
        cases hitem
        rw [readRow_item hkind]
        exact hrow

end rows

section final

variable {ι : Type} [DecidableEq ι] {sql : SqlTypes} {s s' : PgSystem ι}

omit [DecidableEq ι] in
theorem linked_cascade (s : PgSystem ι) (subs : Session SubscriptionTable) :
    (s.cascade subs).Linked :=
  Session.all_both fun _ _ hr => (List.mem_filter.1 hr).2

omit [DecidableEq ι] in
/-- The ids of the table come from before, or were not deleted so far. -/
def Known (s : PgSystem ι) (table : SubscriptionTable) : Prop :=
  ∀ k, stores table k = true → k ∈ s.backlog.waiting ∨ k ∉ s.gone

omit [DecidableEq ι] in
theorem move_cascade {subs : Session SubscriptionTable} (h : subs.All (Known s)) :
    s.backlog.Move (s.cascade subs).backlog where
  waiting k hk := by
    rcases hk with hk | hk
    · exact h.committed k hk
    · exact h.view k hk
  gone _ hk := Or.inl hk
  kept _ hk := hk
  held _ _ hi := Or.inl hi
  finished := Or.inl rfl

omit [DecidableEq ι] in
theorem all_known (s : PgSystem ι) : s.subs.All (Known s) where
  committed _ hk := Or.inl (Or.inl hk)
  view _ hk := Or.inl (Or.inr hk)

omit [DecidableEq ι] in
theorem move_delete {w : ServerTurn} {id : String} {subs : Session SubscriptionTable}
    (h : pgRemove sql w s.subs id = (true, subs)) :
    s.backlog.Move
      ({ s.cascade subs with gone := (sql.uuid id).toList ++ s.gone } : PgSystem ι).backlog := by
  obtain ⟨-, -, rfl⟩ := pgChange_done h (by simp)
  have hback {k : String}
      (hk : stores (s.subs.view.filter fun x => sql.uuid id != some x.id) k = true) :
      stores s.subs.view k = true ∧ sql.uuid id ≠ some k := by
    obtain ⟨x, hx, hxk⟩ := List.any_eq_true.1 hk
    obtain ⟨hmem, hne⟩ := List.mem_filter.1 hx
    obtain rfl := beq_iff_eq.1 hxk
    exact ⟨List.any_eq_true.2 ⟨x, hmem, beq_self_eq_true _⟩, by simpa using hne⟩
  constructor
  · intro k hk
    have hk' := or_self_iff.1 hk
    exact Or.inl (Or.inr (hback hk').1)
  · intro k hk
    rcases List.mem_append.1 hk with hnew | hold
    · refine Or.inr fun hwait => ?_
      exact (hback (or_self_iff.1 hwait)).2 (Option.mem_toList.1 hnew)
    · exact Or.inl hold
  · exact fun _ hk => List.mem_append_right _ hk
  · exact fun _ _ hi => Or.inl hi
  · exact Or.inl rfl

omit [DecidableEq ι] in
/-- A change that gives rows no new ids stays within the known ones. -/
theorem known_map {f : PgSubscription → PgSubscription} (hf : ∀ x, (f x).id = x.id)
    {rows : SubscriptionTable} (h : Known s rows) : Known s (rows.map f) := by
  intro k hk
  apply h
  obtain ⟨y, hy, hyk⟩ := List.any_eq_true.1 hk
  obtain ⟨x, hx, rfl⟩ := List.mem_map.1 hy
  exact List.any_eq_true.2 ⟨x, hx, hf x ▸ hyk⟩

omit [DecidableEq ι] in
theorem known_filter {p : PgSubscription → Bool} {rows : SubscriptionTable}
    (h : Known s rows) : Known s (rows.filter p) := by
  intro k hk
  apply h
  obtain ⟨x, hx, hxk⟩ := List.any_eq_true.1 hk
  exact List.any_eq_true.2 ⟨x, (List.mem_filter.1 hx).1, hxk⟩

omit [DecidableEq ι] in
theorem known_append {x : PgSubscription} (hx : x.id ∉ s.gone) {rows : SubscriptionTable}
    (h : Known s rows) : Known s (rows ++ [x]) := by
  intro k hk
  obtain ⟨y, hy, hyk⟩ := List.any_eq_true.1 hk
  rcases List.mem_append.1 hy with hold | hnew
  · exact h k (List.any_eq_true.2 ⟨y, hold, hyk⟩)
  · rw [List.mem_singleton.1 hnew, beq_iff_eq] at hyk
    exact Or.inr (hyk ▸ hx)

omit [DecidableEq ι] in
theorem known_pgGet {w : ServerTurn} {id : String} {e e' : Env} {got : SubscriptionStore.Got}
    {subs : Session SubscriptionTable} (h : pgGet sql w s.subs id e = .ok ((got, subs), e')) :
    subs.All (Known s) := by
  have hread := (all_known s).exec (f := fun rows => rows) (fun _ h => h)
    (castAck (sql.uuid id).isSome (w.answers 0))
  simp only [pgGet] at h
  split_ifs at h
  · cases hx : s.subs.view.find? (namedRow sql id) with
    | none =>
      rw [hx] at h
      cases h
      exact hread
    | some x =>
      rw [hx] at h
      obtain ⟨o, e₁, -, h⟩ := Prog.bind_eq_ok.1 h
      cases o with
      | none =>
        cases h
        exact hread
      | some record =>
        cases h
        exact hread
  · cases h
    exact hread

/-- A step under the condition keeps the rows linked and is a move of the backlog. -/
theorem pg_next (hs : s.Linked) (h : s.Next sql s') :
    s'.Linked ∧ s.backlog.Move s'.backlog := by
  have hsubs {subs : Session SubscriptionTable} (hknown : subs.All (Known s)) :
      (s.cascade subs).Linked ∧ s.backlog.Move (s.cascade subs).backlog :=
    ⟨linked_cascade s subs, move_cascade hknown⟩
  have hqueue (queue : PgStore) :
      s.backlog.Move ({ s with queue := queue } : PgSystem ι).backlog :=
    ⟨fun _ hk => Or.inl hk, fun _ hk => Or.inl hk, fun _ hk => hk, fun _ _ hi => Or.inl hi,
      Or.inl rfl⟩
  obtain ⟨c, hstep, hmeets⟩ := h
  cases hstep with
  | insert w id callbackUri filter amfId amfSetId expiryAt e e' ok subs h =>
    apply hsubs
    obtain ⟨o, e₁, -, h⟩ := Prog.bind_eq_ok.1 h
    cases o with
    | none =>
      cases h
      exact all_known s
    | some text =>
      have hchange := congrArg Prod.fst (Except.ok.inj h)
      obtain rfl := (congrArg Prod.snd hchange).symm
      refine all_pgChange (all_known s) (fun _ => known_append ?_) _ _ _
      exact hmeets
  | get w id e e' got subs h => exact hsubs (known_pgGet h)
  | replace w id fields e e' code subs h =>
    apply hsubs
    obtain ⟨o, e₁, -, h⟩ := Prog.bind_eq_ok.1 h
    cases o with
    | none =>
      cases h
      exact all_known s
    | some text =>
      have hchange := congrArg Prod.fst (Except.ok.inj h)
      obtain rfl := (congrArg Prod.snd hchange).symm
      exact all_pgChange (all_known s) (fun _ => known_map fun _ => id_replaceRow _ _ _ _) _ _ _
  | tombstone w id =>
    apply hsubs
    refine all_pgChange (all_known s) (fun _ => known_map fun x => ?_) _ _ _
    split_ifs
    · rfl
    · rfl
  | delete w id subs h => exact ⟨linked_cascade s subs, move_delete h⟩
  | deleteFailed w id subs h =>
    apply hsubs
    have hchange := all_pgChange (w := w) (all_known s)
      (f := List.filter fun x => sql.uuid id != some x.id) (fun _ => known_filter)
      (sql.uuid id).isSome true false
    change (pgRemove sql w s.subs id).2.All (Known s) at hchange
    rw [h] at hchange
    exact hchange
  | enqueue w sub callbackUri payload correlationId e e' rc queue h =>
    have hlinked := all_linkedEnqueue (fun rows row hrows _ hstored r hr => by
      rcases List.mem_append.1 hr with hold | hnew
      · exact hrows r hold
      · rw [List.mem_singleton.1 hnew]
        exact hstored) hs h
    exact ⟨hlinked, hqueue queue⟩
  | dequeue w i e e' got queue hi h =>
    obtain ⟨hall, hclaims⟩ := all_pgDequeue hs h
    refine ⟨hall, fun _ hk => Or.inl hk, fun _ hk => Or.inl hk, fun _ hk => hk,
      fun j k hj => ?_, Or.inl rfl⟩
    obtain ⟨item, hitem, hk⟩ := held_eq_some hj
    rcases item_put hitem with ⟨-, hnew⟩ | hold
    · exact Or.inr (Or.inl (hk ▸ hclaims item (claimedPhase_item hnew)))
    · exact Or.inl (Option.map_eq_some_iff.2 ⟨item, hold, hk⟩)
  | work desk hdesk =>
    refine ⟨hs, fun _ hk => Or.inl hk, fun _ hk => Or.inl hk, fun _ hk => hk,
      fun j k hj => ?_, hdesk.posted⟩
    obtain ⟨item, hitem, hk⟩ := held_eq_some hj
    exact Or.inl (Option.map_eq_some_iff.2 ⟨item, hdesk.item hitem, hk⟩)
  | resolve w i item v hi =>
    refine ⟨all_resolve hs item.id v.op, fun _ hk => Or.inl hk, fun _ hk => Or.inl hk,
      fun _ hk => hk, fun j k hj => ?_, Or.inl rfl⟩
    obtain ⟨held, hheld, hk⟩ := held_eq_some hj
    rcases item_put hheld with ⟨-, hnew⟩ | hold
    · cases hnew
    · exact Or.inl (Option.map_eq_some_iff.2 ⟨held, hold, hk⟩)

theorem pg_final {start : PgSystem ι} (hstart : start.Opened) {id : String}
    (h : Runs (PgSystem.Next sql) start s) (hid : id ∈ s.gone) (hidle : s.desk.Idle)
    (hr : Runs (PgSystem.Next sql) s s') :
    ∃ new, s'.desk.posted = new ++ s.desk.posted ∧ id ∉ new := by
  have hlinked : start.Linked := by
    refine ⟨hstart.linked, ?_⟩
    rw [Session.view, hstart.queue]
    exact hstart.linked
  have hclear : start.backlog.Clear := by
    intro k hk
    change k ∈ start.gone at hk
    rw [hstart.gone] at hk
    cases hk
  obtain ⟨hs, hruns⟩ := Runs.simulate (f := PgSystem.backlog) h hlinked
    fun _ _ hI hstep => pg_next hI hstep
  obtain ⟨-, hlater⟩ := Runs.simulate (f := PgSystem.backlog) hr hs
    fun _ _ hI hstep => pg_next hI hstep
  exact (Backlog.runs_settled (Backlog.runs_clear hclear hruns) hid
    (fun i => held_of_idle hidle i id) hlater).finished

end final

/-- Unsubscribing is final along every run whose steps meet the condition of its backend. -/
theorem unsubscribe_final {ι : Type} [DecidableEq ι] (sql : SqlTypes) :
    (∀ s s' : MemSystem ι, ∀ id ∈ s.gone, Runs MemSystem.Next .init s → s.desk.Idle →
      Runs MemSystem.Next s s' →
        ∃ new, s'.desk.posted = new ++ s.desk.posted ∧ id ∉ new) ∧
    ∀ start s s' : PgSystem ι, ∀ id ∈ s.gone, start.Opened → Runs (PgSystem.Next sql) start s →
      s.desk.Idle → Runs (PgSystem.Next sql) s s' →
        ∃ new, s'.desk.posted = new ++ s.desk.posted ∧ id ∉ new :=
  ⟨fun _ _ _ hid h hidle hr => mem_final h hid hidle hr,
    fun _ _ _ _ hid hstart h hidle hr => pg_final hstart h hid hidle hr⟩

section sample

def linkedRow : PgRow := ⟨1, subscribedRow.id, "\x7b\x7d", 0, 0, .pending⟩

/-- One subscription with one queued row. -/
def pgOpened : PgSystem Unit := ⟨⟨[subscribedRow], none⟩, ⟨⟨[linkedRow], none⟩, 2⟩, .init, []⟩

theorem opened_pgOpened : pgOpened.Opened where
  subs := rfl
  queue := rfl
  linked := by
    intro r hr
    obtain rfl := List.mem_singleton.1 hr
    exact List.any_eq_true.2 ⟨subscribedRow, List.mem_cons_self, beq_self_eq_true _⟩
  desk := rfl
  gone := rfl

/-- The delete takes the row with it. -/
theorem next_pgOpened :
    ∃ s : PgSystem Unit, pgOpened.Next (zonedTypes 0 (by decide)) s ∧
      s.gone = [subscribedRow.id] ∧ s.desk = .init ∧ s.queue.session.committed = [] := by
  have hremove : pgRemove (zonedTypes 0 (by decide)) ⟨0, 0, fun _ => .done⟩ pgOpened.subs
      subscribedRow.id = (true, ⟨[], none⟩) := by
    simp [pgRemove, pgChange, pgCommitted, castAck, zonedTypes, ServerTurn.after,
      Session.start, Session.exec, Session.commit, Session.view, pgOpened]
  refine ⟨_, ⟨_, .delete ⟨0, 0, fun _ => .done⟩ subscribedRow.id _ hremove, trivial⟩, ?_, rfl, rfl⟩
  simp [zonedTypes, pgOpened]

theorem unsubscribe_final_sample :
    (∃ s' : MemSystem Unit, s'.desk.posted = ["s"] ∧
      ∃ new, s'.desk.posted = new ++ [] ∧ "t" ∉ new) ∧
    ∃ s : PgSystem Unit, s.gone = [subscribedRow.id] ∧
      ∃ new, s.desk.posted = new ++ s.desk.posted ∧ subscribedRow.id ∉ new := by
  have hfinal := unsubscribe_final (ι := Unit) (zonedTypes 0 (by decide))
  constructor
  · obtain ⟨s', hr, hposted⟩ := next_posts ["t"]
    have hdelete : MemSystem.Next (ι := Unit) .init ⟨.newInmemory, retryStoreNewInmemory, .init,
        ["t"]⟩ :=
      ⟨_, .delete "t" .newInmemory rfl, fun r hr => by cases hr⟩
    have henqueue : MemSystem.Next (ι := Unit) ⟨.newInmemory, retryStoreNewInmemory, .init,
        ["t"]⟩ ⟨.newInmemory, sampleQueue, .init, ["t"]⟩ :=
      ⟨.enqueue "s", .enqueue "s" (some "https://a") (some "\x7b\x7d") none Env.quiet _ true
        sampleQueue rfl, by simp [MemSystem.Meets]⟩
    have hstart := (Relation.ReflTransGen.single hdelete).tail henqueue
    exact ⟨s', hposted, hfinal.1 _ s' "t" List.mem_cons_self hstart (fun _ => rfl) hr⟩
  · obtain ⟨s, hnext, hgone, hdesk, -⟩ := next_pgOpened
    refine ⟨s, hgone, hfinal.2 pgOpened s s subscribedRow.id ?_ opened_pgOpened
      (Relation.ReflTransGen.single hnext) ?_ .refl⟩
    · rw [hgone]
      exact List.mem_cons_self
    · rw [hdesk]
      exact fun _ => rfl

theorem any_of_next {s s' : MemSystem Unit} (h : s.Next s') : s.Any s' := by
  obtain ⟨c, hstep, -⟩ := h
  exact ⟨c, hstep⟩

/-- A row that waits when its subscription is deleted is posted afterwards. -/
theorem unsubscribe_not_final :
    ¬∀ s s' : MemSystem Unit, ∀ id ∈ s.gone, Runs MemSystem.Any .init s → s.desk.Idle →
      Runs MemSystem.Any s s' →
        ∃ new, s'.desk.posted = new ++ s.desk.posted ∧ id ∉ new := by
  intro hall
  obtain ⟨s', hr, hposted⟩ := next_posts ["s"]
  have hdelete : MemSystem.Any ⟨.newInmemory, sampleQueue, .init, []⟩
      ⟨.newInmemory, sampleQueue, .init, ["s"]⟩ :=
    ⟨_, .delete "s" .newInmemory rfl⟩
  have hstart := (Relation.ReflTransGen.single ⟨_, next_enqueue_sample⟩).tail hdelete
  have hlater := hr.lift id fun _ _ => any_of_next
  obtain ⟨new, hnew, hnot⟩ := hall _ s' "s" List.mem_cons_self hstart (fun _ => rfl) hlater
  rw [hposted, Desk.init, List.append_nil] at hnew
  rw [← hnew] at hnot
  exact hnot List.mem_cons_self

end sample

end Nssf.Unsubscribe
