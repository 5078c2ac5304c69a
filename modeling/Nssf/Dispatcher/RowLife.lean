import Mathlib.Logic.Function.Basic
import Nssf.Dispatcher.Dispatch

/-! The life of one retry row, seen apart from all others: its record in the store, the
dispatchers that hold it, and what happened to it, newest first. `RowStep` lists what can
happen to a row; `Life` is what holds of a row at any point of its life. -/

namespace Nssf.Protocol

/-- Why a claimed row is about to be resolved the way it is. -/
inductive Verdict where
  | rejected
  | aborted
  | unbuilt
  | sent
  | refused
  | spent
  | rearmed
  deriving DecidableEq, Repr

inductive Deletion where
  | delivered
  | rejected
  | quarantined
  deriving DecidableEq, Repr

inductive Kind where
  | enqueued
  | posted
  | delivered
  | refused
  | aborted
  | rejected
  | deadLettered
  | deleted (why : Deletion)
  deriving DecidableEq, Repr

def Kind.terminal : Kind → Bool
  | .delivered | .refused | .aborted | .rejected | .deadLettered => true
  | _ => false

def Kind.isDeleted : Kind → Bool
  | .deleted _ => true
  | _ => false

def Verdict.op : Verdict → StoreOp
  | .rejected | .sent => .complete
  | .unbuilt | .rearmed => .requeue
  | .aborted | .refused | .spent => .deadLetter

/-- What is known about a row from the moment its verdict falls. -/
def Verdict.mark : Verdict → List Kind
  | .rejected => [.rejected]
  | .aborted => [.aborted]
  | .sent => [.delivered]
  | .refused => [.refused]
  | .unbuilt | .spent | .rearmed => []

def Verdict.closing : Verdict → List Kind
  | .rejected => [.deleted .rejected]
  | .sent => [.deleted .delivered]
  | .aborted | .refused | .spent => [.deadLettered]
  | .unbuilt | .rearmed => []

def verdictOf (item : RetryItem) (x : Delivery) : Verdict :=
  if x.rc = 0 ∧ isSuccessStatus x.status = true then .sent
  else if x.rc ≠ 0 ∨ isRetriableStatus x.status = true then
    if dispatchMaxAttempts ≤ item.attemptCount + 1 then .spent else .rearmed
  else .refused

theorem afterDelivery_op (item : RetryItem) (x : Delivery) :
    (afterDelivery item x).1 = (verdictOf item x).op := by
  unfold afterDelivery verdictOf
  split_ifs <;> rfl

inductive Phase where
  | idle
  | claimed (item : RetryItem)
  | admitted (item : RetryItem)
  | ready (item : RetryItem) (headers : List String)
  | resolving (item : RetryItem) (v : Verdict)
  deriving DecidableEq, Repr

def Phase.item? : Phase → Option RetryItem
  | .idle => none
  | .claimed item | .admitted item | .ready item _ | .resolving item _ => some item

def Phase.decided : Phase → Bool
  | .resolving _ _ => true
  | _ => false

structure View (ι : Type) where
  row : Option Row
  held : ι → Option Phase
  events : List Kind

variable {ι : Type} [DecidableEq ι]

def nobody : ι → Option Phase := fun _ => none

def only (i : ι) (p : Phase) : ι → Option Phase := Function.update nobody i (some p)

def posts (L : List Kind) : ℕ := L.count .posted

def deletions (L : List Kind) : ℕ := L.countP Kind.isDeleted

def Open (L : List Kind) : Prop := ∀ k ∈ L, k.terminal = false

/-- Newest first: a POST has no terminal event before it. -/
def Orderly : List Kind → Prop
  | [] => True
  | k :: L => (k = .posted → Open L) ∧ Orderly L

/-- What a resolving store call makes of a row. -/
def Resolved (r : Row) (row' : Option Row) : StoreOp → Prop
  | .complete => row' = none
  | .requeue => ∃ dueAt, row' = some { r with
      attemptCount := r.attemptCount + 1, claimed := false, dueAtMs := dueAt }
  | .deadLetter => row' = some { r with status := .deadLetter, claimed := false }

inductive RowStep : View ι → View ι → Prop
  | enqueue (r : Row) (hr : r.attemptCount = 0 ∧ r.claimed = false ∧ r.status = .pending) :
      RowStep ⟨none, nobody, []⟩ ⟨some r, nobody, [.enqueued]⟩
  | claim (r : Row) (held : ι → Option Phase) (L : List Kind) (i : ι) (item : RetryItem)
      (hr : r.claimed = false ∧ r.status = .pending)
      (hitem : item.attemptCount = r.attemptCount) :
      RowStep ⟨some r, held, L⟩
        ⟨some { r with claimed := true }, Function.update held i (some (.claimed item)), L⟩
  | quarantine (r : Row) (held : ι → Option Phase) (L : List Kind)
      (hr : r.claimed = false ∧ r.status = .pending) :
      RowStep ⟨some r, held, L⟩ ⟨none, held, .deleted .quarantined :: L⟩
  | pass (row : Option Row) (held : ι → Option Phase) (L : List Kind) (i : ι)
      (item : RetryItem) (hi : held i = some (.claimed item)) :
      RowStep ⟨row, held, L⟩ ⟨row, Function.update held i (some (.admitted item)), L⟩
  | reject (row : Option Row) (held : ι → Option Phase) (L : List Kind) (i : ι)
      (item : RetryItem) (hi : held i = some (.claimed item)) :
      RowStep ⟨row, held, L⟩
        ⟨row, Function.update held i (some (.resolving item .rejected)), .rejected :: L⟩
  | build (row : Option Row) (held : ι → Option Phase) (L : List Kind) (i : ι)
      (item : RetryItem) (headers : List String) (hi : held i = some (.admitted item)) :
      RowStep ⟨row, held, L⟩ ⟨row, Function.update held i (some (.ready item headers)), L⟩
  | abort (row : Option Row) (held : ι → Option Phase) (L : List Kind) (i : ι)
      (item : RetryItem) (hi : held i = some (.admitted item)) :
      RowStep ⟨row, held, L⟩
        ⟨row, Function.update held i (some (.resolving item .aborted)), .aborted :: L⟩
  | unbuilt (row : Option Row) (held : ι → Option Phase) (L : List Kind) (i : ι)
      (item : RetryItem) (hi : held i = some (.admitted item)) :
      RowStep ⟨row, held, L⟩
        ⟨row, Function.update held i (some (.resolving item .unbuilt)), L⟩
  | deliver (row : Option Row) (held : ι → Option Phase) (L : List Kind) (i : ι)
      (item : RetryItem) (headers : List String) (x : Delivery)
      (hi : held i = some (.ready item headers)) :
      RowStep ⟨row, held, L⟩
        ⟨row, Function.update held i (some (.resolving item (verdictOf item x))),
          (verdictOf item x).mark ++ .posted :: L⟩
  | resolve (r : Row) (held : ι → Option Phase) (L : List Kind) (i : ι) (item : RetryItem)
      (v : Verdict) (row' : Option Row) (hi : held i = some (.resolving item v))
      (hrow : Resolved r row' v.op) :
      RowStep ⟨some r, held, L⟩ ⟨row', Function.update held i none, v.closing ++ L⟩

/-- The budget of an open row: every POST was followed by a bump of the count, and the last
admissible POST is the one at count four. -/
def Within (n : ℕ) (L : List Kind) : Prop :=
  posts L ≤ n ∧ posts L < dispatchMaxAttempts ∧ Open L

inductive Life : View ι → Prop
  | unborn : Life ⟨none, nobody, []⟩
  | waiting (r : Row) (L : List Kind) (hr : r.claimed = false ∧ r.status = .pending)
      (hw : Within r.attemptCount L) (hd : deletions L = 0) (ho : Orderly L) :
      Life ⟨some r, nobody, L⟩
  | held (r : Row) (i : ι) (p : Phase) (item : RetryItem) (L : List Kind)
      (hr : r.claimed = true ∧ r.status = .pending) (hp : p.decided = false)
      (hitem : p.item? = some item ∧ item.attemptCount = r.attemptCount)
      (hw : Within r.attemptCount L) (hd : deletions L = 0) (ho : Orderly L) :
      Life ⟨some r, only i p, L⟩
  | decided (r : Row) (i : ι) (item : RetryItem) (v : Verdict) (L : List Kind)
      (hr : r.claimed = true ∧ r.status = .pending)
      (hw : v.op = .requeue → Within (r.attemptCount + 1) L) (hm : ∀ k ∈ v.mark, k ∈ L)
      (hb : posts L ≤ dispatchMaxAttempts) (hd : deletions L = 0) (ho : Orderly L) :
      Life ⟨some r, only i (.resolving item v), L⟩
  | dead (r : Row) (L : List Kind) (hr : r.claimed = false ∧ r.status = .deadLetter)
      (hb : posts L ≤ dispatchMaxAttempts) (hd : deletions L = 0) (ho : Orderly L) :
      Life ⟨some r, nobody, L⟩
  | deleted (L : List Kind) (why : Deletion) (hw : .deleted why ∈ L)
      (ht : (why = .delivered → .delivered ∈ L) ∧ (why = .rejected → .rejected ∈ L))
      (hb : posts L ≤ dispatchMaxAttempts) (hd : deletions L = 1) (ho : Orderly L) :
      Life ⟨none, nobody, L⟩

theorem only_self (i : ι) (p : Phase) : only i p i = some p := Function.update_self ..

theorem only_of_ne {i j : ι} (h : j ≠ i) (p : Phase) : only i p j = none :=
  Function.update_of_ne h ..

theorem eq_of_only {i j : ι} {p p' : Phase} (h : only i p j = some p') : j = i ∧ p' = p := by
  by_cases hj : j = i
  · subst hj
    rw [only_self] at h
    exact ⟨rfl, (Option.some.inj h).symm⟩
  · rw [only_of_ne hj] at h
    cases h

theorem update_only (i : ι) (p p' : Phase) :
    Function.update (only i p) i (some p') = only i p' := by
  unfold only
  rw [Function.update_idem]

theorem update_only_none (i : ι) (p : Phase) :
    Function.update (only i p) i none = nobody := by
  unfold only
  rw [Function.update_idem]
  exact Function.update_eq_self i nobody

theorem Within.mono {n m : ℕ} {L : List Kind} (h : Within n L) (hnm : n ≤ m) : Within m L :=
  ⟨h.1.trans hnm, h.2⟩

/-- A row held in an undecided phase is in the `held` state of its life. -/
theorem Life.of_held {row : Option Row} {held : ι → Option Phase} {L : List Kind} {i : ι}
    {p : Phase} (h : Life ⟨row, held, L⟩) (hi : held i = some p) (hp : p.decided = false) :
    ∃ r item, row = some r ∧ held = only i p ∧ (r.claimed = true ∧ r.status = .pending) ∧
      (p.item? = some item ∧ item.attemptCount = r.attemptCount) ∧
      Within r.attemptCount L ∧ deletions L = 0 ∧ Orderly L := by
  cases h with
  | unborn => cases hi
  | waiting r _ hr hw hd ho => cases hi
  | held r j q item _ hr hq hitem hw hd ho =>
    obtain ⟨rfl, rfl⟩ := eq_of_only hi
    exact ⟨r, item, rfl, rfl, hr, hitem, hw, hd, ho⟩
  | decided r j item v _ hr hw hm hb hd ho =>
    obtain ⟨rfl, rfl⟩ := eq_of_only hi
    cases hp
  | dead r _ hr hb hd ho => cases hi
  | deleted _ why hw ht hb hd ho => cases hi

theorem posts_mark_append (v : Verdict) (L : List Kind) : posts (v.mark ++ L) = posts L := by
  cases v <;> simp [Verdict.mark, posts]

theorem deletions_mark_append (v : Verdict) (L : List Kind) :
    deletions (v.mark ++ L) = deletions L := by
  cases v <;> simp [Verdict.mark, deletions, Kind.isDeleted]

theorem orderly_mark_append (v : Verdict) {L : List Kind} (h : Orderly L) :
    Orderly (v.mark ++ L) := by
  cases v <;> first | exact h | exact ⟨by simp, h⟩

/-- A verdict without a POST: only its mark is added. -/
theorem Life.decide {r : Row} {i : ι} {item : RetryItem} {L : List Kind} {v : Verdict}
    (hr : r.claimed = true ∧ r.status = .pending) (hw : Within r.attemptCount L)
    (hd : deletions L = 0) (ho : Orderly L) (hv : v = .rejected ∨ v = .aborted ∨ v = .unbuilt) :
    Life ⟨some r, only i (.resolving item v), v.mark ++ L⟩ := by
  refine .decided r i item v _ hr ?_ (fun k hk => List.mem_append_left _ hk) ?_ ?_
    (orderly_mark_append v ho)
  · intro hop
    rcases hv with rfl | rfl | rfl
    · cases hop
    · cases hop
    · exact hw.mono (Nat.le_succ _)
  · rw [posts_mark_append]
    exact hw.2.1.le
  · rw [deletions_mark_append, hd]

theorem verdictOf_requeue {item : RetryItem} {x : Delivery}
    (h : (verdictOf item x).op = .requeue) : item.attemptCount + 1 < dispatchMaxAttempts := by
  unfold verdictOf at h
  split_ifs at h with h₁ h₂ h₃
  · cases h
  · cases h
  · omega
  · cases h

theorem Life.deliver {r : Row} {i : ι} {item : RetryItem} {L : List Kind} {x : Delivery}
    (hr : r.claimed = true ∧ r.status = .pending)
    (hitem : item.attemptCount = r.attemptCount) (hw : Within r.attemptCount L)
    (hd : deletions L = 0) (ho : Orderly L) :
    Life ⟨some r, only i (.resolving item (verdictOf item x)),
      (verdictOf item x).mark ++ .posted :: L⟩ := by
  have hposts : posts ((verdictOf item x).mark ++ .posted :: L) = posts L + 1 := by
    rw [posts_mark_append]
    simp [posts]
  refine .decided r i item _ _ hr ?_ ?_ ?_ ?_ ?_
  · intro hv
    have hlt := verdictOf_requeue hv
    refine ⟨?_, ?_, ?_⟩
    · have := hw.1
      omega
    · have := hw.1
      omega
    · intro k hk
      have hmark : (verdictOf item x).mark = [] := by
        generalize verdictOf item x = v at hv
        cases v <;> first | rfl | cases hv
      rw [hmark] at hk
      rcases List.mem_cons.1 hk with rfl | hk
      · rfl
      · exact hw.2.2 k hk
  · intro k hk
    exact List.mem_append_left _ hk
  · have := hw.2.1
    omega
  · rw [deletions_mark_append]
    simpa [deletions, Kind.isDeleted] using hd
  · exact orderly_mark_append _ ⟨fun _ => hw.2.2, ho⟩

theorem posts_cons_of_ne {k : Kind} (h : k ≠ .posted) (L : List Kind) :
    posts (k :: L) = posts L := by
  simp [posts, h]

theorem deletions_cons (k : Kind) (L : List Kind) :
    deletions (k :: L) = deletions L + if k.isDeleted then 1 else 0 := List.countP_cons

theorem Life.remove {L : List Kind} (why : Deletion)
    (ht : (why = .delivered → .delivered ∈ L) ∧ (why = .rejected → .rejected ∈ L))
    (hb : posts L ≤ dispatchMaxAttempts) (hd : deletions L = 0) (ho : Orderly L) :
    Life (ι := ι) ⟨none, nobody, .deleted why :: L⟩ := by
  refine .deleted _ why List.mem_cons_self ?_ ?_ ?_ ⟨by simp, ho⟩
  · exact ⟨fun h => List.mem_cons_of_mem _ (ht.1 h), fun h => List.mem_cons_of_mem _ (ht.2 h)⟩
  · rw [posts_cons_of_ne (by simp)]
    exact hb
  · rw [deletions_cons, hd]
    rfl

theorem Life.retain (r : Row) {L : List Kind} (hb : posts L ≤ dispatchMaxAttempts)
    (hd : deletions L = 0) (ho : Orderly L) :
    Life (ι := ι) ⟨some { r with status := .deadLetter, claimed := false }, nobody,
      .deadLettered :: L⟩ := by
  refine .dead _ _ ⟨rfl, rfl⟩ ?_ ?_ ⟨by simp, ho⟩
  · rw [posts_cons_of_ne (by simp)]
    exact hb
  · rw [deletions_cons, hd]
    rfl

theorem Life.held_eq_only {row : Option Row} {held : ι → Option Phase} {L : List Kind} {i : ι}
    {p : Phase} (h : Life ⟨row, held, L⟩) (hi : held i = some p) : held = only i p := by
  cases h with
  | unborn => cases hi
  | waiting r _ hr hw hd ho => cases hi
  | held r j q item _ hr hq hitem hw hd ho =>
    obtain ⟨rfl, rfl⟩ := eq_of_only hi
    rfl
  | decided r j item v _ hr hw hm hb hd ho =>
    obtain ⟨rfl, rfl⟩ := eq_of_only hi
    rfl
  | dead r _ hr hb hd ho => cases hi
  | deleted _ why hw ht hb hd ho => cases hi

theorem Life.row_of_held {row : Option Row} {held : ι → Option Phase} {L : List Kind} {i : ι}
    {p : Phase} (h : Life ⟨row, held, L⟩) (hi : held i = some p) :
    ∃ r, row = some r ∧ r.claimed = true ∧ r.status = .pending := by
  cases h with
  | unborn => cases hi
  | waiting r _ hr hw hd ho => cases hi
  | held r j q item _ hr hq hitem hw hd ho => exact ⟨r, rfl, hr⟩
  | decided r j item v _ hr hw hm hb hd ho => exact ⟨r, rfl, hr⟩
  | dead r _ hr hb hd ho => cases hi
  | deleted _ why hw ht hb hd ho => cases hi

theorem Life.of_unclaimed {r : Row} {held : ι → Option Phase} {L : List Kind}
    (h : Life ⟨some r, held, L⟩) (hr : r.claimed = false ∧ r.status = .pending) :
    held = nobody ∧ Within r.attemptCount L ∧ deletions L = 0 ∧ Orderly L := by
  cases h with
  | waiting _ _ _ hw hd ho => exact ⟨rfl, hw, hd, ho⟩
  | held _ i p item _ hr' hp hitem hw hd ho =>
    rw [hr.1] at hr'
    cases hr'.1
  | decided _ i item v _ hr' hw hm hb hd ho =>
    rw [hr.1] at hr'
    cases hr'.1
  | dead _ _ hr' hb hd ho =>
    rw [hr.2] at hr'
    cases hr'.2

theorem Life.resolve {r : Row} {item : RetryItem} {L : List Kind} {v : Verdict}
    {row' : Option Row} {i : ι} (h : Life ⟨some r, only i (.resolving item v), L⟩)
    (hrow : Resolved r row' v.op) :
    Life (ι := ι) ⟨row', nobody, v.closing ++ L⟩ := by
  generalize hheld : only i (.resolving item v) = held at h
  cases h with
  | waiting _ _ hr hw hd ho =>
    have := congrFun hheld i
    rw [only_self] at this
    cases this
  | dead _ _ hr hb hd ho =>
    have := congrFun hheld i
    rw [only_self] at this
    cases this
  | held _ j q item' _ hr hq hitem hw hd ho =>
    have := congrFun hheld i
    rw [only_self] at this
    obtain ⟨rfl, rfl⟩ := eq_of_only this.symm
    cases hq
  | decided _ j item' v' _ hr hw hm hb hd ho =>
    have := congrFun hheld i
    rw [only_self] at this
    obtain ⟨rfl, hv⟩ := eq_of_only this.symm
    injection hv with _ hv
    subst hv
    cases v with
    | rejected =>
      obtain rfl : row' = none := hrow
      have hr : Kind.rejected ∈ L := hm _ (by simp [Verdict.mark])
      exact Life.remove .rejected ⟨by simp, fun _ => hr⟩ hb hd ho
    | sent =>
      obtain rfl : row' = none := hrow
      have hs : Kind.delivered ∈ L := hm _ (by simp [Verdict.mark])
      exact Life.remove .delivered ⟨fun _ => hs, by simp⟩ hb hd ho
    | unbuilt =>
      obtain ⟨dueAt, rfl⟩ := hrow
      exact .waiting _ _ ⟨rfl, hr.2⟩ (hw rfl) hd ho
    | rearmed =>
      obtain ⟨dueAt, rfl⟩ := hrow
      exact .waiting _ _ ⟨rfl, hr.2⟩ (hw rfl) hd ho
    | aborted =>
      obtain rfl := hrow
      exact Life.retain r hb hd ho
    | refused =>
      obtain rfl := hrow
      exact Life.retain r hb hd ho
    | spent =>
      obtain rfl := hrow
      exact Life.retain r hb hd ho

/-- One thing happening to a row keeps the laws of its life. -/
theorem RowStep.life {v v' : View ι} (hs : RowStep v v') (h : Life v) : Life v' := by
  cases hs with
  | enqueue r hr =>
    refine .waiting r _ hr.2 ⟨?_, ?_, ?_⟩ rfl ⟨by simp, trivial⟩
    · simp [posts]
    · simp [posts, dispatchMaxAttempts]
    · simp [Open, Kind.terminal]
  | claim r held L i item hr hitem =>
    obtain ⟨rfl, hw, hd, ho⟩ := h.of_unclaimed hr
    exact .held _ i (.claimed item) item L ⟨rfl, hr.2⟩ rfl ⟨rfl, hitem⟩ hw hd ho
  | quarantine r held L hr =>
    obtain ⟨rfl, hw, hd, ho⟩ := h.of_unclaimed hr
    exact Life.remove .quarantined ⟨by simp, by simp⟩ hw.2.1.le hd ho
  | pass row held L i item hi =>
    obtain ⟨r, item', rfl, rfl, hr, hitem, hw, hd, ho⟩ := h.of_held hi rfl
    rw [update_only]
    exact .held r i _ item' L hr rfl hitem hw hd ho
  | reject row held L i item hi =>
    obtain ⟨r, item', rfl, rfl, hr, hitem, hw, hd, ho⟩ := h.of_held hi rfl
    rw [update_only]
    exact Life.decide hr hw hd ho (Or.inl rfl)
  | build row held L i item headers hi =>
    obtain ⟨r, item', rfl, rfl, hr, hitem, hw, hd, ho⟩ := h.of_held hi rfl
    rw [update_only]
    exact .held r i _ item' L hr rfl hitem hw hd ho
  | abort row held L i item hi =>
    obtain ⟨r, item', rfl, rfl, hr, hitem, hw, hd, ho⟩ := h.of_held hi rfl
    rw [update_only]
    exact Life.decide hr hw hd ho (Or.inr (Or.inl rfl))
  | unbuilt row held L i item hi =>
    obtain ⟨r, item', rfl, rfl, hr, hitem, hw, hd, ho⟩ := h.of_held hi rfl
    rw [update_only]
    exact Life.decide hr hw hd ho (Or.inr (Or.inr rfl))
  | deliver row held L i item headers x hi =>
    obtain ⟨r, item', rfl, rfl, hr, ⟨hitem, hcount⟩, hw, hd, ho⟩ := h.of_held hi rfl
    rw [update_only]
    cases hitem
    exact Life.deliver hr hcount hw hd ho
  | resolve r held L i item v row' hi hrow =>
    obtain rfl := h.held_eq_only hi
    rw [update_only_none]
    exact h.resolve hrow

end Nssf.Protocol
