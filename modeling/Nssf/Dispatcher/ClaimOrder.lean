import Mathlib
import Nssf.Base.Transition
import Nssf.Dispatcher.HeaderLines

/-! Which row a dequeue takes. The rows stand in the order of their arrival, the due times move
with every retry; one pass keeps the row that is due first, and among equals the oldest. -/

namespace Nssf

open Base Run

namespace RetryStore

variable {q q' : RetryStore} {now : ℤ} {row : Row} {e e' : Env}

/-- The ids are those that were given out, each to one row. -/
structure Distinct (q : RetryStore) : Prop where
  nodup : (q.rows.map Row.id).Nodup
  below : ∀ r ∈ q.rows, r.id < q.nextId

theorem Distinct.removeId (h : q.Distinct) (id : ℕ) : (q.removeId id).Distinct where
  nodup := nodup_removeKey h.nodup
  below r hr := h.below r (mem_removeKey.1 hr).1

theorem Distinct.updateId (h : q.Distinct) (id : ℕ) {f : Row → Row} (hf : ∀ r, (f r).id = r.id) :
    (q.updateId id f).Distinct where
  nodup := by
    simp only [RetryStore.updateId]
    rw [map_key_updateKey hf]
    exact h.nodup
  below r hr := by
    rcases mem_updateKey.1 hr with ⟨b, hb, -, rfl⟩ | ⟨hb, -⟩
    · rw [hf]
      exact h.below b hb
    · exact h.below r hb

theorem Distinct.append (h : q.Distinct) (hrow : row.id = q.nextId) :
    (⟨q.rows ++ [row], q.nextId + 1⟩ : RetryStore).Distinct where
  nodup := by
    have hnew : q.nextId ∉ q.rows.map Row.id := by
      intro hmem
      obtain ⟨r, hr, heq⟩ := List.mem_map.1 hmem
      have hlt := h.below r hr
      omega
    simp only [List.map_append, List.map_cons, List.map_nil, hrow]
    exact List.nodup_append.2 ⟨h.nodup, List.nodup_singleton _, by
      intro a ha b hb
      rw [List.mem_singleton.1 hb]
      rintro rfl
      exact hnew ha⟩
  below r hr := by
    rcases List.mem_append.1 hr with hr | hr
    · have hlt := h.below r hr
      exact Nat.lt_succ_of_lt hlt
    · rw [List.mem_singleton.1 hr, hrow]
      exact Nat.lt_succ_self _

/-- The order of the claims. -/
def claimKey (r : Row) : ℤ ×ₗ ℕ := toLex (r.dueAtMs, r.id)

theorem before_iff (r p : Row) : before r p = true ↔ claimKey r < claimKey p := by
  simp only [before, claimKey, Prod.Lex.toLex_lt_toLex, Bool.or_eq_true, Bool.and_eq_true,
    decide_eq_true_eq, beq_iff_eq]

/-- The one pass over the rows finds the least of the due ones. -/
theorem pickDue_eq (q : RetryStore) (now : ℤ) :
    q.pickDue now =
      (q.rows.zipIdx.filter fun r => due now r.1).argmin fun r => claimKey r.1 := by
  simp only [pickDue, List.argmin, List.foldl_filter]
  congr 1
  funext pick r
  by_cases hdue : due now r.1 = true
  · simp only [pickStep, hdue, if_true]
    cases pick with
    | none => rfl
    | some p =>
      simp only [List.argAux]
      exact if_congr (before_iff r.1 p.1) rfl rfl
  · simp only [pickStep, hdue]
    rfl

/-- The row that a dequeue at `now` has to take: due, and before every other due row. -/
structure EarliestDue (q : RetryStore) (now : ℤ) (row : Row) : Prop where
  mem : row ∈ q.rows
  isDue : due now row = true
  first : ∀ p ∈ q.rows, due now p = true →
    row.dueAtMs < p.dueAtMs ∨ (row.dueAtMs = p.dueAtMs ∧ row.id ≤ p.id)

theorem pickDue_none (h : q.pickDue now = none) : ∀ r ∈ q.rows, due now r = false := by
  rw [pickDue_eq, List.argmin_eq_none, List.filter_eq_nil_iff] at h
  intro r hr
  obtain ⟨i, hi, rfl⟩ := List.mem_iff_getElem.1 hr
  have hmem : (q.rows[i], i) ∈ q.rows.zipIdx :=
    List.mk_mem_zipIdx_iff_getElem?.2 (List.getElem?_eq_getElem hi)
  exact Bool.eq_false_iff.2 (h _ hmem)

theorem pickDue_earliest {i : ℕ} (h : q.pickDue now = some (row, i)) :
    q.EarliestDue now row := by
  obtain ⟨hrow, hdue⟩ := pickDue_spec h
  refine ⟨List.mem_of_getElem? hrow, hdue, ?_⟩
  intro p hp hpdue
  obtain ⟨j, hj, rfl⟩ := List.mem_iff_getElem.1 hp
  have hmem : (q.rows[j], j) ∈ q.rows.zipIdx.filter fun r => due now r.1 :=
    List.mem_filter.2 ⟨List.mk_mem_zipIdx_iff_getElem?.2 (List.getElem?_eq_getElem hj), hpdue⟩
  rw [pickDue_eq] at h
  have hle := List.le_of_mem_argmin hmem h
  simpa only [claimKey, Prod.Lex.toLex_le_toLex] using hle

/-- What the claim of a row comes to: nothing when one of the two copies is refused, its removal
when the envelope does not split, and otherwise the mark on it and its parts. -/
inductive ClaimOutcome (q : RetryStore) (row : Row) (e e' : Env) : Dequeued → RetryStore → Prop
  | starved (refused : e.alloc.head = false ∨ e.popAlloc.alloc.head = false) :
      ClaimOutcome q row e e' .error q
  | quarantined (copied : e.alloc.head = true ∧ e.popAlloc.alloc.head = true)
      (split : envelopeSplit row.envelope e.popAlloc.popAlloc = .ok (none, e')) :
      ClaimOutcome q row e e' .none (q.removeId row.id)
  | claimed {parts : EnvelopeParts}
      (copied : e.alloc.head = true ∧ e.popAlloc.alloc.head = true)
      (split : envelopeSplit row.envelope e.popAlloc.popAlloc = .ok (some parts, e')) :
      ClaimOutcome q row e e'
        (.claimed ⟨row.id, row.subscriptionId, parts.callbackUri, parts.body,
          parts.correlationId, row.attemptCount⟩)
        (q.updateId row.id fun r => { r with claimed := true })

theorem ClaimOutcome.others {got : Dequeued} (h : ClaimOutcome q row e e' got q') :
    removeKey Row.id row.id q'.rows = removeKey Row.id row.id q.rows ∧
      q'.nextId = q.nextId := by
  cases h with
  | starved refused => exact ⟨rfl, rfl⟩
  | quarantined copied split => exact ⟨removeKey_removeKey row.id, rfl⟩
  | claimed copied split => exact ⟨removeKey_updateKey fun _ => rfl, rfl⟩

/-- Memory is short for a moment. -/
def starved : Env := { Env.quiet with alloc := Stream'.const false }

end RetryStore

end Nssf
