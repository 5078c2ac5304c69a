import Mathlib.Data.Rat.Floor
import Nssf.Base.KeyedList
import Nssf.Base.Transition
import Nssf.Dispatcher.RetryStore

/-! The retry queue in PostgreSQL, as far as its schedule goes. A dequeue opens a transaction
and leaves it open until the store call that resolves the row, so `NOW()` in that call is the
time of the dequeue and not of the call. Times are microseconds of the server's clock. -/

namespace Nssf.Pg

open Base

structure PgRow where
  id : ℕ
  subscriptionId : String
  payload : String
  attemptCount : ℕ
  nextAttemptAt : ℤ
  status : RowStatus
  deriving DecidableEq, Repr

/-- An open transaction: when it began, the row it locks with the count read then, and when
the transport returned. -/
structure Tx where
  start : ℤ
  rowId : ℕ
  attemptCount : ℕ
  ended : Option ℤ
  deriving DecidableEq, Repr

/-- `rint`, to nearest with ties to even. -/
def rint (q : ℚ) : ℤ :=
  let r := q - q.floor
  if r < 1 / 2 then q.floor
  else if 1 / 2 < r then q.floor + 1
  else if q.floor % 2 = 0 then q.floor else q.floor + 1

/-- `LEAST(base * 2 ^ n, max)` in milliseconds. -/
def cappedMs (n : ℕ) : ℤ := min (dispatchBackoffBaseMs * 2 ^ n) dispatchBackoffMaxMs

def cappedUs (n : ℕ) : ℤ := 1000 * cappedMs n

/-- The interval added to `NOW()`, for the draw `u` of `random()`. -/
def delayUs (n : ℕ) (u : ℚ) : ℤ :=
  rint ((cappedMs n + u * (cappedMs n / 2)) * 1000)

def jitterUs (n : ℕ) (u : ℚ) : ℤ := delayUs n u - cappedUs n

inductive PgEvent where
  | claimed (id : ℕ) (at_ : ℤ)
  -- the transport returned at `ended`, and the row was re-armed at count `n`
  | rearmed (id : ℕ) (ended : ℤ) (n : ℕ)
  deriving DecidableEq, Repr

structure PgSystem (ι : Type) where
  rows : List PgRow
  nextId : ℕ
  tx : ι → Option Tx
  now : ℤ
  log : List PgEvent

variable {ι : Type} [DecidableEq ι]

def PgSystem.Locked (s : PgSystem ι) (id : ℕ) : Prop := ∃ i t, s.tx i = some t ∧ t.rowId = id

/-- The rows the claiming `SELECT` ranges over. -/
def PgSystem.Due (s : PgSystem ι) (r : PgRow) : Prop :=
  r ∈ s.rows ∧ r.status = .pending ∧ r.nextAttemptAt ≤ s.now ∧ ¬ s.Locked r.id

/-- The row it returns: the first by due time, then by id. -/
def PgSystem.Selected (s : PgSystem ι) (r : PgRow) : Prop :=
  s.Due r ∧ ∀ b, s.Due b → r.nextAttemptAt < b.nextAttemptAt ∨
    (r.nextAttemptAt = b.nextAttemptAt ∧ r.id ≤ b.id)

def rearm (u : ℚ) (start : ℤ) (r : PgRow) : PgRow :=
  if r.status = .pending then
    { r with attemptCount := r.attemptCount + 1,
             nextAttemptAt := start + delayUs r.attemptCount u }
  else r

inductive Label where
  | tick
  | enqueue
  | dequeue
  | ended
  | requeue (start : ℤ) (ended : Option ℤ) (n : ℕ) (u : ℚ)
  | resolve
  deriving DecidableEq, Repr

def rearmedEvents (t : Tx) : List PgEvent :=
  match t.ended with
  | some ended => [.rearmed t.rowId ended t.attemptCount]
  | none => []

inductive PgStep (s : PgSystem ι) : Label → PgSystem ι → Prop
  | tick (now : ℤ) (h : s.now ≤ now) : PgStep s .tick { s with now := now }
  | enqueue (sub envelope : String) :
      PgStep s .enqueue { s with
        rows := s.rows ++ [⟨s.nextId, sub, envelope, 0, s.now, .pending⟩]
        nextId := s.nextId + 1 }
  | claim (i : ι) (r : PgRow) (hi : s.tx i = none) (hr : s.Selected r) :
      PgStep s .dequeue { s with
        tx := Function.update s.tx i (some ⟨s.now, r.id, r.attemptCount, none⟩)
        log := .claimed r.id s.now :: s.log }
  | quarantine (i : ι) (r : PgRow) (hi : s.tx i = none) (hr : s.Selected r) :
      PgStep s .dequeue { s with rows := removeKey PgRow.id r.id s.rows }
  -- no due row, or a failure that is rolled back
  | dequeueNone (i : ι) (hi : s.tx i = none) : PgStep s .dequeue s
  | ended (i : ι) (t : Tx) (hi : s.tx i = some t) (ht : t.ended = none) :
      PgStep s .ended { s with tx := Function.update s.tx i (some { t with ended := some s.now }) }
  | requeue (i : ι) (t : Tx) (u : ℚ) (hu : 0 ≤ u ∧ u < 1) (hi : s.tx i = some t) :
      PgStep s (.requeue t.start t.ended t.attemptCount u) { s with
        rows := updateKey PgRow.id t.rowId (rearm u t.start) s.rows
        tx := Function.update s.tx i none
        log := rearmedEvents t ++ s.log }
  | complete (i : ι) (t : Tx) (hi : s.tx i = some t) :
      PgStep s .resolve { s with
        rows := removeKey PgRow.id t.rowId s.rows
        tx := Function.update s.tx i none }
  | deadLetter (i : ι) (t : Tx) (hi : s.tx i = some t) :
      PgStep s .resolve { s with
        rows := updateKey PgRow.id t.rowId (fun r => { r with status := .deadLetter }) s.rows
        tx := Function.update s.tx i none }
  | rollback (i : ι) (t : Tx) (hi : s.tx i = some t) :
      PgStep s .resolve { s with tx := Function.update s.tx i none }

def PgSystem.init : PgSystem ι := ⟨[], 1, fun _ => none, 0, []⟩

/-- Newest first: a claim comes no earlier than the backoff after every attempt before it. -/
def Spaced (log : List PgEvent) : Prop :=
  ∀ later earlier id ended n, log = later ++ .rearmed id ended n :: earlier →
    ∀ at_, .claimed id at_ ∈ later → ended + cappedUs n ≤ at_

/-- The attempt took no longer than the jitter drawn for its re-arming. -/
def Prompt : Label → Prop
  | .requeue start (some ended) n u => ended - start ≤ jitterUs n u
  | _ => True

theorem spaced_claimed {log : List PgEvent} {id : ℕ} {now : ℤ} (h : Spaced log)
    (hid : ∀ ended n, .rearmed id ended n ∈ log → ended + cappedUs n ≤ now) :
    Spaced (.claimed id now :: log) := by
  intro later earlier id' ended n hlog at_ hmem
  cases later with
  | nil => cases hmem
  | cons x later =>
    injection hlog with hx hlog
    subst hx
    rcases List.mem_cons.1 hmem with he | hmem
    · injection he with hi ha
      subst hi ha
      apply hid ended n
      rw [hlog]
      exact List.mem_append_right _ List.mem_cons_self
    · exact h later earlier id' ended n hlog at_ hmem

theorem spaced_rearmed {log : List PgEvent} {id : ℕ} {ended : ℤ} {n : ℕ} (h : Spaced log) :
    Spaced (.rearmed id ended n :: log) := by
  intro later earlier id' ended' n' hlog at_ hmem
  cases later with
  | nil => cases hmem
  | cons x later =>
    injection hlog with hx hlog
    subst hx
    rcases List.mem_cons.1 hmem with he | hmem
    · cases he
    · exact h later earlier id' ended' n' hlog at_ hmem

structure Barred (s : PgSystem ι) : Prop where
  nodup : (s.rows.map PgRow.id).Nodup
  row_ids : ∀ r ∈ s.rows, r.id < s.nextId
  tx_ids : ∀ i t, s.tx i = some t → t.rowId < s.nextId
  log_ids : ∀ id ended n, .rearmed id ended n ∈ s.log → id < s.nextId
  exclusive : ∀ i j t t', s.tx i = some t → s.tx j = some t' → t.rowId = t'.rowId → i = j
  snapshot : ∀ i t, s.tx i = some t → ∀ r ∈ s.rows, r.id = t.rowId →
    r.attemptCount = t.attemptCount
  barred : ∀ ended n, ∀ r ∈ s.rows, .rearmed r.id ended n ∈ s.log →
    r.status = .pending → ended + cappedUs n ≤ r.nextAttemptAt ∨ ended + cappedUs n ≤ s.now
  past : ∀ i t, s.tx i = some t → ∀ ended n, .rearmed t.rowId ended n ∈ s.log →
    ended + cappedUs n ≤ s.now
  spaced : Spaced s.log

omit [DecidableEq ι] in
theorem init_barred : Barred (PgSystem.init : PgSystem ι) where
  nodup := List.nodup_nil
  row_ids := by simp [PgSystem.init]
  tx_ids := by simp [PgSystem.init]
  log_ids := by simp [PgSystem.init]
  exclusive := by simp [PgSystem.init]
  snapshot := by simp [PgSystem.init]
  barred := by simp [PgSystem.init]
  past := by simp [PgSystem.init]
  spaced := by
    intro later earlier id ended n hlog
    simp [PgSystem.init] at hlog

theorem tx_of_update {tx : ι → Option Tx} {i j : ι} {t : Tx}
    (h : Function.update tx i none j = some t) : tx j = some t := by
  by_cases hj : j = i
  · subst hj
    rw [Function.update_self] at h
    cases h
  · rwa [Function.update_of_ne hj] at h

theorem ne_of_tx_update {tx : ι → Option Tx} {i j : ι} {t : Tx}
    (h : Function.update tx i none j = some t) : j ≠ i := by
  intro hj
  subst hj
  rw [Function.update_self] at h
  cases h

/-- A store call that ends a transaction and keeps or drops rows without re-arming any. -/
theorem Barred.release {s : PgSystem ι} (h : Barred s) (i : ι) (rows : List PgRow)
    (hn : (rows.map PgRow.id).Nodup)
    (hrows : ∀ r ∈ rows, ∃ c ∈ s.rows, c.id = r.id ∧ c.attemptCount = r.attemptCount ∧
      c.nextAttemptAt = r.nextAttemptAt ∧ (r.status = .pending → c.status = .pending)) :
    Barred { s with rows := rows, tx := Function.update s.tx i none } where
  nodup := hn
  row_ids r hr := by
    obtain ⟨c, hc, hid, -⟩ := hrows r hr
    rw [← hid]
    exact h.row_ids c hc
  tx_ids j t hj := h.tx_ids j t (tx_of_update hj)
  log_ids := h.log_ids
  exclusive j k t t' hj hk := h.exclusive j k t t' (tx_of_update hj) (tx_of_update hk)
  snapshot j t hj r hr hid := by
    obtain ⟨c, hc, hcid, hcount, -⟩ := hrows r hr
    rw [← hcount]
    exact h.snapshot j t (tx_of_update hj) c hc (hcid.trans hid)
  barred ended n r hr hmem hst := by
    obtain ⟨c, hc, hcid, -, hnext, hpend⟩ := hrows r hr
    rw [← hnext]
    exact h.barred ended n c hc (hcid ▸ hmem) (hpend hst)
  past j t hj := h.past j t (tx_of_update hj)
  spaced := h.spaced

theorem claim_barred {s : PgSystem ι} (h : Barred s) {i : ι} {r : PgRow} (hi : s.tx i = none)
    (hr : s.Selected r) :
    Barred { s with
      tx := Function.update s.tx i (some ⟨s.now, r.id, r.attemptCount, none⟩)
      log := .claimed r.id s.now :: s.log } := by
  obtain ⟨⟨hmem, hpend, hdue, hfree⟩, -⟩ := hr
  have hpast : ∀ ended n, .rearmed r.id ended n ∈ s.log → ended + cappedUs n ≤ s.now := by
    intro ended n hlog
    rcases h.barred ended n r hmem hlog hpend with hb | hb
    · exact hb.trans hdue
    · exact hb
  have hrearmed : ∀ {id ended n}, PgEvent.rearmed id ended n ∈ .claimed r.id s.now :: s.log →
      .rearmed id ended n ∈ s.log := by
    intro id ended n hlog
    rcases List.mem_cons.1 hlog with he | hlog
    · cases he
    · exact hlog
  -- the transaction of `j` is the new one or an old one
  have htx : ∀ j t, Function.update s.tx i (some ⟨s.now, r.id, r.attemptCount, none⟩) j =
      some t → (j = i ∧ t = ⟨s.now, r.id, r.attemptCount, none⟩) ∨ (j ≠ i ∧ s.tx j = some t) := by
    intro j t hj
    by_cases hji : j = i
    · subst hji
      rw [Function.update_self] at hj
      exact Or.inl ⟨rfl, (Option.some.inj hj).symm⟩
    · rw [Function.update_of_ne hji] at hj
      exact Or.inr ⟨hji, hj⟩
  refine ⟨h.nodup, h.row_ids, ?_, ?_, ?_, ?_, ?_, ?_, spaced_claimed h.spaced hpast⟩
  · intro j t hj
    rcases htx j t hj with ⟨-, rfl⟩ | ⟨-, hj⟩
    · exact h.row_ids r hmem
    · exact h.tx_ids j t hj
  · intro id ended n hlog
    exact h.log_ids id ended n (hrearmed hlog)
  · intro j k t t' hj hk hid
    rcases htx j t hj with ⟨rfl, rfl⟩ | ⟨-, hj₀⟩
    · rcases htx k t' hk with ⟨rfl, rfl⟩ | ⟨-, hk₀⟩
      · rfl
      · exact absurd ⟨k, t', hk₀, hid.symm⟩ hfree
    · rcases htx k t' hk with ⟨rfl, rfl⟩ | ⟨-, hk₀⟩
      · exact absurd ⟨j, t, hj₀, hid⟩ hfree
      · exact h.exclusive j k t t' hj₀ hk₀ hid
  · intro j t hj b hb hid
    rcases htx j t hj with ⟨-, rfl⟩ | ⟨-, hj⟩
    · rw [eq_of_key_eq h.nodup hb hmem hid]
    · exact h.snapshot j t hj b hb hid
  · intro ended n b hb hlog hst
    exact h.barred ended n b hb (hrearmed hlog) hst
  · intro j t hj ended n hlog
    rcases htx j t hj with ⟨-, rfl⟩ | ⟨-, hj⟩
    · exact hpast ended n (hrearmed hlog)
    · exact h.past j t hj ended n (hrearmed hlog)

theorem requeue_barred {s : PgSystem ι} (h : Barred s) {i : ι} {t : Tx} {u : ℚ}
    (hi : s.tx i = some t) (hp : Prompt (.requeue t.start t.ended t.attemptCount u)) :
    Barred { s with
      rows := updateKey PgRow.id t.rowId (rearm u t.start) s.rows
      tx := Function.update s.tx i none
      log := rearmedEvents t ++ s.log } := by
  have hid : ∀ r, (rearm u t.start r).id = r.id := by
    intro r
    unfold rearm
    split_ifs <;> rfl
  have hmem : ∀ {id ended n}, PgEvent.rearmed id ended n ∈ rearmedEvents t ++ s.log →
      (t.ended = some ended ∧ id = t.rowId ∧ n = t.attemptCount) ∨
        .rearmed id ended n ∈ s.log := by
    intro id ended n hlog
    rcases List.mem_append.1 hlog with hlog | hlog
    · left
      unfold rearmedEvents at hlog
      cases hend : t.ended with
      | none =>
        rw [hend] at hlog
        cases hlog
      | some x =>
        rw [hend] at hlog
        injection List.mem_singleton.1 hlog with h₁ h₂ h₃
        exact ⟨by rw [h₂], h₁, h₃⟩
    · exact Or.inr hlog
  refine ⟨?_, ?_, ?_, ?_, ?_, ?_, ?_, ?_, ?_⟩
  · change ((updateKey PgRow.id t.rowId (rearm u t.start) s.rows).map PgRow.id).Nodup
    rw [map_key_updateKey hid]
    exact h.nodup
  · intro r hr
    rcases mem_updateKey.1 hr with ⟨c, hc, -, rfl⟩ | ⟨hr, -⟩
    · rw [hid]
      exact h.row_ids c hc
    · exact h.row_ids r hr
  · intro j t' hj
    exact h.tx_ids j t' (tx_of_update hj)
  · intro id ended n hlog
    rcases hmem hlog with ⟨-, rfl, -⟩ | hlog
    · exact h.tx_ids i t hi
    · exact h.log_ids id ended n hlog
  · intro j k t' t'' hj hk
    exact h.exclusive j k t' t'' (tx_of_update hj) (tx_of_update hk)
  · intro j t' hj r hr hrid
    have hj' := tx_of_update hj
    have hne : t'.rowId ≠ t.rowId := fun he =>
      ne_of_tx_update hj (h.exclusive j i t' t hj' hi he)
    rcases mem_updateKey.1 hr with ⟨c, -, hcid, rfl⟩ | ⟨hr, -⟩
    · rw [hid] at hrid
      exact absurd (hrid.symm.trans hcid) hne
    · exact h.snapshot j t' hj' r hr hrid
  · intro ended n r hr hlog hst
    rcases mem_updateKey.1 hr with ⟨c, hc, hcid, rfl⟩ | ⟨hr, hrid⟩
    · rw [hid, hcid] at hlog
      rcases hmem hlog with ⟨hend, -, rfl⟩ | hlog
      · left
        have hcount := h.snapshot i t hi c hc hcid
        have hpend : c.status = .pending := by
          by_contra hc'
          simp only [rearm, if_neg hc'] at hst
          exact hc' hst
        have hnext : (rearm u t.start c).nextAttemptAt =
            t.start + delayUs t.attemptCount u := by
          simp only [rearm, if_pos hpend, hcount]
        have hprompt : ended - t.start ≤ jitterUs t.attemptCount u := by
          rw [hend] at hp
          exact hp
        rw [hnext]
        unfold jitterUs at hprompt
        omega
      · exact Or.inr (h.past i t hi ended n hlog)
    · rcases hmem hlog with ⟨-, hrid', -⟩ | hlog
      · exact absurd hrid' hrid
      · exact h.barred ended n r hr hlog hst
  · intro j t' hj ended n hlog
    have hj' := tx_of_update hj
    rcases hmem hlog with ⟨-, hid', -⟩ | hlog
    · exact absurd (h.exclusive j i t' t hj' hi hid') (ne_of_tx_update hj)
    · exact h.past j t' hj' ended n hlog
  · change Spaced (rearmedEvents t ++ s.log)
    unfold rearmedEvents
    cases t.ended with
    | none => exact h.spaced
    | some x => exact spaced_rearmed h.spaced

theorem ended_barred {s : PgSystem ι} (h : Barred s) {i : ι} {t : Tx} (hi : s.tx i = some t) :
    Barred { s with tx := Function.update s.tx i (some { t with ended := some s.now }) } := by
  have htx : ∀ j t', Function.update s.tx i (some { t with ended := some s.now }) j = some t' →
      ∃ t₀, s.tx j = some t₀ ∧ t₀.rowId = t'.rowId ∧ t₀.attemptCount = t'.attemptCount := by
    intro j t' hj
    by_cases hji : j = i
    · subst hji
      rw [Function.update_self] at hj
      obtain rfl := Option.some.inj hj
      exact ⟨t, hi, rfl, rfl⟩
    · rw [Function.update_of_ne hji] at hj
      exact ⟨t', hj, rfl, rfl⟩
  refine ⟨h.nodup, h.row_ids, ?_, h.log_ids, ?_, ?_, h.barred, ?_, h.spaced⟩
  · intro j t' hj
    obtain ⟨t₀, h₀, hid, -⟩ := htx j t' hj
    rw [← hid]
    exact h.tx_ids j t₀ h₀
  · intro j k t' t'' hj hk hid
    obtain ⟨t₀, h₀, hid₀, -⟩ := htx j t' hj
    obtain ⟨t₁, h₁, hid₁, -⟩ := htx k t'' hk
    exact h.exclusive j k t₀ t₁ h₀ h₁ (hid₀.trans (hid.trans hid₁.symm))
  · intro j t' hj r hr hrid
    obtain ⟨t₀, h₀, hid, hcount⟩ := htx j t' hj
    rw [← hcount]
    exact h.snapshot j t₀ h₀ r hr (hrid.trans hid.symm)
  · intro j t' hj ended n hlog
    obtain ⟨t₀, h₀, hid, -⟩ := htx j t' hj
    rw [← hid] at hlog
    exact h.past j t₀ h₀ ended n hlog

omit [DecidableEq ι] in
theorem enqueue_barred {s : PgSystem ι} (h : Barred s) (sub envelope : String) :
    Barred { s with
      rows := s.rows ++ [⟨s.nextId, sub, envelope, 0, s.now, .pending⟩]
      nextId := s.nextId + 1 } := by
  have hlt : ∀ {m : ℕ}, m < s.nextId → m < s.nextId + 1 := fun hm => hm.trans (Nat.lt_succ_self _)
  have hnew : ∀ {r : PgRow}, r ∈ s.rows ++ [⟨s.nextId, sub, envelope, 0, s.now, .pending⟩] →
      r ∈ s.rows ∨ r.id = s.nextId := by
    intro r hr
    rcases List.mem_append.1 hr with hr | hr
    · exact Or.inl hr
    · rw [List.mem_singleton.1 hr]
      exact Or.inr rfl
  refine ⟨?_, ?_, fun j t hj => hlt (h.tx_ids j t hj),
    fun id ended n hlog => hlt (h.log_ids id ended n hlog), h.exclusive, ?_, ?_, h.past, h.spaced⟩
  · change ((s.rows ++ [_]).map PgRow.id).Nodup
    rw [List.map_append, List.nodup_append]
    refine ⟨h.nodup, by simp, ?_⟩
    intro a ha b hb
    obtain ⟨r, hr, rfl⟩ := List.mem_map.1 ha
    simp only [List.map_cons, List.map_nil, List.mem_singleton] at hb
    rw [hb]
    exact (h.row_ids r hr).ne
  · intro r hr
    rcases hnew hr with hr | hr
    · exact hlt (h.row_ids r hr)
    · rw [hr]
      exact Nat.lt_succ_self _
  · intro j t hj r hr hid
    rcases hnew hr with hr | hr
    · exact h.snapshot j t hj r hr hid
    · exact absurd (hid.symm.trans hr) (h.tx_ids j t hj).ne
  · intro ended n r hr hlog hst
    rcases hnew hr with hr | hr
    · exact h.barred ended n r hr hlog hst
    · exact absurd hr (h.log_ids _ ended n hlog).ne

theorem step_barred {s s' : PgSystem ι} {l : Label} (h : Barred s) (hl : Prompt l)
    (hs : PgStep s l s') : Barred s' := by
  cases hs with
  | tick now hnow =>
    refine ⟨h.nodup, h.row_ids, h.tx_ids, h.log_ids, h.exclusive, h.snapshot, ?_, ?_, h.spaced⟩
    · intro ended n r hr hlog hst
      exact (h.barred ended n r hr hlog hst).imp_right fun hb => hb.trans hnow
    · intro i t hi ended n hlog
      exact (h.past i t hi ended n hlog).trans hnow
  | enqueue sub envelope => exact enqueue_barred h sub envelope
  | claim i r hi hr => exact claim_barred h hi hr
  | quarantine i r hi hr =>
    have hrel := h.release i (removeKey PgRow.id r.id s.rows) (nodup_removeKey h.nodup)
      fun b hb => ⟨b, (mem_removeKey.1 hb).1, rfl, rfl, rfl, id⟩
    rwa [Function.update_eq_self_iff.2 hi.symm] at hrel
  | dequeueNone i hi => exact h
  | ended i t hi ht => exact ended_barred h hi
  | requeue i t u hu hi => exact requeue_barred h hi hl
  | complete i t hi =>
    exact h.release i _ (nodup_removeKey h.nodup)
      fun b hb => ⟨b, (mem_removeKey.1 hb).1, rfl, rfl, rfl, id⟩
  | deadLetter i t hi =>
    have hk : ∀ r : PgRow, ({ r with status := .deadLetter } : PgRow).id = r.id := fun _ => rfl
    refine h.release i _ ?_ ?_
    · rw [map_key_updateKey hk]
      exact h.nodup
    · intro b hb
      rcases mem_updateKey.1 hb with ⟨c, hc, -, rfl⟩ | ⟨hb, -⟩
      · exact ⟨c, hc, rfl, rfl, rfl, fun hst => by cases hst⟩
      · exact ⟨b, hb, rfl, rfl, rfl, id⟩
  | rollback i t hi =>
    exact h.release i _ h.nodup fun b hb => ⟨b, hb, rfl, rfl, rfl, id⟩

/-- In a run whose re-armed attempts are all prompt, every claim keeps the backoff. -/
theorem run_spaced {s : PgSystem ι} {ls : List Label}
    (h : Trace PgStep (PgSystem.init : PgSystem ι) ls s) (hl : ∀ l ∈ ls, Prompt l) :
    Spaced s.log :=
  (h.invariant init_barred hl fun _ _ _ => step_barred).spaced

theorem cappedUs_pos (n : ℕ) : 0 < cappedUs n := by
  have hpow : (0 : ℤ) < 2 ^ n := by positivity
  unfold cappedUs cappedMs dispatchBackoffBaseMs dispatchBackoffMaxMs
  omega

/-- One re-arming keeps the backoff for every later claim exactly when the attempt was
prompt. -/
theorem rearm_spaced_iff {r : PgRow} (hr : r.status = .pending) (start ended : ℤ) (u : ℚ) :
    (∀ now, ended ≤ now → (rearm u start r).nextAttemptAt ≤ now →
      ended + cappedUs r.attemptCount ≤ now) ↔
      Prompt (.requeue start (some ended) r.attemptCount u) := by
  have hnext : (rearm u start r).nextAttemptAt = start + delayUs r.attemptCount u := by
    simp only [rearm, if_pos hr]
  have hpos := cappedUs_pos r.attemptCount
  rw [hnext]
  simp only [Prompt, jitterUs]
  constructor
  · intro h
    have hmax := h (max ended (start + delayUs r.attemptCount u)) (le_max_left _ _)
      (le_max_right _ _)
    omega
  · intro h now _ hdue
    omega

/-- A notification tried at time zero, for `d` microseconds, and claimed again `w` later. -/
def retried (d w : ℤ) : PgSystem Unit where
  rows := [⟨1, "s", "\x7b\x7d", 1, 200000, .pending⟩]
  nextId := 2
  tx := fun _ => some ⟨d + w, 1, 1, none⟩
  now := d + w
  log := [.claimed 1 (d + w), .rearmed 1 d 0, .claimed 1 0]

theorem selected_only {s : PgSystem Unit} {r : PgRow} (hrows : s.rows = [r])
    (hst : r.status = .pending) (hdue : r.nextAttemptAt ≤ s.now) (htx : s.tx = fun _ => none) :
    s.Selected r := by
  refine ⟨⟨by simp [hrows], hst, hdue, ?_⟩, ?_⟩
  · intro hl
    obtain ⟨i, t, hi, -⟩ := hl
    simp [htx] at hi
  · intro b hb
    have hbr : b = r := by simpa [hrows] using hb.1
    exact Or.inr ⟨by rw [hbr], by rw [hbr]⟩

theorem retried_trace {d w : ℤ} (hd : 0 ≤ d) (hw : 0 ≤ w) (hdue : 200000 ≤ d + w) :
    Trace PgStep PgSystem.init
      [.enqueue, .dequeue, .tick, .ended, .requeue 0 (some d) 0 0, .tick, .dequeue]
      (retried d w) := by
  let row : PgRow := ⟨1, "s", "\x7b\x7d", 0, 0, .pending⟩
  let s₁ : PgSystem Unit := ⟨[row], 2, fun _ => none, 0, []⟩
  let s₂ : PgSystem Unit := ⟨[row], 2, fun _ => some ⟨0, 1, 0, none⟩, 0, [.claimed 1 0]⟩
  let s₃ : PgSystem Unit := { s₂ with now := d }
  let s₄ : PgSystem Unit := { s₃ with tx := fun _ => some ⟨0, 1, 0, some d⟩ }
  let row' : PgRow := ⟨1, "s", "\x7b\x7d", 1, 200000, .pending⟩
  let s₅ : PgSystem Unit := ⟨[row'], 2, fun _ => none, d, [.rearmed 1 d 0, .claimed 1 0]⟩
  let s₆ : PgSystem Unit := { s₅ with now := d + w }
  have hupd : ∀ (f : Unit → Option Tx) x, Function.update f () x = fun _ => x := by
    intro f x
    funext j
    simp
  have h₁ : PgStep PgSystem.init .enqueue s₁ := PgStep.enqueue "s" "\x7b\x7d"
  have h₂ : PgStep s₁ .dequeue s₂ := by
    have h := PgStep.claim () row rfl (selected_only (s := s₁) rfl rfl le_rfl rfl)
    rwa [hupd] at h
  have h₃ : PgStep s₂ .tick s₃ := PgStep.tick d hd
  have h₄ : PgStep s₃ .ended s₄ := by
    have h := PgStep.ended (s := s₃) () ⟨0, 1, 0, none⟩ rfl rfl
    rwa [hupd] at h
  have h₅ : PgStep s₄ (.requeue 0 (some d) 0 0) s₅ := by
    have h := PgStep.requeue (s := s₄) () ⟨0, 1, 0, some d⟩ 0 (by norm_num) rfl
    have hdelay : rearm 0 0 row = row' := by decide +kernel
    rw [hupd] at h
    have hrows : updateKey PgRow.id 1 (rearm 0 0) [row] = [row'] := by
      simp only [updateKey, List.map_cons, List.map_nil, hdelay]
      rfl
    simp only [s₄, s₃, s₂, hrows] at h
    exact h
  have h₆ : PgStep s₅ .tick s₆ := PgStep.tick (d + w) (by simp only [s₅]; omega)
  have h₇ : PgStep s₆ .dequeue (retried d w) := by
    have h := PgStep.claim () row' rfl (selected_only (s := s₆) rfl rfl hdue rfl)
    rwa [hupd] at h
  exact ((((((Trace.nil _).snoc h₁).snoc h₂).snoc h₃).snoc h₄).snoc h₅ |>.snoc h₆).snoc h₇

/-- An instant attempt, and a claim after the backoff of 200 ms. -/
theorem run_spaced_instant : Spaced (retried 0 200000).log := by
  refine run_spaced (retried_trace le_rfl (by norm_num) (by norm_num)) ?_
  intro l hl
  simp only [List.mem_cons, List.not_mem_nil, or_false] at hl
  rcases hl with rfl | rfl | rfl | rfl | rfl | rfl | rfl
  all_goals first | trivial | (simp only [Prompt]; decide +kernel)

/-- A transport that takes five seconds leaves a row that is due at once. -/
theorem run_not_spaced_slow :
    ∃ ls, Trace PgStep PgSystem.init ls (retried 5000000 0) ∧ ¬ Spaced (retried 5000000 0).log := by
  refine ⟨_, retried_trace (by norm_num) le_rfl (by norm_num), ?_⟩
  intro h
  have hbad := h [.claimed 1 5000000] [.claimed 1 0] 1 5000000 0 rfl 5000000 (by simp)
  have hpos := cappedUs_pos 0
  omega

end Nssf.Pg
