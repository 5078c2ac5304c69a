import Mathlib.Algebra.BigOperators.Group.List.Basic
import Mathlib.Data.Fintype.Order
import Mathlib.Data.List.Nodup
import Mathlib.Logic.Function.Basic
import Mathlib.Order.WellFounded
import Mathlib.Tactic.Linarith

/-! Sorting a graph by counts of open predecessors. A node joins the queue when its count
comes to zero, and visiting a node lowers the counts of its successors. Which nodes are visited
does not depend on the order in which the queue is served. -/

namespace Nssf.Base.Kahn

variable {α : Type}

structure Worklist (α : Type) where
  queue : List α
  order : List α
  indeg : α → ℤ

def start (nodes : List α) (deg : α → ℕ) : Worklist α where
  queue := nodes.filter fun k => deg k = 0
  order := []
  indeg := fun k => deg k

/-- A way to serve the queue: it takes one node out and leaves the others. -/
structure Serves (take : List α → Option (α × List α)) : Prop where
  none : ∀ q, take q = none → q = []
  some : ∀ q n rest, take q = some (n, rest) → q.Perm (n :: rest)

def popLeft : List α → Option (α × List α)
  | [] => none
  | n :: rest => some (n, rest)

def popRight (q : List α) : Option (α × List α) := q.getLast?.map fun n => (n, q.dropLast)

theorem serves_popLeft : Serves (popLeft (α := α)) where
  none q h := by
    cases q with
    | nil => rfl
    | cons n rest => cases h
  some q n rest h := by
    cases q with
    | nil => cases h
    | cons m q =>
      cases h
      exact List.Perm.refl _

theorem serves_popRight : Serves (popRight (α := α)) where
  none q h := by simpa [popRight] using h
  some q n rest h := by
    obtain ⟨m, hlast, heq⟩ := Option.map_eq_some_iff.1 h
    cases heq
    have hq : q = q.dropLast ++ [n] := (List.dropLast_append_getLast? n hlast).symm
    rw [hq, List.dropLast_concat]
    exact List.perm_append_singleton n q.dropLast

/-- The counts so far, and who has joined the queue by them. -/
structure Sound (nodes : List α) (deg paid : α → ℕ) (s : Worklist α) : Prop where
  nodup : (s.order ++ s.queue).Nodup
  known : ∀ k ∈ s.order ++ s.queue, k ∈ nodes
  count : ∀ k, s.indeg k = deg k - paid k
  joined : ∀ k ∈ nodes, k ∈ s.order ++ s.queue ↔ s.indeg k ≤ 0

theorem sound_start {nodes : List α} (hn : nodes.Nodup) (deg : α → ℕ) :
    Sound nodes deg (fun _ => 0) (start nodes deg) where
  nodup := hn.filter _
  known k hk := (List.mem_filter.1 hk).1
  count k := by simp [start]
  joined k hk := by simp [start, hk]

variable [DecidableEq α]

def release (s : Worklist α) (k : α) : Worklist α :=
  let left := s.indeg k - 1
  { s with
    indeg := Function.update s.indeg k left
    queue := if left = 0 then s.queue ++ [k] else s.queue }

def visit (succ : α → List α) (s : Worklist α) (n : α) (rest : List α) : Worklist α :=
  (succ n).foldl release { s with queue := rest, order := s.order ++ [n] }

def drain (take : List α → Option (α × List α)) (succ : α → List α) :
    ℕ → Worklist α → Worklist α
  | 0, s => s
  | fuel + 1, s =>
    match take s.queue with
    | none => s
    | some (n, rest) => drain take succ fuel (visit succ s n rest)

/-- How often the nodes of a list release `k`. -/
def given (succ : α → List α) (l : List α) (k : α) : ℕ := (l.map fun n => (succ n).count k).sum

theorem given_append (succ : α → List α) (l m : List α) (k : α) :
    given succ (l ++ m) k = given succ l k + given succ m k := by
  simp only [given, List.map_append, List.sum_append]

theorem given_le_of_subset (succ : α → List α) {l m : List α} (k : α) (hl : l.Nodup)
    (h : l ⊆ m) : given succ l k ≤ given succ m k := by
  obtain ⟨l', hsame, hsub⟩ := List.subperm_of_subset hl h
  obtain ⟨rest, hperm⟩ := hsub.exists_perm_append
  have hsum := (hperm.map fun n => (succ n).count k).sum_eq
  have hsum' := (hsame.map fun n => (succ n).count k).sum_eq
  simp only [List.map_append, List.sum_append] at hsum
  simp only [given]
  omega

theorem Sound.release {nodes : List α} {deg paid : α → ℕ} {s : Worklist α}
    (h : Sound nodes deg paid s) {k : α} (hk : k ∈ nodes) :
    Sound nodes deg (fun j => paid j + [k].count j) (release s k) := by
  have hcount : ∀ j, (Kahn.release s k).indeg j = deg j - (paid j + [k].count j : ℕ) := by
    intro j
    simp only [Kahn.release, Function.update_apply, List.count_singleton]
    by_cases hj : j = k
    · rw [hj, if_pos rfl, h.count k]
      simp
      omega
    · rw [if_neg hj, h.count j]
      simp [Ne.symm hj]
  by_cases hzero : s.indeg k - 1 = 0
  · have hout : k ∉ s.order ++ s.queue := by
      rw [h.joined k hk]
      omega
    have hqueue : (Kahn.release s k).order ++ (Kahn.release s k).queue =
        (s.order ++ s.queue) ++ [k] := by
      simp only [Kahn.release, if_pos hzero, List.append_assoc]
    refine ⟨?_, ?_, hcount, fun j hj => ?_⟩
    · rw [hqueue]
      exact h.nodup.append (List.nodup_singleton k) (by simpa using hout)
    · intro j hj
      rw [hqueue] at hj
      rcases List.mem_append.1 hj with hj | hj
      · exact h.known j hj
      · rw [List.mem_singleton.1 hj]
        exact hk
    · rw [hqueue, List.mem_append, List.mem_singleton, h.joined j hj]
      simp only [Kahn.release, Function.update_apply]
      split_ifs with hjk
      · simp only [hjk, or_true, true_iff]
        omega
      · simp [hjk]
  · have hqueue : (Kahn.release s k).order ++ (Kahn.release s k).queue =
        s.order ++ s.queue := by
      simp only [Kahn.release, if_neg hzero]
    refine ⟨?_, ?_, hcount, fun j hj => ?_⟩
    · rw [hqueue]
      exact h.nodup
    · rw [hqueue]
      exact h.known
    · rw [hqueue, h.joined j hj]
      simp only [Kahn.release, Function.update_apply]
      split_ifs with hjk
      · rw [hjk]
        omega
      · rfl

theorem order_foldl (s : Worklist α) (ks : List α) : (ks.foldl release s).order = s.order := by
  induction ks generalizing s with
  | nil => rfl
  | cons k ks ih =>
    rw [List.foldl_cons, ih]
    rfl

theorem Sound.foldl {nodes : List α} {deg paid : α → ℕ} {s : Worklist α}
    (h : Sound nodes deg paid s) {ks : List α} (hks : ∀ k ∈ ks, k ∈ nodes) :
    Sound nodes deg (fun j => paid j + ks.count j) (ks.foldl Kahn.release s) := by
  induction ks generalizing s paid with
  | nil => exact h
  | cons k ks ih =>
    have hfirst := h.release (hks k (List.mem_cons_self ..))
    have hrest := ih hfirst fun j hj => hks j (List.mem_cons_of_mem k hj)
    rw [List.foldl_cons]
    have hpaid : (fun j => paid j + (k :: ks).count j) =
        fun j => paid j + [k].count j + ks.count j := by
      funext j
      rw [← List.singleton_append, List.count_append]
      omega
    rw [hpaid]
    exact hrest

/-- A node all of whose count is paid by nodes that are cleared before it. -/
inductive Cleared (nodes : List α) (deg : α → ℕ) (succ : α → List α) : α → Prop
  | intro (k : α) (before : List α) (hk : k ∈ nodes) (hnodup : before.Nodup)
      (hbefore : ∀ n ∈ before, Cleared nodes deg succ n)
      (hpaid : deg k ≤ given succ before k) : Cleared nodes deg succ k

theorem Cleared.known {nodes : List α} {deg : α → ℕ} {succ : α → List α} {k : α}
    (h : Cleared nodes deg succ k) : k ∈ nodes := by
  cases h with
  | intro _ _ hk => exact hk

/-- The state of the loop. -/
structure Running (nodes : List α) (deg : α → ℕ) (succ : α → List α) (s : Worklist α) : Prop where
  sound : Sound nodes deg (given succ s.order) s
  cleared : ∀ k ∈ s.order, Cleared nodes deg succ k

/-- Whoever waits in the queue is paid for. -/
theorem Running.next {nodes : List α} {deg : α → ℕ} {succ : α → List α} {s : Worklist α}
    (h : Running nodes deg succ s) {n : α} {rest : List α} (hq : s.queue.Perm (n :: rest)) :
    n ∈ nodes ∧ deg n ≤ given succ s.order n := by
  have hin : n ∈ s.order ++ s.queue :=
    List.mem_append_right _ (hq.mem_iff.2 (List.mem_cons_self ..))
  have hnode := h.sound.known n hin
  have hzero := (h.sound.joined n hnode).1 hin
  rw [h.sound.count n] at hzero
  exact ⟨hnode, by omega⟩

theorem Running.visit {nodes : List α} {deg : α → ℕ} {succ : α → List α} {s : Worklist α}
    (h : Running nodes deg succ s) (hsucc : ∀ n, ∀ k ∈ succ n, k ∈ nodes) {n : α}
    {rest : List α} (hq : s.queue.Perm (n :: rest)) :
    Running nodes deg succ (visit succ s n rest) := by
  have hperm : (s.order ++ s.queue).Perm ((s.order ++ [n]) ++ rest) := by
    rw [List.append_assoc, List.singleton_append]
    exact hq.append_left s.order
  have hmoved : Sound nodes deg (given succ s.order)
      { s with queue := rest, order := s.order ++ [n] } := by
    refine ⟨hperm.nodup_iff.1 h.sound.nodup, fun k hk => ?_, h.sound.count, fun k hk => ?_⟩
    · exact h.sound.known k (hperm.mem_iff.2 hk)
    · rw [← hperm.mem_iff]
      exact h.sound.joined k hk
  have hdone := hmoved.foldl (hsucc n)
  have horder : (Kahn.visit succ s n rest).order = s.order ++ [n] := order_foldl _ _
  refine ⟨?_, fun k hk => ?_⟩
  · have hpaid : given succ (Kahn.visit succ s n rest).order =
        fun j => given succ s.order j + (succ n).count j := by
      funext j
      rw [horder, given_append]
      simp [given]
    rw [hpaid]
    exact hdone
  · rw [horder] at hk
    rcases List.mem_append.1 hk with hk | hk
    · exact h.cleared k hk
    · rw [List.mem_singleton.1 hk]
      obtain ⟨hnode, hpaid⟩ := h.next hq
      exact .intro n s.order hnode h.sound.nodup.of_append_left h.cleared hpaid

theorem running_drain {nodes : List α} {deg : α → ℕ} {succ : α → List α}
    {take : List α → Option (α × List α)} (ht : Serves take)
    (hsucc : ∀ n, ∀ k ∈ succ n, k ∈ nodes) (fuel : ℕ) {s : Worklist α}
    (h : Running nodes deg succ s) :
    Running nodes deg succ (drain take succ fuel s) ∧
      ((drain take succ fuel s).queue = [] ∨
        (drain take succ fuel s).order.length = s.order.length + fuel) := by
  induction fuel generalizing s with
  | zero => exact ⟨h, Or.inr rfl⟩
  | succ fuel ih =>
    simp only [drain]
    cases hq : take s.queue with
    | none => exact ⟨h, Or.inl (ht.none _ hq)⟩
    | some p =>
      obtain ⟨hrun, hend⟩ := ih (h.visit hsucc (ht.some _ p.1 p.2 hq))
      refine ⟨hrun, hend.imp_right fun hlen => ?_⟩
      have horder : (visit succ s p.1 p.2).order = s.order ++ [p.1] := order_foldl _ _
      rw [hlen, horder, List.length_append, List.length_singleton]
      omega

/-- Every node of the order is paid for by the nodes in front of it. -/
def PaidOrder (deg : α → ℕ) (succ : α → List α) (order : List α) : Prop :=
  ∀ before n after, order = before ++ n :: after → deg n ≤ given succ before n

theorem PaidOrder.snoc {deg : α → ℕ} {succ : α → List α} {order : List α} {n : α}
    (h : PaidOrder deg succ order) (hn : deg n ≤ given succ order n) :
    PaidOrder deg succ (order ++ [n]) := by
  intro before m after heq
  rcases List.eq_nil_or_concat after with rfl | ⟨init, last, rfl⟩
  · obtain ⟨horder, hlast⟩ := List.append_inj' heq rfl
    cases hlast
    rw [← horder]
    exact hn
  · rw [List.concat_eq_append, ← List.cons_append, ← List.append_assoc] at heq
    exact h before m init (List.append_inj' heq rfl).1

theorem paid_drain {nodes : List α} {deg : α → ℕ} {succ : α → List α}
    {take : List α → Option (α × List α)} (ht : Serves take)
    (hsucc : ∀ n, ∀ k ∈ succ n, k ∈ nodes) (fuel : ℕ) {s : Worklist α}
    (h : Running nodes deg succ s) (hp : PaidOrder deg succ s.order) :
    PaidOrder deg succ (drain take succ fuel s).order := by
  induction fuel generalizing s with
  | zero => exact hp
  | succ fuel ih =>
    simp only [drain]
    cases hq : take s.queue with
    | none => exact hp
    | some p =>
      have hperm := ht.some _ p.1 p.2 hq
      have horder : (Kahn.visit succ s p.1 p.2).order = s.order ++ [p.1] := order_foldl _ _
      refine ih (h.visit hsucc hperm) ?_
      rw [horder]
      exact hp.snoc (h.next hperm).2

theorem running_start {nodes : List α} (hn : nodes.Nodup) (deg : α → ℕ) (succ : α → List α) :
    Running nodes deg succ (start nodes deg) :=
  ⟨sound_start hn deg, fun _ hk => absurd hk List.not_mem_nil⟩

/-- The loop ends with the cleared nodes, however the queue is served. -/
theorem drain_visits {nodes : List α} (hn : nodes.Nodup) (deg : α → ℕ) {succ : α → List α}
    {take : List α → Option (α × List α)} (ht : Serves take)
    (hsucc : ∀ n, ∀ k ∈ succ n, k ∈ nodes) :
    (drain take succ nodes.length (start nodes deg)).queue = [] ∧
      (drain take succ nodes.length (start nodes deg)).order.Nodup ∧
      ∀ k, k ∈ (drain take succ nodes.length (start nodes deg)).order ↔
        Cleared nodes deg succ k := by
  obtain ⟨hrun, hend⟩ := running_drain ht hsucc nodes.length (running_start hn deg succ)
  have hempty : (drain take succ nodes.length (start nodes deg)).queue = [] := by
    rcases hend with hend | hlen
    · exact hend
    · have hle := (List.subperm_of_subset hrun.sound.nodup hrun.sound.known).length_le
      rw [List.length_append, hlen] at hle
      exact List.length_eq_zero_iff.1 (by omega)
  have hnodup := hrun.sound.nodup.of_append_left
  refine ⟨hempty, hnodup, fun k => ⟨hrun.cleared k, fun hk => ?_⟩⟩
  induction hk with
  | intro k before hk hbefore _ hpaid ih =>
    have hjoined := hrun.sound.joined k hk
    rw [hempty, List.append_nil] at hjoined
    rw [hjoined, hrun.sound.count k]
    have hle := given_le_of_subset succ k hbefore ih
    omega

theorem drain_subperm {nodes : List α} (hn : nodes.Nodup) (deg : α → ℕ) {succ : α → List α}
    {take : List α → Option (α × List α)} (ht : Serves take)
    (hsucc : ∀ n, ∀ k ∈ succ n, k ∈ nodes) :
    (drain take succ nodes.length (start nodes deg)).order.Subperm nodes := by
  obtain ⟨-, hnodup, hmem⟩ := drain_visits hn deg ht hsucc
  exact List.subperm_of_subset hnodup fun k hk => ((hmem k).1 hk).known

/-- The loop visits every node just when every node is cleared. -/
theorem drain_complete_iff {nodes : List α} (hn : nodes.Nodup) (deg : α → ℕ) {succ : α → List α}
    {take : List α → Option (α × List α)} (ht : Serves take)
    (hsucc : ∀ n, ∀ k ∈ succ n, k ∈ nodes) :
    (drain take succ nodes.length (start nodes deg)).order.length = nodes.length ↔
      ∀ k ∈ nodes, Cleared nodes deg succ k := by
  obtain ⟨-, -, hmem⟩ := drain_visits hn deg ht hsucc
  have hsub := drain_subperm hn deg ht hsucc
  constructor
  · intro hlen k hk
    rw [← hmem]
    exact (hsub.perm_of_length_le hlen.ge).mem_iff.2 hk
  · intro hall
    exact le_antisymm hsub.length_le
      (List.subperm_of_subset hn fun k hk => (hmem k).2 (hall k hk)).length_le

section graph

variable {nodes : List α} {deps succ : α → List α}

/-- An edge from a node to one that lists it. -/
def Edge (nodes : List α) (deps : α → List α) (d k : α) : Prop := k ∈ nodes ∧ d ∈ deps k

def Acyclic (nodes : List α) (deps : α → List α) : Prop :=
  ∀ k, ¬ Relation.TransGen (Edge nodes deps) k k

omit [DecidableEq α] in
theorem sum_indicator (p : α → Bool) (l : List α) :
    (l.map fun n => if p n = true then 1 else 0).sum = l.countP p := by
  induction l with
  | nil => rfl
  | cons n l ih =>
    rw [List.map_cons, List.sum_cons, ih, List.countP_cons]
    omega

theorem given_eq_countP (hsucc : ∀ n ∈ nodes, ∀ k ∈ nodes, (succ n).count k = (deps k).count n)
    {before : List α} (hnodes : ∀ n ∈ before, n ∈ nodes) (hbefore : before.Nodup) {k : α}
    (hk : k ∈ nodes) : given succ before k = (deps k).countP fun d => d ∈ before := by
  have hgiven : given succ before k = (before.map fun n => (deps k).count n).sum := by
    simp only [given]
    exact congrArg List.sum (List.map_congr_left fun n hn => hsucc n (hnodes n hn) k hk)
  rw [hgiven]
  generalize deps k = l
  induction l with
  | nil => simp
  | cons d l ih =>
    have hsplit : (before.map fun n => (d :: l).count n).sum =
        (before.map fun n => l.count n).sum + before.count d := by
      simp only [List.count_cons, List.sum_map_add, sum_indicator]
      rw [List.count_eq_countP]
      simp only [BEq.comm]
    rw [hsplit, ih, List.countP_cons]
    by_cases hd : d ∈ before
    · simp [hd, List.count_eq_one_of_mem hbefore hd]
    · simp [hd, List.count_eq_zero_of_not_mem hd]

/-- In the order of a loop over listed dependencies each node stands behind all of its own. -/
theorem mem_before_of_drain {take : List α → Option (α × List α)} (ht : Serves take)
    (hn : nodes.Nodup) (hnodes : ∀ n, ∀ k ∈ succ n, k ∈ nodes)
    (hsucc : ∀ n ∈ nodes, ∀ k ∈ nodes, (succ n).count k = (deps k).count n)
    {before after : List α} {k : α}
    (h : (drain take succ nodes.length (start nodes fun k => (deps k).length)).order =
      before ++ k :: after) : ∀ d ∈ deps k, d ∈ before := by
  obtain ⟨-, hnodup, hmem⟩ := drain_visits hn (fun k => (deps k).length) ht hnodes
  have hpaid := paid_drain ht hnodes nodes.length (running_start hn (fun k => (deps k).length) succ)
    (fun before n after heq => by simp [start] at heq) before k after h
  have hknown : ∀ n ∈ before ++ k :: after, n ∈ nodes := by
    intro n hin
    rw [← h] at hin
    exact ((hmem n).1 hin).known
  rw [h] at hnodup
  rw [given_eq_countP hsucc (fun n hin => hknown n (List.mem_append_left _ hin))
    hnodup.of_append_left (hknown k (by simp))] at hpaid
  have hall := List.countP_eq_length.1 (le_antisymm List.countP_le_length hpaid)
  intro d hd
  exact of_decide_eq_true (hall d hd)

theorem cleared_iff (hsucc : ∀ n ∈ nodes, ∀ k ∈ nodes, (succ n).count k = (deps k).count n) {k : α} :
    Cleared nodes (fun k => (deps k).length) succ k ↔
      k ∈ nodes ∧ ∀ d ∈ deps k, Cleared nodes (fun k => (deps k).length) succ d := by
  constructor
  · intro h
    cases h with
    | intro _ before hk hnodup hbefore hpaid =>
      rw [given_eq_countP hsucc (fun n hn => (hbefore n hn).known) hnodup hk] at hpaid
      have hall := List.countP_eq_length.1 (le_antisymm List.countP_le_length hpaid)
      exact ⟨hk, fun d hd => hbefore d (of_decide_eq_true (hall d hd))⟩
  · rintro ⟨hk, hdeps⟩
    refine .intro k (deps k).dedup hk (List.nodup_dedup _)
      (fun n hn => hdeps n (List.mem_dedup.1 hn)) ?_
    have hnodes : ∀ n ∈ (deps k).dedup, n ∈ nodes := fun n hn =>
      (hdeps n (List.mem_dedup.1 hn)).known
    rw [given_eq_countP hsucc hnodes (List.nodup_dedup _) hk]
    have hall : ∀ d ∈ deps k, decide (d ∈ (deps k).dedup) = true := fun d hd =>
      decide_eq_true (List.mem_dedup.2 hd)
    exact (List.countP_eq_length.2 hall).ge

theorem acc_of_cleared (hsucc : ∀ n ∈ nodes, ∀ k ∈ nodes, (succ n).count k = (deps k).count n) {k : α}
    (h : Cleared nodes (fun k => (deps k).length) succ k) : Acc (Edge nodes deps) k := by
  induction h with
  | intro k before hk hnodup hbefore hpaid ih =>
    rw [given_eq_countP hsucc (fun n hn => (hbefore n hn).known) hnodup hk] at hpaid
    have hall := List.countP_eq_length.1 (le_antisymm List.countP_le_length hpaid)
    exact ⟨k, fun d hd => ih d (of_decide_eq_true (hall d hd.2))⟩

omit [DecidableEq α] in
theorem wellFounded_of_acyclic (hknown : ∀ k ∈ nodes, ∀ d ∈ deps k, d ∈ nodes)
    (hacyclic : Acyclic nodes deps) : WellFounded (Edge nodes deps) := by
  let below : {k // k ∈ nodes} → {k // k ∈ nodes} → Prop :=
    fun d k => Relation.TransGen (Edge nodes deps) d k
  have hfinite : Finite {k // k ∈ nodes} := (List.finite_toSet nodes).to_subtype
  have htrans : IsTrans {k // k ∈ nodes} below := ⟨fun _ _ _ h h' => h.trans h'⟩
  have hirrefl : Std.Irrefl below := ⟨fun k => hacyclic k⟩
  have hwf : WellFounded below := Finite.wellFounded_of_trans_of_irrefl below
  have hacc : ∀ x : {k // k ∈ nodes}, Acc (Edge nodes deps) x := by
    intro x
    induction x using hwf.induction with
    | h x ih =>
      refine Acc.intro x.1 fun d hd => ?_
      have hd : Edge nodes deps d x := hd
      exact ih ⟨d, hknown x x.2 d hd.2⟩ (.single hd)
  refine ⟨fun k => ?_⟩
  by_cases hk : k ∈ nodes
  · exact hacc ⟨k, hk⟩
  · exact ⟨k, fun d hd => absurd hd.1 hk⟩

omit [DecidableEq α] in
theorem acyclic_of_rank (rank : α → ℕ) (h : ∀ k ∈ nodes, ∀ d ∈ deps k, rank d < rank k) :
    Acyclic nodes deps := by
  have hless : ∀ d k, Relation.TransGen (Edge nodes deps) d k → rank d < rank k := by
    intro d k hpath
    induction hpath with
    | single hedge => exact h _ hedge.1 _ hedge.2
    | tail _ hedge ih => exact ih.trans (h _ hedge.1 _ hedge.2)
  exact fun k hpath => Nat.lt_irrefl (rank k) (hless k k hpath)

/-- Without a cycle the nodes can be ranked along the edges, by what leads to each. -/
theorem exists_rank (hacyclic : Acyclic nodes deps) :
    ∃ rank : α → ℕ, ∀ k ∈ nodes, ∀ d ∈ deps k, rank d < rank k := by
  classical
  let below (k : α) : Finset α :=
    (nodes.flatMap deps).toFinset.filter fun d => Relation.TransGen (Edge nodes deps) d k
  refine ⟨fun k => (below k).card, fun k hk d hd => Finset.card_lt_card ?_⟩
  have hedge : Edge nodes deps d k := ⟨hk, hd⟩
  have hmem : d ∈ below k := Finset.mem_filter.2
    ⟨List.mem_toFinset.2 (List.mem_flatMap.2 ⟨k, hk, hd⟩), .single hedge⟩
  have hself : d ∉ below d := fun h => hacyclic d (Finset.mem_filter.1 h).2
  refine Finset.ssubset_iff_subset_ne.2 ⟨fun x hx => ?_, fun heq => hself (by rw [heq]; exact hmem)⟩
  obtain ⟨hx, hlead⟩ := Finset.mem_filter.1 hx
  exact Finset.mem_filter.2 ⟨hx, hlead.tail hedge⟩

/-- Every node is cleared just when the graph has no cycle. -/
theorem all_cleared_iff (hsucc : ∀ n ∈ nodes, ∀ k ∈ nodes, (succ n).count k = (deps k).count n)
    (hknown : ∀ k ∈ nodes, ∀ d ∈ deps k, d ∈ nodes) :
    (∀ k ∈ nodes, Cleared nodes (fun k => (deps k).length) succ k) ↔ Acyclic nodes deps := by
  constructor
  · intro hall
    have hwf : WellFounded (Edge nodes deps) := ⟨fun k => by
      by_cases hk : k ∈ nodes
      · exact acc_of_cleared hsucc (hall k hk)
      · exact ⟨k, fun d hd => absurd hd.1 hk⟩⟩
    exact fun k => hwf.transGen.irrefl.irrefl k
  · intro hacyclic k
    induction k using (wellFounded_of_acyclic hknown hacyclic).induction with
    | h k ih =>
      intro hk
      rw [cleared_iff hsucc]
      exact ⟨hk, fun d hd => ih d ⟨hk, hd⟩ (hknown k hk d hd)⟩

omit [DecidableEq α] in
theorem acyclic_congr {deps' : α → List α} (h : ∀ k ∈ nodes, deps k = deps' k) :
    Acyclic nodes deps ↔ Acyclic nodes deps' := by
  have hedge : Edge nodes deps = Edge nodes deps' := by
    funext d k
    refine propext (and_congr_right fun hk => ?_)
    rw [h k hk]
  rw [Acyclic, Acyclic, hedge]

omit [DecidableEq α] in
theorem transGen_known {d k : α} (h : Relation.TransGen (Edge nodes deps) d k) : k ∈ nodes := by
  cases h with
  | single h => exact h.1
  | tail _ h => exact h.1

/-- An edge from outside lies on no cycle. -/
theorem acyclic_filter_iff :
    Acyclic nodes (fun k => (deps k).filter fun d => d ∈ nodes) ↔ Acyclic nodes deps := by
  have hinside : ∀ d k, d ∈ nodes → Relation.TransGen (Edge nodes deps) d k →
      Relation.TransGen (Edge nodes fun k => (deps k).filter fun d => d ∈ nodes) d k := by
    intro d k hd h
    induction h with
    | single h => exact .single ⟨h.1, List.mem_filter.2 ⟨h.2, decide_eq_true hd⟩⟩
    | tail hfirst h ih =>
      exact .tail ih ⟨h.1, List.mem_filter.2 ⟨h.2, decide_eq_true (transGen_known hfirst)⟩⟩
  constructor
  · intro h k hk
    exact h k (hinside k k (transGen_known hk) hk)
  · intro h k hk
    have hle : ∀ d j, Edge nodes (fun k => (deps k).filter fun d => d ∈ nodes) d j →
        Edge nodes deps d j := fun _ _ he => ⟨he.1, (List.mem_filter.1 he.2).1⟩
    exact h k (Relation.TransGen.mono hle k k hk)

/-- Where a node is released once by each predecessor but counts every mention of it, a node
that mentions one twice is never cleared. -/
theorem nodup_of_cleared_once
    (hsucc : ∀ n ∈ nodes, ∀ k ∈ nodes, (succ n).count k = if n ∈ deps k then 1 else 0) {k : α}
    (h : Cleared nodes (fun k => (deps k).length) succ k) : (deps k).Nodup := by
  cases h with
  | intro _ before hk hnodup hbefore hpaid =>
    have hgiven : given succ before k = (before.filter fun n => n ∈ deps k).length := by
      rw [← List.countP_eq_length_filter, ← sum_indicator]
      simp only [given, decide_eq_true_eq]
      exact congrArg List.sum
        (List.map_congr_left fun n hn => hsucc n (hbefore n hn).known k hk)
    rw [hgiven] at hpaid
    have hsub : (before.filter fun n => n ∈ deps k).Subperm (deps k) :=
      List.subperm_of_subset (hnodup.filter _) fun n hn =>
        of_decide_eq_true (List.mem_filter.1 hn).2
    exact (hsub.perm_of_length_le hpaid).nodup_iff.1 (hnodup.filter _)

theorem count_of_once
    (hsucc : ∀ n ∈ nodes, ∀ k ∈ nodes, (succ n).count k = if n ∈ deps k then 1 else 0)
    (hnodup : ∀ k ∈ nodes, (deps k).Nodup) :
    ∀ n ∈ nodes, ∀ k ∈ nodes, (succ n).count k = (deps k).count n := by
  intro n hn k hk
  rw [hsucc n hn k hk]
  exact (hnodup k hk).count.symm

end graph

end Nssf.Base.Kahn
