import Mathlib.Data.Finset.Card
import Mathlib.Data.List.Sort
import Nssf.Base.Dict

/-! Sets that are gone through in an order nobody promises, and the counts of the votes that are
met on the way. -/

namespace Nssf.Base

/-- A way to go through each set. -/
structure SetOrder (α : Type) [DecidableEq α] where
  list : Finset α → List α
  nodup : ∀ s, (list s).Nodup
  mem : ∀ s a, a ∈ list s ↔ a ∈ s

namespace SetOrder

variable {α : Type} [DecidableEq α]

theorem perm (o o' : SetOrder α) (s : Finset α) : (o.list s).Perm (o'.list s) :=
  (List.perm_ext_iff_of_nodup (o.nodup s) (o'.nodup s)).2 fun a => by rw [o.mem, o'.mem]

theorem count (o : SetOrder α) (s : Finset α) (a : α) :
    (o.list s).count a = if a ∈ s then 1 else 0 := by
  split_ifs with ha
  · exact List.count_eq_one_of_mem (o.nodup s) ((o.mem s a).2 ha)
  · exact List.count_eq_zero.2 fun hin => ha ((o.mem s a).1 hin)

end SetOrder

namespace Tally

variable {α : Type}

section counts

variable [DecidableEq α]

def addVote (votes : Dict α ℕ) (a : α) : Dict α ℕ := votes.set a ((votes.get? a).getD 0 + 1)

def tally (ballots : List α) : Dict α ℕ := ballots.foldl addVote Dict.empty

theorem get?_tally (ballots : List α) (a : α) :
    (tally ballots).get? a = if a ∈ ballots then some (ballots.count a) else none := by
  induction ballots using List.reverseRecOn with
  | nil => rfl
  | append_singleton ballots b ih =>
    have hstep : tally (ballots ++ [b]) = addVote (tally ballots) b := by
      rw [tally, List.foldl_append]
      rfl
    rw [hstep, addVote, Dict.get?_set]
    by_cases hab : a = b
    · subst hab
      rw [if_pos rfl, if_pos (by simp), ih, List.count_append, List.count_singleton_self]
      split_ifs with hmem
      · rfl
      · rw [List.count_eq_zero.2 hmem]
        rfl
    · have hmem : a ∈ ballots ++ [b] ↔ a ∈ ballots := by simp [hab]
      have hcount : (ballots ++ [b]).count a = ballots.count a := by
        have hlast : [b].count a = 0 := List.count_eq_zero.2 (by simpa using hab)
        rw [List.count_append, hlast, Nat.add_zero]
      rw [if_neg hab, ih, hcount]
      simp only [hmem]

theorem mem_tally {ballots : List α} {a : α} {n : ℕ} :
    (a, n) ∈ (tally ballots).entries ↔ a ∈ ballots ∧ n = ballots.count a := by
  rw [← Dict.get?_eq_some_iff, get?_tally]
  split_ifs with hmem
  · simp [hmem, eq_comm]
  · simp [hmem]

end counts

section standings

variable [LinearOrder α]

/-- More votes first, and the names in order among equals. -/
def Ahead (v w : α × ℕ) : Prop := w.2 < v.2 ∨ v.2 = w.2 ∧ v.1 ≤ w.1

instance : DecidableRel (Ahead (α := α)) := fun v w =>
  inferInstanceAs (Decidable (w.2 < v.2 ∨ v.2 = w.2 ∧ v.1 ≤ w.1))

def standings (ballots : List α) : List (α × ℕ) := (tally ballots).entries.insertionSort Ahead

theorem mem_standings {ballots : List α} {a : α} {n : ℕ} :
    (a, n) ∈ standings ballots ↔ a ∈ ballots ∧ n = ballots.count a := by
  rw [standings, List.mem_insertionSort, mem_tally]

theorem ahead_total (v w : α × ℕ) : Ahead v w ∨ Ahead w v := by
  unfold Ahead
  rcases Nat.lt_trichotomy v.2 w.2 with hlt | heq | hlt
  · exact .inr (.inl hlt)
  · exact (le_total v.1 w.1).imp (fun h => .inr ⟨heq, h⟩) (fun h => .inr ⟨heq.symm, h⟩)
  · exact .inl (.inl hlt)

theorem ahead_trans (v w x : α × ℕ) (h : Ahead v w) (h' : Ahead w x) : Ahead v x := by
  unfold Ahead at *
  rcases h with h | ⟨h, hle⟩ <;> rcases h' with h' | ⟨h', hle'⟩
  · exact .inl (by omega)
  · exact .inl (by omega)
  · exact .inl (by omega)
  · exact .inr ⟨by omega, hle.trans hle'⟩

theorem ahead_antisymm (v w : α × ℕ) (h : Ahead v w) (h' : Ahead w v) : v = w := by
  unfold Ahead at *
  rcases h with h | ⟨h, hle⟩ <;> rcases h' with h' | ⟨h', hle'⟩
  · omega
  · omega
  · omega
  · exact Prod.ext (le_antisymm hle hle') h

instance : Std.Total (Ahead (α := α)) := ⟨ahead_total⟩

instance : IsTrans (α × ℕ) Ahead := ⟨ahead_trans⟩

theorem pairwise_standings (ballots : List α) : (standings ballots).Pairwise Ahead :=
  List.pairwise_insertionSort Ahead _

theorem nodup_standings (ballots : List α) : (standings ballots).Nodup :=
  (List.perm_insertionSort Ahead _).nodup_iff.2 (tally ballots).nodup.of_map

/-- The order in which the ballots are met does not show. -/
theorem standings_perm {ballots ballots' : List α} (h : ballots.Perm ballots') :
    standings ballots = standings ballots' := by
  refine List.Perm.eq_of_pairwise (fun v w _ _ => ahead_antisymm v w) (pairwise_standings _)
    (pairwise_standings _) ?_
  refine (List.perm_ext_iff_of_nodup (nodup_standings _) (nodup_standings _)).2 fun v => ?_
  obtain ⟨a, n⟩ := v
  rw [mem_standings, mem_standings, h.mem_iff, h.count_eq]

theorem standings_eq_nil_iff {ballots : List α} : standings ballots = [] ↔ ballots = [] := by
  constructor
  · intro h
    refine List.eq_nil_iff_forall_not_mem.2 fun a ha => ?_
    have hmem := mem_standings.2 ⟨ha, rfl⟩
    rw [h] at hmem
    cases hmem
  · rintro rfl
    rfl

/-- The first has as many votes as any other. -/
theorem top_spec {ballots : List α} {top : α} {n : ℕ} {rest : List (α × ℕ)}
    (h : standings ballots = (top, n) :: rest) :
    top ∈ ballots ∧ n = ballots.count top ∧ ∀ a, ballots.count a ≤ ballots.count top := by
  obtain ⟨hmem, hn⟩ := mem_standings.1 (by rw [h]; exact List.mem_cons_self)
  refine ⟨hmem, hn, fun a => ?_⟩
  by_cases ha : a ∈ ballots
  · have hin := mem_standings.2 ⟨ha, rfl⟩
    have hsorted := pairwise_standings ballots
    rw [h] at hin hsorted
    obtain heq | hin := List.mem_cons.1 hin
    · have hcount := (Prod.mk.inj heq).2
      omega
    · have hahead := (List.pairwise_cons.1 hsorted).1 _ hin
      unfold Ahead at hahead
      simp only at hahead
      omega
  · rw [List.count_eq_zero.2 ha]
    exact Nat.zero_le _

/-- The second comes level with the first where two have the most votes. -/
theorem runner_up_iff {ballots : List α} {top : α} {n : ℕ} {rest : List (α × ℕ)}
    (h : standings ballots = (top, n) :: rest) :
    n ≤ rest.head?.elim 0 Prod.snd ↔
      ∃ a b, a ≠ b ∧ 0 < ballots.count a ∧ ballots.count a = ballots.count b ∧
        ∀ c, ballots.count c ≤ ballots.count a := by
  obtain ⟨hmem, hn, hmax⟩ := top_spec h
  have hpos : 0 < ballots.count top := List.count_pos_iff.2 hmem
  have hsorted := pairwise_standings ballots
  have hdistinct := nodup_standings ballots
  rw [h] at hsorted hdistinct
  constructor
  · intro hle
    cases rest with
    | nil =>
      simp only [List.head?_nil, Option.elim_none] at hle
      omega
    | cons second rest =>
      obtain ⟨b, m⟩ := second
      obtain ⟨-, hm⟩ := mem_standings.1 (by rw [h]; exact List.mem_cons_of_mem _ List.mem_cons_self)
      have hle : n ≤ m := hle
      have hmaxb := hmax b
      refine ⟨top, b, ?_, hpos, by omega, hmax⟩
      rintro rfl
      have hsame : n = m := by omega
      subst hsame
      exact (List.nodup_cons.1 hdistinct).1 List.mem_cons_self
  · rintro ⟨a, b, hne, hposa, heq, hmaxa⟩
    have htop : ballots.count a = ballots.count top := le_antisymm (hmax a) (hmaxa top)
    -- one of the two is not the first
    have hother : ∃ c, c ≠ top ∧ ballots.count c = ballots.count top := by
      by_cases hat : a = top
      · subst hat
        exact ⟨b, hne.symm, heq.symm⟩
      · exact ⟨a, hat, htop⟩
    obtain ⟨c, hc, hcount⟩ := hother
    have hin := mem_standings.2 ⟨List.count_pos_iff.1 (by omega : 0 < ballots.count c), rfl⟩
    rw [h] at hin
    obtain hfirst | hin := List.mem_cons.1 hin
    · exact absurd (Prod.mk.inj hfirst).1 hc
    · cases rest with
      | nil => cases hin
      | cons second rest =>
        have hsecond : ballots.count c ≤ second.2 := by
          obtain hin | hin := List.mem_cons.1 hin
          · rw [← hin]
          · have hahead := (List.pairwise_cons.1 (List.pairwise_cons.1 hsorted).2).1 _ hin
            unfold Ahead at hahead
            simp only at hahead
            omega
        change n ≤ second.2
        omega

end standings

end Tally

end Nssf.Base
