import Mathlib.Data.List.Nodup
import Mathlib.Data.List.Perm.Basic

/-! Trees whose nodes have identities. A node is found and edited by its identity, and reached
by the keys on the way down; where the identities are distinct the two views agree. -/

namespace Nssf.Base

inductive Node (κ α : Type) where
  | mk (id : ℕ) (label : κ) (children : List (α × Node κ α))

namespace Node

variable {κ α : Type}

def id : Node κ α → ℕ
  | .mk i _ _ => i

def label : Node κ α → κ
  | .mk _ l _ => l

def children : Node κ α → List (α × Node κ α)
  | .mk _ _ cs => cs

mutual

def ids : Node κ α → List ℕ
  | .mk i _ cs => i :: idsIn cs

def idsIn : List (α × Node κ α) → List ℕ
  | [] => []
  | (_, n) :: cs => ids n ++ idsIn cs

end

mutual

def find? (p : ℕ) : Node κ α → Option (Node κ α)
  | .mk i l cs => if i = p then some (.mk i l cs) else findIn? p cs

def findIn? (p : ℕ) : List (α × Node κ α) → Option (Node κ α)
  | [] => none
  | (_, n) :: cs => (find? p n).or (findIn? p cs)

end

mutual

/-- Changes the children of the node with the given identity. -/
def edit (p : ℕ) (f : List (α × Node κ α) → List (α × Node κ α)) : Node κ α → Node κ α
  | .mk i l cs => if i = p then .mk i l (f cs) else .mk i l (editIn p f cs)

def editIn (p : ℕ) (f : List (α × Node κ α) → List (α × Node κ α)) :
    List (α × Node κ α) → List (α × Node κ α)
  | [] => []
  | (k, n) :: cs => (k, edit p f n) :: editIn p f cs

end

theorem id_mem_ids (n : Node κ α) : n.id ∈ n.ids := by
  cases n
  simp [id, ids]

theorem ids_eq (n : Node κ α) : n.ids = n.id :: idsIn n.children := by
  cases n
  rfl

theorem idsIn_append (cs ds : List (α × Node κ α)) : idsIn (cs ++ ds) = idsIn cs ++ idsIn ds := by
  induction cs with
  | nil => rfl
  | cons c cs ih =>
    simp only [List.cons_append, idsIn]
    rw [ih, List.append_assoc]

theorem ids_subset_idsIn {k : α} {n : Node κ α} {cs : List (α × Node κ α)} (h : (k, n) ∈ cs) :
    n.ids ⊆ idsIn cs := by
  obtain ⟨as, bs, rfl⟩ := List.append_of_mem h
  rw [idsIn_append]
  intro i hi
  simp only [idsIn, List.mem_append]
  exact Or.inr (Or.inl hi)

theorem nodup_child {k : α} {n : Node κ α} {cs : List (α × Node κ α)} (h : (k, n) ∈ cs)
    (hn : (idsIn cs).Nodup) : n.ids.Nodup := by
  obtain ⟨as, bs, rfl⟩ := List.append_of_mem h
  rw [idsIn_append] at hn
  simp only [idsIn] at hn
  exact (List.nodup_append.1 (List.nodup_append.1 hn).2.1).1

/-- Two children at different keys share no identity. -/
theorem disjoint_children {k l : α} {m n : Node κ α} {cs : List (α × Node κ α)}
    (hm : (k, m) ∈ cs) (hl : (l, n) ∈ cs) (hkl : k ≠ l) (hn : (idsIn cs).Nodup) :
    ∀ i ∈ m.ids, i ∉ n.ids := by
  induction cs with
  | nil => cases hm
  | cons c cs ih =>
    obtain ⟨a, x⟩ := c
    simp only [idsIn] at hn
    obtain ⟨-, hrest, hapart⟩ := List.nodup_append.1 hn
    intro i hi hin
    rcases List.mem_cons.1 hm with hfirst | hm'
    · rcases List.mem_cons.1 hl with hsecond | hl'
      · exact hkl ((congrArg Prod.fst hfirst).trans (congrArg Prod.fst hsecond).symm)
      · have hx : m = x := congrArg Prod.snd hfirst
        rw [hx] at hi
        exact hapart i hi i (ids_subset_idsIn hl' hin) rfl
    · rcases List.mem_cons.1 hl with hsecond | hl'
      · have hx : n = x := congrArg Prod.snd hsecond
        rw [hx] at hin
        exact hapart i hin i (ids_subset_idsIn hm' hi) rfl
      · exact ih hm' hl' hrest i hi hin

mutual

theorem mem_ids_of_find {p : ℕ} {m : Node κ α} :
    ∀ n : Node κ α, find? p n = some m → m.id = p ∧ p ∈ n.ids
  | .mk i l cs => by
    intro h
    simp only [find?] at h
    split_ifs at h with hip
    · cases h
      exact ⟨hip, by simp [ids, hip]⟩
    · have hin := mem_idsIn_of_find cs h
      exact ⟨hin.1, List.mem_cons_of_mem _ hin.2⟩

theorem mem_idsIn_of_find {p : ℕ} {m : Node κ α} :
    ∀ cs : List (α × Node κ α), findIn? p cs = some m → m.id = p ∧ p ∈ idsIn cs
  | [] => by
    intro h
    cases h
  | (k, n) :: cs => by
    intro h
    simp only [findIn?] at h
    simp only [idsIn, List.mem_append]
    cases hn : find? p n with
    | some x =>
      rw [hn, Option.some_or] at h
      cases h
      have hin := mem_ids_of_find n hn
      exact ⟨hin.1, Or.inl hin.2⟩
    | none =>
      rw [hn, Option.none_or] at h
      have hin := mem_idsIn_of_find cs h
      exact ⟨hin.1, Or.inr hin.2⟩

end

mutual

theorem find_isSome {p : ℕ} : ∀ n : Node κ α, p ∈ n.ids → (find? p n).isSome = true
  | .mk i l cs => by
    intro h
    simp only [find?]
    split_ifs with hip
    · rfl
    · rcases List.mem_cons.1 h with h | h
      · exact absurd h.symm hip
      · exact findIn_isSome cs h

theorem findIn_isSome {p : ℕ} :
    ∀ cs : List (α × Node κ α), p ∈ idsIn cs → (findIn? p cs).isSome = true
  | [] => by
    intro h
    cases h
  | (k, n) :: cs => by
    intro h
    simp only [idsIn, List.mem_append] at h
    simp only [findIn?, Option.isSome_or, Bool.or_eq_true]
    rcases h with h | h
    · exact Or.inl (find_isSome n h)
    · exact Or.inr (findIn_isSome cs h)

end

theorem find_eq_none_iff {p : ℕ} {n : Node κ α} : find? p n = none ↔ p ∉ n.ids := by
  constructor
  · intro h hp
    have hsome := find_isSome n hp
    rw [h] at hsome
    cases hsome
  · intro h
    cases hf : find? p n with
    | none => rfl
    | some m => exact absurd (mem_ids_of_find n hf).2 h

theorem findIn_of_mem {p : ℕ} {k : α} {n m : Node κ α} {cs : List (α × Node κ α)}
    (h : (k, n) ∈ cs) (hn : (idsIn cs).Nodup) (hm : find? p n = some m) :
    findIn? p cs = some m := by
  induction cs with
  | nil => cases h
  | cons c cs ih =>
    obtain ⟨l, x⟩ := c
    simp only [idsIn] at hn
    obtain ⟨-, hrest, hapart⟩ := List.nodup_append.1 hn
    simp only [findIn?]
    rcases List.mem_cons.1 h with hfirst | hlater
    · have hx : n = x := congrArg Prod.snd hfirst
      rw [← hx, hm, Option.some_or]
    · have hp := ids_subset_idsIn hlater (mem_ids_of_find n hm).2
      have hnone : find? p x = none := find_eq_none_iff.2 fun hx => hapart p hx p hp rfl
      rw [hnone, Option.none_or]
      exact ih hlater hrest

mutual

theorem edit_of_not_mem {p : ℕ} (f : List (α × Node κ α) → List (α × Node κ α)) :
    ∀ n : Node κ α, p ∉ n.ids → edit p f n = n
  | .mk i l cs => by
    intro h
    simp only [ids, List.mem_cons, not_or] at h
    simp only [edit, if_neg (Ne.symm h.1)]
    rw [editIn_of_not_mem f cs h.2]

theorem editIn_of_not_mem {p : ℕ} (f : List (α × Node κ α) → List (α × Node κ α)) :
    ∀ cs : List (α × Node κ α), p ∉ idsIn cs → editIn p f cs = cs
  | [] => fun _ => rfl
  | (k, n) :: cs => by
    intro h
    simp only [idsIn, List.mem_append, not_or] at h
    simp only [editIn]
    rw [edit_of_not_mem f n h.1, editIn_of_not_mem f cs h.2]

end

mutual

theorem mem_ids_edit_self {p : ℕ} (f : List (α × Node κ α) → List (α × Node κ α)) :
    ∀ n : Node κ α, p ∈ n.ids → p ∈ (edit p f n).ids
  | .mk i l cs => by
    intro h
    simp only [edit]
    split_ifs with hip
    · simp [ids, hip]
    · rcases List.mem_cons.1 h with h | h
      · exact absurd h.symm hip
      · exact List.mem_cons_of_mem _ (mem_idsIn_editIn_self f cs h)

theorem mem_idsIn_editIn_self {p : ℕ} (f : List (α × Node κ α) → List (α × Node κ α)) :
    ∀ cs : List (α × Node κ α), p ∈ idsIn cs → p ∈ idsIn (editIn p f cs)
  | [] => by
    intro h
    cases h
  | (k, n) :: cs => by
    intro h
    simp only [idsIn, editIn, List.mem_append] at h ⊢
    rcases h with h | h
    · exact Or.inl (mem_ids_edit_self f n h)
    · exact Or.inr (mem_idsIn_editIn_self f cs h)

end

mutual

/-- An edit changes the identities of the tree by those of the children it edits. -/
theorem count_ids_edit {p q : ℕ} (f : List (α × Node κ α) → List (α × Node κ α)) {m : Node κ α} :
    ∀ n : Node κ α, n.ids.Nodup → find? p n = some m →
      (edit p f n).ids.count q + (idsIn m.children).count q =
        n.ids.count q + (idsIn (f m.children)).count q
  | .mk i l cs => by
    intro hn h
    simp only [find?] at h
    simp only [edit]
    split_ifs at h ⊢ with hip
    · cases h
      simp only [ids, List.count_cons, children]
      omega
    · have hin := count_idsIn_editIn (q := q) f cs (List.nodup_cons.1 hn).2 h
      simp only [ids, List.count_cons]
      omega

theorem count_idsIn_editIn {p q : ℕ} (f : List (α × Node κ α) → List (α × Node κ α))
    {m : Node κ α} : ∀ cs : List (α × Node κ α), (idsIn cs).Nodup → findIn? p cs = some m →
      (idsIn (editIn p f cs)).count q + (idsIn m.children).count q =
        (idsIn cs).count q + (idsIn (f m.children)).count q
  | [] => by
    intro _ h
    cases h
  | (k, n) :: cs => by
    intro hn h
    simp only [idsIn] at hn
    obtain ⟨hfirst, hrest, hapart⟩ := List.nodup_append.1 hn
    simp only [findIn?] at h
    simp only [editIn, idsIn, List.count_append]
    cases hf : find? p n with
    | some x =>
      rw [hf, Option.some_or] at h
      cases h
      have hp := (mem_ids_of_find n hf).2
      have hout : p ∉ idsIn cs := fun hcs => hapart p hp p hcs rfl
      rw [editIn_of_not_mem f cs hout]
      have hin := count_ids_edit (q := q) f n hfirst hf
      omega
    | none =>
      rw [hf, Option.none_or] at h
      rw [edit_of_not_mem f n (find_eq_none_iff.1 hf)]
      have hin := count_idsIn_editIn (q := q) f cs hrest h
      omega

end

section keys

variable [DecidableEq α]

/-- The first child at a key. -/
def childAt? (k : α) (cs : List (α × Node κ α)) : Option (Node κ α) :=
  (cs.find? fun c => c.1 = k).map Prod.snd

/-- The node at the end of a way down. -/
def at? : List α → Node κ α → Option (Node κ α)
  | [], n => some n
  | k :: ks, n => (childAt? k n.children).bind (at? ks)

def removeFirst (k : α) (cs : List (α × Node κ α)) : List (α × Node κ α) :=
  cs.eraseP fun c => c.1 = k

theorem mem_of_childAt {k : α} {n : Node κ α} {cs : List (α × Node κ α)}
    (h : childAt? k cs = some n) : (k, n) ∈ cs := by
  obtain ⟨⟨l, m⟩, hfind, hsnd⟩ := Option.map_eq_some_iff.1 h
  have hfound := List.find?_some hfind
  have hkey : l = k := of_decide_eq_true hfound
  have hmem := List.mem_of_find?_eq_some hfind
  rw [hkey] at hmem
  rw [← hsnd]
  exact hmem

theorem count_removeFirst {k : α} {n : Node κ α} {cs : List (α × Node κ α)} (q : ℕ)
    (h : childAt? k cs = some n) :
    (idsIn (removeFirst k cs)).count q + n.ids.count q = (idsIn cs).count q := by
  induction cs with
  | nil => cases h
  | cons c cs ih =>
    obtain ⟨l, m⟩ := c
    simp only [childAt?, List.find?_cons] at h
    simp only [removeFirst]
    by_cases hl : l = k
    · simp only [hl, decide_true, Option.map_some, Option.some.injEq] at h
      rw [List.eraseP_cons_of_pos (by simp [hl]), ← h]
      simp only [idsIn, List.count_append]
      omega
    · simp only [hl, decide_false] at h
      rw [List.eraseP_cons_of_neg (by simp [hl])]
      simp only [idsIn, List.count_append]
      have hrest := ih h
      simp only [removeFirst] at hrest
      omega

theorem at_append (ks ls : List α) (n : Node κ α) :
    at? (ks ++ ls) n = (at? ks n).bind (at? ls) := by
  induction ks generalizing n with
  | nil => rfl
  | cons k ks ih =>
    simp only [List.cons_append, at?]
    cases childAt? k n.children with
    | none => rfl
    | some m => exact ih m

theorem ids_subset_of_at {ks : List α} {n m : Node κ α} (h : at? ks n = some m) :
    m.ids ⊆ n.ids := by
  induction ks generalizing n with
  | nil =>
    cases h
    exact fun i hi => hi
  | cons k ks ih =>
    obtain ⟨c, hc, hm⟩ := Option.bind_eq_some_iff.1 h
    intro i hi
    rw [ids_eq n]
    exact List.mem_cons_of_mem _ (ids_subset_idsIn (mem_of_childAt hc) (ih hm hi))

theorem find_of_at {ks : List α} {n m : Node κ α} (hn : n.ids.Nodup) (h : at? ks n = some m) :
    find? m.id n = some m := by
  induction ks generalizing n with
  | nil =>
    cases h
    cases m
    simp [find?, id]
  | cons k ks ih =>
    obtain ⟨c, hc, hm⟩ := Option.bind_eq_some_iff.1 h
    have hmem := mem_of_childAt hc
    rw [ids_eq n, List.nodup_cons] at hn
    have hfind := ih (nodup_child hmem hn.2) hm
    cases n with
    | mk i l cs =>
      have hin : m.id ∈ idsIn cs :=
        ids_subset_idsIn hmem (ids_subset_of_at hm (id_mem_ids m))
      have hne : i ≠ m.id := fun h0 => hn.1 (by rw [← h0] at hin; exact hin)
      simp only [find?, if_neg hne]
      exact findIn_of_mem hmem hn.2 hfind

/-- The way to a node that lies in the tree below another goes through that other one. -/
theorem id_mem_ids_iff_prefix {ks ls : List α} {n m x : Node κ α} (hn : n.ids.Nodup)
    (hx : at? ks n = some x) (hm : at? ls n = some m) : m.id ∈ x.ids ↔ ks <+: ls := by
  induction ks generalizing n ls with
  | nil =>
    cases hx
    exact ⟨fun _ => List.nil_prefix, fun _ => ids_subset_of_at hm (id_mem_ids m)⟩
  | cons k ks ih =>
    obtain ⟨c, hc, hx'⟩ := Option.bind_eq_some_iff.1 hx
    have hkmem := mem_of_childAt hc
    rw [ids_eq n, List.nodup_cons] at hn
    cases ls with
    | nil =>
      cases hm
      constructor
      · intro hroot
        exact absurd (ids_subset_idsIn hkmem (ids_subset_of_at hx' hroot)) hn.1
      · intro hpre
        exact absurd (List.prefix_nil.1 hpre) (List.cons_ne_nil k ks)
    | cons l ls =>
      obtain ⟨d, hd, hm'⟩ := Option.bind_eq_some_iff.1 hm
      have hlmem := mem_of_childAt hd
      by_cases hkl : k = l
      · subst hkl
        rw [hc] at hd
        cases hd
        rw [ih (nodup_child hkmem hn.2) hx' hm', List.cons_prefix_cons]
        simp
      · constructor
        · intro hin
          have hbelow := ids_subset_of_at hx' hin
          exact absurd (ids_subset_of_at hm' (id_mem_ids m))
            (disjoint_children hkmem hlmem hkl hn.2 _ hbelow)
        · intro hpre
          exact absurd (List.cons_prefix_cons.1 hpre).1 hkl

/-- With a child its whole subtree goes. -/
theorem mem_ids_edit_removeFirst {p q : ℕ} {k : α} {n m x : Node κ α} (hn : n.ids.Nodup)
    (hm : find? p n = some m) (hx : childAt? k m.children = some x) :
    q ∈ (edit p (removeFirst k) n).ids ↔ q ∈ n.ids ∧ q ∉ x.ids := by
  have hedit := count_ids_edit (q := q) (removeFirst k) n hn hm
  have hremove := count_removeFirst q hx
  have hle := List.nodup_iff_count_le_one.1 hn q
  simp only [← List.count_pos_iff]
  omega

end keys

end Node

end Nssf.Base
