import Mathlib.Data.List.Infix
import Mathlib.Data.Nat.Notation

/-! Matches of a pattern in a list, taken from the left and without overlap, and the first place
where one list occurs in another. -/

namespace Nssf.Base.Matches

variable {α β : Type}

section scan

variable {matchAt : List α → Option (β × List α)}

/-- `matchAt` gives what matches at the head of a list and what is left behind it; `skip` elements
still belong to the last match. -/
def scanFrom (matchAt : List α → Option (β × List α)) : ℕ → List α → List β
  | _, [] => []
  | skip + 1, _ :: cs => scanFrom matchAt skip cs
  | 0, c :: cs =>
    match matchAt (c :: cs) with
    | some (b, rest) => b :: scanFrom matchAt (cs.length - rest.length) cs
    | none => scanFrom matchAt 0 cs

def scan (matchAt : List α → Option (β × List α)) (cs : List α) : List β := scanFrom matchAt 0 cs

/-- A match takes something and leaves the rest as it is. -/
def Lawful (matchAt : List α → Option (β × List α)) : Prop :=
  ∀ cs b rest, matchAt cs = some (b, rest) → ∃ taken, taken ≠ [] ∧ cs = taken ++ rest

theorem scanFrom_eq_drop (skip : ℕ) (cs : List α) :
    scanFrom matchAt skip cs = scan matchAt (cs.drop skip) := by
  induction cs generalizing skip with
  | nil => rw [List.drop_nil, scan, scanFrom, scanFrom]
  | cons c cs ih =>
    cases skip with
    | zero => rfl
    | succ skip =>
      rw [scanFrom, List.drop_succ_cons]
      exact ih skip

theorem scan_of_match (hlaw : Lawful matchAt) {cs : List α} {b : β} {rest : List α}
    (h : matchAt cs = some (b, rest)) : scan matchAt cs = b :: scan matchAt rest := by
  obtain ⟨taken, hne, rfl⟩ := hlaw cs b rest h
  cases taken with
  | nil => exact absurd rfl hne
  | cons c taken =>
    rw [List.cons_append] at h ⊢
    rw [scan, scanFrom, h]
    simp only [scanFrom_eq_drop, List.length_append, Nat.add_sub_cancel, List.drop_left]

theorem scan_of_none {c : α} {cs : List α} (h : matchAt (c :: cs) = none) :
    scan matchAt (c :: cs) = scan matchAt cs := by
  rw [scan, scanFrom, h]
  rfl

/-- What is found is found at some place, with the list as it is from there on. -/
theorem exists_of_mem_scan (hlaw : Lawful matchAt) {cs : List α} {b : β}
    (h : b ∈ scan matchAt cs) : ∃ before from_ rest, cs = before ++ from_ ∧
      matchAt from_ = some (b, rest) := by
  generalize hn : cs.length = n
  induction n using Nat.strongRecOn generalizing cs with
  | _ n ih =>
    cases cs with
    | nil => simp [scan, scanFrom] at h
    | cons c cs =>
      cases hmatch : matchAt (c :: cs) with
      | none =>
        rw [scan_of_none hmatch] at h
        obtain ⟨before, from_, rest, rfl, hfrom⟩ := ih cs.length (by simp [← hn]) h rfl
        exact ⟨c :: before, from_, rest, rfl, hfrom⟩
      | some found =>
        obtain ⟨b', rest⟩ := found
        rw [scan_of_match hlaw hmatch, List.mem_cons] at h
        obtain rfl | h := h
        · exact ⟨[], c :: cs, rest, rfl, hmatch⟩
        · obtain ⟨taken, hne, htaken⟩ := hlaw _ _ _ hmatch
          have hlt : rest.length < n := by
            have hpos := List.length_pos_of_ne_nil hne
            rw [← hn, htaken, List.length_append]
            omega
          obtain ⟨before, from_, rest', hrest, hfrom⟩ := ih rest.length hlt h rfl
          exact ⟨taken ++ before, from_, rest', by rw [htaken, hrest, List.append_assoc], hfrom⟩

/-- No match begins in the list, whatever comes after it. -/
def Quiet (matchAt : List α → Option (β × List α)) (g : List α) : Prop :=
  ∀ before c after, g = before ++ c :: after → ∀ rest, matchAt (c :: after ++ rest) = none

theorem quiet_cons_iff {c : α} {g : List α} :
    Quiet matchAt (c :: g) ↔ (∀ rest, matchAt (c :: g ++ rest) = none) ∧ Quiet matchAt g := by
  constructor
  · intro h
    exact ⟨h [] c g rfl, fun before d after hg => h (c :: before) d after (by rw [hg]; rfl)⟩
  · rintro ⟨hhead, htail⟩ before d after hg
    cases before with
    | nil =>
      cases hg
      exact hhead
    | cons b before =>
      rw [List.cons_append, List.cons.injEq] at hg
      exact htail before d after hg.2

theorem Quiet.append {g g' : List α} (h : Quiet matchAt g) (h' : Quiet matchAt g') :
    Quiet matchAt (g ++ g') := by
  induction g with
  | nil => exact h'
  | cons c g ih =>
    obtain ⟨hhead, htail⟩ := quiet_cons_iff.1 h
    refine quiet_cons_iff.2 ⟨fun rest => ?_, ih htail⟩
    have := hhead (g' ++ rest)
    rwa [List.cons_append, ← List.append_assoc] at this

theorem scan_quiet {g : List α} (h : Quiet matchAt g) (rest : List α) :
    scan matchAt (g ++ rest) = scan matchAt rest := by
  induction g with
  | nil => rfl
  | cons c g ih =>
    obtain ⟨hhead, htail⟩ := quiet_cons_iff.1 h
    have hnone : matchAt (c :: (g ++ rest)) = none := hhead rest
    rw [List.cons_append, scan_of_none hnone, ih htail]

end scan

/-- What has no separator in it ends before the first one. -/
theorem prefix_of_separated {m a b : List α} {sep : α} (hsep : sep ∉ m)
    (h : m <+: a ++ sep :: b) : m <+: a := by
  by_cases hlen : m.length ≤ a.length
  · exact List.prefix_of_prefix_length_le h (List.prefix_append a (sep :: b)) hlen
  · have hpre : a ++ [sep] <+: m := by
      refine List.prefix_of_prefix_length_le ⟨b, by simp⟩ h ?_
      rw [List.length_append, List.length_singleton]
      omega
    exact absurd (hpre.subset (by simp)) hsep

/-- Where a pattern's head occurs in it only once, no occurrence begins in one part and ends in
the next that begins with this head. -/
theorem infix_or_of_head {p : α} {ps a b : List α} (hp : p ∉ ps) (h : p :: ps <:+: a ++ p :: b) :
    p :: ps <:+: a ∨ p :: ps <:+: p :: b := by
  induction a with
  | nil => exact .inr h
  | cons c a ih =>
    rw [List.cons_append, List.infix_cons_iff, List.cons_prefix_cons] at h
    obtain ⟨rfl, hps⟩ | h := h
    · exact .inl (List.cons_prefix_cons.2 ⟨rfl, prefix_of_separated hp hps⟩).isInfix
    · exact (ih h).imp (fun hleft => hleft.trans (List.infix_cons List.infix_rfl)) id

section first

variable [DecidableEq α] {pat : List α}

/-- What lies before the first occurrence of a pattern and after it. -/
def splitFirst (pat : List α) : List α → Option (List α × List α)
  | [] => if pat = [] then some ([], []) else none
  | c :: cs =>
    if pat.isPrefixOf (c :: cs) then some ([], (c :: cs).drop pat.length)
    else (splitFirst pat cs).map fun p => (c :: p.1, p.2)

theorem splitFirst_now (rest : List α) : splitFirst pat (pat ++ rest) = some ([], rest) := by
  cases pat with
  | nil => cases rest <;> rfl
  | cons p ps =>
    rw [List.cons_append, splitFirst, ← List.cons_append,
      if_pos (List.isPrefixOf_iff_prefix.2 (List.prefix_append _ _)), List.drop_left]

theorem splitFirst_spec {cs body rest : List α} (h : splitFirst pat cs = some (body, rest)) :
    cs = body ++ pat ++ rest := by
  induction cs generalizing body with
  | nil =>
    rw [splitFirst] at h
    split_ifs at h with hpat
    cases h
    simp [hpat]
  | cons c cs ih =>
    rw [splitFirst] at h
    split_ifs at h with hhead
    · cases h
      obtain ⟨rest, hrest⟩ := List.isPrefixOf_iff_prefix.1 hhead
      rw [← hrest, List.drop_left, List.nil_append]
    · obtain ⟨p, hp, heq⟩ := Option.map_eq_some_iff.1 h
      cases heq
      rw [ih hp]
      rfl

theorem isPrefixOf_append_congr {cs : List α} (hlen : pat.length ≤ cs.length) (x y : List α) :
    pat.isPrefixOf (cs ++ x) = pat.isPrefixOf (cs ++ y) := by
  have hiff : ∀ z, pat.isPrefixOf (cs ++ z) = true ↔ pat <+: cs := fun z => by
    rw [List.isPrefixOf_iff_prefix]
    exact ⟨fun h => List.prefix_of_prefix_length_le h (List.prefix_append cs z) hlen,
      fun h => h.trans (List.prefix_append cs z)⟩
  rw [Bool.eq_iff_iff, hiff, hiff]

/-- Where the first occurrence is does not depend on what comes after it. -/
theorem splitFirst_append {body rest : List α}
    (h : splitFirst pat (body ++ pat ++ rest) = some (body, rest)) (post : List α) :
    splitFirst pat (body ++ pat ++ post) = some (body, post) := by
  induction body with
  | nil =>
    rw [List.nil_append, splitFirst_now]
  | cons c body ih =>
    have hcongr := @isPrefixOf_append_congr _ _ pat (c :: body ++ pat)
      (by rw [List.length_append]; omega) rest post
    simp only [List.cons_append] at h hcongr ⊢
    rw [splitFirst] at h ⊢
    split_ifs at h with hhead
    · cases h
    · rw [if_neg (by rwa [← hcongr])]
      obtain ⟨p, hp, heq⟩ := Option.map_eq_some_iff.1 h
      obtain ⟨p₁, p₂⟩ := p
      cases heq
      rw [ih hp]
      rfl

theorem splitFirst_fresh {p : α} {ps body : List α} (h : p ∉ body) (post : List α) :
    splitFirst (p :: ps) (body ++ p :: ps ++ post) = some (body, post) := by
  induction body with
  | nil => rw [List.nil_append, splitFirst_now]
  | cons c body ih =>
    rw [List.mem_cons, not_or] at h
    have hhead : ¬(p :: ps).isPrefixOf (c :: body ++ p :: ps ++ post) = true := by
      rw [List.isPrefixOf_iff_prefix]
      exact fun hp => h.1 (List.cons_prefix_cons.1 hp).1
    simp only [List.cons_append] at hhead ih ⊢
    rw [splitFirst, if_neg hhead, ih h.2]
    rfl

theorem splitFirst_eq_none {cs : List α} (h : ¬pat <:+: cs) : splitFirst pat cs = none := by
  induction cs with
  | nil =>
    rw [splitFirst, if_neg]
    rintro rfl
    exact h (List.nil_infix)
  | cons c cs ih =>
    rw [List.infix_cons_iff, not_or] at h
    rw [splitFirst, if_neg (by rw [List.isPrefixOf_iff_prefix]; exact h.1), ih h.2]
    rfl

theorem exists_splitFirst {cs : List α} (h : pat <:+: cs) : ∃ p, splitFirst pat cs = some p := by
  induction cs with
  | nil => exact ⟨([], []), if_pos (List.infix_nil.1 h)⟩
  | cons c cs ih =>
    rw [splitFirst]
    split_ifs with hhead
    · exact ⟨_, rfl⟩
    · obtain hprefix | hinfix := List.infix_cons_iff.1 h
      · exact absurd (List.isPrefixOf_iff_prefix.2 hprefix) hhead
      · obtain ⟨p, hp⟩ := ih hinfix
        exact ⟨_, by rw [hp]; rfl⟩

/-- An occurrence in the first part is the first occurrence in the whole. -/
theorem splitFirst_left {cs body rest : List α} (h : splitFirst pat cs = some (body, rest))
    (post : List α) : splitFirst pat (cs ++ post) = some (body, rest ++ post) := by
  have hcs := splitFirst_spec h
  subst hcs
  rw [List.append_assoc]
  exact splitFirst_append h (rest ++ post)

/-- A first part without an occurrence is passed over up to its separator. -/
theorem splitFirst_right {a : List α} {sep : α} (hsep : sep ∉ pat) (h : ¬pat <:+: a)
    (b : List α) :
    splitFirst pat (a ++ sep :: b) = (splitFirst pat b).map fun p => (a ++ sep :: p.1, p.2) := by
  induction a with
  | nil =>
    have hhead : ¬pat.isPrefixOf (sep :: b) = true := by
      rw [List.isPrefixOf_iff_prefix]
      exact fun hp => h (List.prefix_nil.1 (prefix_of_separated (a := []) hsep hp) ▸ List.nil_infix)
    rw [List.nil_append, splitFirst, if_neg hhead]
    rfl
  | cons c a ih =>
    rw [List.infix_cons_iff, not_or] at h
    have hhead : ¬pat.isPrefixOf (c :: (a ++ sep :: b)) = true := by
      rw [List.isPrefixOf_iff_prefix]
      exact fun hp => h.1 (prefix_of_separated (a := c :: a) hsep hp)
    rw [List.cons_append, splitFirst, if_neg hhead, ih h.2, Option.map_map]
    rfl

theorem splitFirst_head {p : α} {ps a : List α} (hp : p ∉ ps) (h : ¬p :: ps <:+: a)
    (rest : List α) : splitFirst (p :: ps) (a ++ p :: (ps ++ rest)) = some (a, rest) := by
  induction a with
  | nil => rw [List.nil_append, ← List.cons_append, splitFirst_now]
  | cons c a ih =>
    rw [List.infix_cons_iff, not_or] at h
    have hhead : ¬(p :: ps).isPrefixOf (c :: (a ++ p :: (ps ++ rest))) = true := by
      rw [List.isPrefixOf_iff_prefix, List.cons_prefix_cons]
      rintro ⟨rfl, hps⟩
      exact h.1 (List.cons_prefix_cons.2 ⟨rfl, prefix_of_separated hp hps⟩)
    rw [List.cons_append, splitFirst, if_neg hhead, ih h.2]
    rfl

end first

end Nssf.Base.Matches
