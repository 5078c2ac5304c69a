import Mathlib.Data.Char
import Mathlib.Data.List.Lex
import Mathlib.Data.List.Sort
import Nssf.Base.JsonText

/-! The content of a JSON value: the members of an object in the order of their names, one for
each name, the last of a name counting. Two values have one content exactly when members can be
moved past each other and overridden members dropped until they are the same. -/

namespace Nssf.Base

section entries

variable {κ α : Type*} [LinearOrder κ]

/-- The entries are in the order of their names, one for each name. -/
def Ordered (es : List (κ × α)) : Prop := es.Pairwise fun e f => e.1 < f.1

/-- Add an entry, unless its name has one. -/
def put (k : κ) (x : α) : List (κ × α) → List (κ × α)
  | [] => [(k, x)]
  | (l, y) :: es =>
    if k < l then (k, x) :: (l, y) :: es
    else if k = l then (l, y) :: es
    else (l, y) :: put k x es

def entryOf (k : κ) : List (κ × α) → Option α
  | [] => none
  | (l, x) :: es => if l = k then some x else entryOf k es

theorem entryOf_eq_none {k : κ} {es : List (κ × α)} (h : ∀ e ∈ es, k < e.1) :
    entryOf k es = none := by
  induction es with
  | nil => rfl
  | cons e es ih =>
    have hlt := h e List.mem_cons_self
    rw [entryOf, if_neg hlt.ne']
    exact ih fun f hf => h f (List.mem_cons_of_mem _ hf)

theorem entryOf_put {es : List (κ × α)} (h : Ordered es) (k l : κ) (x : α) :
    entryOf k (put l x es) = if l = k then some ((entryOf k es).getD x) else entryOf k es := by
  induction es with
  | nil => simp [put, entryOf]
  | cons e es ih =>
    obtain ⟨m, y⟩ := e
    obtain ⟨hlt, hes⟩ := List.pairwise_cons.1 h
    rcases lt_trichotomy l m with hfront | rfl | hback
    · rw [put, if_pos hfront, entryOf]
      split_ifs with heq
      · have hnone : entryOf k ((m, y) :: es) = none := by
          apply entryOf_eq_none
          intro f hf
          rw [← heq]
          rcases List.mem_cons.1 hf with rfl | hf
          · exact hfront
          · exact hfront.trans (hlt f hf)
        rw [hnone]
        rfl
      · rfl
    · rw [put, if_neg (lt_irrefl l), if_pos rfl, entryOf]
      split_ifs with heq
      · rfl
      · rfl
    · rw [put, if_neg hback.not_gt, if_neg hback.ne', entryOf, entryOf, ih hes]
      split_ifs with heq heq'
      · exact absurd (heq.trans heq'.symm) hback.ne
      · rfl
      · rfl
      · rfl

theorem mem_put {k : κ} {x : α} {es : List (κ × α)} {e : κ × α} (h : e ∈ put k x es) :
    e = (k, x) ∨ e ∈ es := by
  induction es with
  | nil => exact Or.inl (List.mem_singleton.1 h)
  | cons f es ih =>
    simp only [put] at h
    split_ifs at h
    · exact List.mem_cons.1 h
    · exact Or.inr h
    · rcases List.mem_cons.1 h with rfl | h
      · exact Or.inr List.mem_cons_self
      · rcases ih h with h | h
        · exact Or.inl h
        · exact Or.inr (List.mem_cons_of_mem _ h)

theorem ordered_put {es : List (κ × α)} (h : Ordered es) (k : κ) (x : α) :
    Ordered (put k x es) := by
  induction es with
  | nil => exact List.pairwise_singleton _ _
  | cons e es ih =>
    obtain ⟨m, y⟩ := e
    obtain ⟨hlt, hes⟩ := List.pairwise_cons.1 h
    simp only [put]
    split_ifs with hfront hsame
    · refine List.pairwise_cons.2 ⟨fun f hf => ?_, h⟩
      rcases List.mem_cons.1 hf with rfl | hf
      · exact hfront
      · exact hfront.trans (hlt f hf)
    · exact h
    · refine List.pairwise_cons.2 ⟨fun f hf => ?_, ih hes⟩
      rcases mem_put hf with rfl | hf
      · exact lt_of_le_of_ne (not_lt.1 hfront) (Ne.symm hsame)
      · exact hlt f hf

/-- Ordered entries are known by what each name has. -/
theorem Ordered.ext {es fs : List (κ × α)} (hes : Ordered es) (hfs : Ordered fs)
    (h : ∀ k, entryOf k es = entryOf k fs) : es = fs := by
  induction es generalizing fs with
  | nil =>
    cases fs with
    | nil => rfl
    | cons f fs =>
      have hf := h f.1
      rw [entryOf, entryOf, if_pos rfl] at hf
      cases hf
  | cons e es ih =>
    cases fs with
    | nil =>
      have he := h e.1
      rw [entryOf, entryOf, if_pos rfl] at he
      cases he
    | cons f fs =>
      obtain ⟨k, x⟩ := e
      obtain ⟨l, y⟩ := f
      obtain ⟨hlt, hes'⟩ := List.pairwise_cons.1 hes
      obtain ⟨hlt', hfs'⟩ := List.pairwise_cons.1 hfs
      have hk := h k
      have hl := h l
      simp only [entryOf, if_true] at hk hl
      have hname : k = l := by
        rcases lt_trichotomy k l with hkl | hkl | hkl
        · rw [if_neg hkl.ne', entryOf_eq_none fun f hf => hkl.trans (hlt' f hf)] at hk
          cases hk
        · exact hkl
        · rw [if_neg hkl.ne', entryOf_eq_none fun f hf => hkl.trans (hlt f hf)] at hl
          cases hl
      subst hname
      rw [if_pos rfl] at hk
      obtain rfl := Option.some.inj hk
      congr 1
      apply ih hes' hfs'
      intro m
      have hm := h m
      simp only [entryOf] at hm
      split_ifs at hm with hkm
      · rw [← hkm, entryOf_eq_none hlt, entryOf_eq_none hlt']
      · exact hm

theorem put_put {es : List (κ × α)} (h : Ordered es) (k : κ) (x y : α) :
    put k x (put k y es) = put k y es := by
  have hput := ordered_put h k y
  apply (ordered_put hput k x).ext hput
  intro m
  rw [entryOf_put hput, entryOf_put h]
  split_ifs <;> rfl

theorem put_comm {es : List (κ × α)} (h : Ordered es) {k l : κ} (hkl : k ≠ l) (x y : α) :
    put k x (put l y es) = put l y (put k x es) := by
  apply (ordered_put (ordered_put h l y) k x).ext (ordered_put (ordered_put h k x) l y)
  intro m
  rw [entryOf_put (ordered_put h l y), entryOf_put h, entryOf_put (ordered_put h k x), entryOf_put h]
  split_ifs with hk hl
  · exact absurd (hk.trans hl.symm) hkl
  · rfl
  · rfl
  · rfl

end entries

namespace JsonText

mutual

/-- The value with its members in order, one for each name. -/
def Value.canonical : Value → Value
  | .array vs => .array (canonicalItems vs)
  | .object ms => .object (canonicalMembers ms)
  | v => v

def canonicalItems : List Value → List Value
  | [] => []
  | v :: vs => v.canonical :: canonicalItems vs

def canonicalMembers : List (List Char × Value) → List (List Char × Value)
  | [] => []
  | (k, v) :: ms => put k v.canonical (canonicalMembers ms)

end

/-- One value comes from the other by moving members of different names past each other and by
dropping or adding members that a later one of their name overrides. -/
inductive Rearranged : Value → Value → Prop where
  | refl (v : Value) : Rearranged v v
  | symm {v w : Value} : Rearranged v w → Rearranged w v
  | trans {u v w : Value} : Rearranged u v → Rearranged v w → Rearranged u w
  | item (vs ws : List Value) {v w : Value} :
    Rearranged v w → Rearranged (.array (vs ++ v :: ws)) (.array (vs ++ w :: ws))
  | member (ms ns : List (List Char × Value)) (k : List Char) {v w : Value} :
    Rearranged v w → Rearranged (.object (ms ++ (k, v) :: ns)) (.object (ms ++ (k, w) :: ns))
  | moved (ms ns : List (List Char × Value)) {k l : List Char} (v w : Value) : k ≠ l →
    Rearranged (.object (ms ++ (k, v) :: (l, w) :: ns)) (.object (ms ++ (l, w) :: (k, v) :: ns))
  | overridden (ms ns : List (List Char × Value)) (k : List Char) (v w : Value) :
    Rearranged (.object (ms ++ (k, v) :: (k, w) :: ns)) (.object (ms ++ (k, w) :: ns))

theorem ordered_canonicalMembers : ∀ ms : List (List Char × Value), Ordered (canonicalMembers ms)
  | [] => List.Pairwise.nil
  | (k, v) :: ms => ordered_put (ordered_canonicalMembers ms) k v.canonical

theorem canonicalItems_append (vs ws : List Value) :
    canonicalItems (vs ++ ws) = canonicalItems vs ++ canonicalItems ws := by
  induction vs with
  | nil => rfl
  | cons v vs ih => rw [List.cons_append, canonicalItems, canonicalItems, ih, List.cons_append]

theorem canonicalMembers_append {ns ns' : List (List Char × Value)}
    (h : canonicalMembers ns = canonicalMembers ns') (ms : List (List Char × Value)) :
    canonicalMembers (ms ++ ns) = canonicalMembers (ms ++ ns') := by
  induction ms with
  | nil => exact h
  | cons m ms ih => rw [List.cons_append, List.cons_append, canonicalMembers, canonicalMembers, ih]

theorem canonical_eq_of_rearranged {v w : Value} (h : Rearranged v w) :
    v.canonical = w.canonical := by
  induction h with
  | refl v => rfl
  | symm _ ih => exact ih.symm
  | trans _ _ ih ih' => exact ih.trans ih'
  | item vs ws _ ih =>
    simp only [Value.canonical, canonicalItems_append, canonicalItems, ih]
  | member ms ns k _ ih =>
    simp only [Value.canonical]
    rw [canonicalMembers_append _ ms]
    simp only [canonicalMembers, ih]
  | moved ms ns v w hkl =>
    simp only [Value.canonical]
    rw [canonicalMembers_append _ ms]
    simp only [canonicalMembers]
    exact put_comm (ordered_canonicalMembers ns) hkl _ _
  | overridden ms ns k v w =>
    simp only [Value.canonical]
    rw [canonicalMembers_append _ ms]
    simp only [canonicalMembers]
    exact put_put (ordered_canonicalMembers ns) k _ _

/-- The first member of an object may be sorted into the others. -/
theorem rearranged_put (k : List Char) (v : Value) (ms es : List (List Char × Value)) :
    Rearranged (.object (ms ++ (k, v) :: es)) (.object (ms ++ put k v es)) := by
  induction es generalizing ms with
  | nil => exact .refl _
  | cons e es ih =>
    obtain ⟨l, w⟩ := e
    simp only [put]
    split_ifs with hfront hsame
    · exact .refl _
    · subst hsame
      exact .overridden ms es k v w
    · have hrest := ih (ms ++ [(l, w)])
      rw [List.append_assoc, List.append_assoc] at hrest
      exact (Rearranged.moved ms es v w hsame).trans hrest

mutual

theorem rearranged_canonical : ∀ v : Value, Rearranged v v.canonical
  | .null => .refl _
  | .bool _ => .refl _
  | .number _ => .refl _
  | .string _ => .refl _
  | .array vs => rearranged_items [] vs
  | .object ms => rearranged_members [] ms

theorem rearranged_items (us : List Value) : ∀ vs : List Value,
    Rearranged (.array (us ++ vs)) (.array (us ++ canonicalItems vs))
  | [] => .refl _
  | v :: vs => by
    have hhead := Rearranged.item us vs (rearranged_canonical v)
    have htail := rearranged_items (us ++ [v.canonical]) vs
    rw [List.append_assoc, List.append_assoc] at htail
    exact hhead.trans htail

theorem rearranged_members (us : List (List Char × Value)) :
    ∀ ms : List (List Char × Value),
      Rearranged (.object (us ++ ms)) (.object (us ++ canonicalMembers ms))
  | [] => .refl _
  | (k, v) :: ms => by
    have hhead := Rearranged.member us ms k (rearranged_canonical v)
    have htail := rearranged_members (us ++ [(k, v.canonical)]) ms
    rw [List.append_assoc, List.append_assoc] at htail
    exact (hhead.trans htail).trans (rearranged_put k v.canonical us (canonicalMembers ms))

end

theorem canonical_eq_iff {v w : Value} : v.canonical = w.canonical ↔ Rearranged v w := by
  constructor
  · intro h
    have hw := rearranged_canonical w
    rw [← h] at hw
    exact (rearranged_canonical v).trans hw.symm
  · exact canonical_eq_of_rearranged

/-- The value that an object has for a name: that of its last member of the name. -/
def lastMember? (k : List Char) : List (List Char × Value) → Option Value
  | [] => none
  | (l, v) :: ms => lastMember? k ms <|> if l = k then some v else none

theorem entryOf_canonicalMembers (k : List Char) (ms : List (List Char × Value)) :
    entryOf k (canonicalMembers ms) = (lastMember? k ms).map Value.canonical := by
  induction ms with
  | nil => rfl
  | cons m ms ih =>
    obtain ⟨l, v⟩ := m
    rw [canonicalMembers, entryOf_put (ordered_canonicalMembers ms), ih, lastMember?]
    split_ifs with h
    · cases lastMember? k ms <;> rfl
    · cases lastMember? k ms <;> rfl

/-- Objects have one content when each name has one in both. -/
theorem canonicalMembers_eq {ms ns : List (List Char × Value)}
    (h : ∀ k, (lastMember? k ms).map Value.canonical = (lastMember? k ns).map Value.canonical) :
    canonicalMembers ms = canonicalMembers ns := by
  apply (ordered_canonicalMembers ms).ext (ordered_canonicalMembers ns)
  intro k
  rw [entryOf_canonicalMembers, entryOf_canonicalMembers, h]

end JsonText

end Nssf.Base
