import Mathlib.Data.List.Nodup
import Mathlib.Data.List.Perm.Basic

/-! Arrays of records addressed by a key. An update or a removal at an index is, when the keys
are distinct, the update or the removal of the one record with that key. `swapRemove` fills
the gap with the last record, as an array without order does. -/

namespace Nssf.Base

variable {α κ : Type} [DecidableEq κ] {key : α → κ} {l : List α} {i : ℕ} {a : α}

def updateKey (key : α → κ) (k : κ) (f : α → α) (l : List α) : List α :=
  l.map fun b => if key b = k then f b else b

def removeKey (key : α → κ) (k : κ) (l : List α) : List α :=
  l.filter fun b => key b ≠ k

def swapRemove (l : List α) (i : ℕ) : List α :=
  match l.getLast? with
  | none => l
  | some z => (l.set i z).dropLast

theorem updateKey_of_forall_ne {k : κ} {f : α → α} (h : ∀ b ∈ l, key b ≠ k) :
    updateKey key k f l = l := by
  unfold updateKey
  conv_rhs => rw [← List.map_id l]
  apply List.map_congr_left
  intro b hb
  simp only [if_neg (h b hb), id]

theorem removeKey_of_forall_ne {k : κ} (h : ∀ b ∈ l, key b ≠ k) :
    removeKey key k l = l := by
  unfold removeKey
  rw [List.filter_eq_self]
  intro b hb
  simpa using h b hb

theorem modify_eq_updateKey (hn : (l.map key).Nodup) (ha : l[i]? = some a) (f : α → α) :
    l.modify i f = updateKey key (key a) f l := by
  induction l generalizing i with
  | nil => simp at ha
  | cons b l ih =>
    rw [List.map_cons, List.nodup_cons] at hn
    cases i with
    | zero =>
      have hb : b = a := by simpa using ha
      subst hb
      have hl : ∀ c ∈ l, key c ≠ key b := by
        intro c hc he
        exact hn.1 (he ▸ List.mem_map_of_mem hc)
      have ht := updateKey_of_forall_ne (f := f) hl
      unfold updateKey at ht
      simp only [List.modify_zero_cons, updateKey, List.map_cons, if_true, ht]
    | succ i =>
      have ha' : l[i]? = some a := by simpa using ha
      have hne : key b ≠ key a := by
        intro he
        exact hn.1 (he ▸ List.mem_map_of_mem (List.mem_of_getElem? ha'))
      rw [List.modify_succ_cons, ih hn.2 ha']
      simp only [updateKey, List.map_cons, if_neg hne]

theorem eraseIdx_eq_removeKey (hn : (l.map key).Nodup) (ha : l[i]? = some a) :
    l.eraseIdx i = removeKey key (key a) l := by
  induction l generalizing i with
  | nil => simp at ha
  | cons b l ih =>
    rw [List.map_cons, List.nodup_cons] at hn
    cases i with
    | zero =>
      have hb : b = a := by simpa using ha
      subst hb
      have hl : ∀ c ∈ l, key c ≠ key b := by
        intro c hc he
        exact hn.1 (he ▸ List.mem_map_of_mem hc)
      have ht := removeKey_of_forall_ne hl
      unfold removeKey at ht ⊢
      rw [List.eraseIdx_cons_zero, List.filter_cons_of_neg (by simp), ht]
    | succ i =>
      have ha' : l[i]? = some a := by simpa using ha
      have hne : key b ≠ key a := by
        intro he
        exact hn.1 (he ▸ List.mem_map_of_mem (List.mem_of_getElem? ha'))
      have ht := ih hn.2 ha'
      unfold removeKey at ht ⊢
      rw [List.eraseIdx_cons_succ, List.filter_cons_of_pos (by simpa using hne), ht]

theorem mem_removeKey {k : κ} {b : α} : b ∈ removeKey key k l ↔ b ∈ l ∧ key b ≠ k := by
  simp [removeKey]

theorem nodup_removeKey {k : κ} (hn : (l.map key).Nodup) :
    ((removeKey key k l).map key).Nodup :=
  hn.sublist (List.Sublist.map key List.filter_sublist)

theorem map_key_updateKey {k : κ} {f : α → α} (hf : ∀ b, key (f b) = key b) :
    (updateKey key k f l).map key = l.map key := by
  unfold updateKey
  rw [List.map_map]
  apply List.map_congr_left
  intro b _
  simp only [Function.comp_apply]
  split_ifs
  · exact hf b
  · rfl

theorem removeKey_updateKey {k : κ} {f : α → α} (hf : ∀ b, key (f b) = key b) :
    removeKey key k (updateKey key k f l) = removeKey key k l := by
  induction l with
  | nil => rfl
  | cons b l ih =>
    simp only [removeKey, updateKey, List.map_cons] at ih ⊢
    by_cases hb : key b = k
    · rw [if_pos hb, List.filter_cons_of_neg (by simp [hf, hb]),
        List.filter_cons_of_neg (by simp [hb]), ih]
    · rw [if_neg hb, List.filter_cons_of_pos (by simp [hb]),
        List.filter_cons_of_pos (by simp [hb]), ih]

theorem removeKey_removeKey (k : κ) :
    removeKey key k (removeKey key k l) = removeKey key k l := by
  simp only [removeKey, List.filter_filter, Bool.and_self]

theorem mem_updateKey {k : κ} {f : α → α} {b : α} :
    b ∈ updateKey key k f l ↔
      (∃ c ∈ l, key c = k ∧ f c = b) ∨ (b ∈ l ∧ key b ≠ k) := by
  unfold updateKey
  rw [List.mem_map]
  constructor
  · intro h
    obtain ⟨c, hc, he⟩ := h
    by_cases hk : key c = k
    · rw [if_pos hk] at he
      exact Or.inl ⟨c, hc, hk, he⟩
    · rw [if_neg hk] at he
      subst he
      exact Or.inr ⟨hc, hk⟩
  · intro h
    rcases h with ⟨c, hc, hk, he⟩ | ⟨hb, hk⟩
    · exact ⟨c, hc, by rw [if_pos hk, he]⟩
    · exact ⟨b, hb, if_neg hk⟩

def findKey (key : α → κ) (k : κ) (l : List α) : Option α := l.find? fun b => key b = k

theorem findKey_eq_some_iff (hn : (l.map key).Nodup) {k : κ} :
    findKey key k l = some a ↔ a ∈ l ∧ key a = k := by
  constructor
  · intro h
    exact ⟨List.mem_of_find?_eq_some h, by simpa using List.find?_some h⟩
  · intro h
    unfold findKey
    cases hf : l.find? fun b => key b = k with
    | none =>
      have hk := List.find?_eq_none.1 hf a h.1
      simp [h.2] at hk
    | some b =>
      have hb := List.mem_of_find?_eq_some hf
      have hk : key b = k := by simpa using List.find?_some hf
      rw [List.inj_on_of_nodup_map hn hb h.1 (hk.trans h.2.symm)]

theorem findKey_filter (hn : (l.map key).Nodup) (p : α → Bool) (k : κ) :
    findKey key k (l.filter p) = (findKey key k l).filter p := by
  have hn' : ((l.filter p).map key).Nodup := hn.sublist (List.Sublist.map key List.filter_sublist)
  apply Option.ext
  intro a
  rw [findKey_eq_some_iff hn', Option.filter_eq_some_iff, findKey_eq_some_iff hn, List.mem_filter]
  tauto

theorem findKey_eq_none_iff {k : κ} : findKey key k l = none ↔ ∀ b ∈ l, key b ≠ k := by
  simp [findKey]

theorem findKey_updateKey {k m : κ} {f : α → α} (hf : ∀ b, key (f b) = key b) :
    findKey key m (updateKey key k f l) =
      if m = k then (findKey key m l).map f else findKey key m l := by
  induction l with
  | nil => simp [findKey, updateKey]
  | cons b l ih =>
    unfold findKey updateKey at ih ⊢
    rw [List.map_cons, List.find?_cons, List.find?_cons, ih]
    by_cases hb : key b = k
    · rw [if_pos hb, hf, hb]
      by_cases hm : k = m
      · simp [hm]
      · simp [hm, Ne.symm hm]
    · rw [if_neg hb]
      by_cases hm : key b = m
      · have hmk : m ≠ k := fun h => hb (hm.trans h)
        simp [hm, hmk]
      · simp [hm]

theorem findKey_removeKey {k m : κ} :
    findKey key m (removeKey key k l) = if m = k then none else findKey key m l := by
  induction l with
  | nil => simp [findKey, removeKey]
  | cons b l ih =>
    unfold findKey removeKey at ih ⊢
    by_cases hb : key b = k
    · rw [List.filter_cons_of_neg (by simp [hb]), ih, List.find?_cons]
      by_cases hm : m = k
      · simp [hm]
      · have hbm : key b ≠ m := fun h => hm (h.symm.trans hb)
        simp [hm, hbm]
    · rw [List.filter_cons_of_pos (by simp [hb]), List.find?_cons, List.find?_cons, ih]
      by_cases hm : key b = m
      · have hmk : m ≠ k := fun h => hb (hm.trans h)
        simp [hm, hmk]
      · simp [hm]

theorem findKey_append_singleton {k : κ} (h : ∀ b ∈ l, key b ≠ key a) :
    findKey key k (l ++ [a]) = if k = key a then some a else findKey key k l := by
  unfold findKey
  rw [List.find?_append]
  by_cases hk : k = key a
  · subst hk
    have hn : l.find? (fun b => key b = key a) = none := by
      rw [List.find?_eq_none]
      intro b hb
      simpa using h b hb
    simp [hn]
  · simp [hk, Ne.symm hk]

/-- An update at the first index of a key shows under that key. -/
theorem findKey_modify_findIdx {k : κ} {f : α → α} (hf : ∀ b, key (f b) = key b)
    (hi : l.findIdx? (fun b => key b == k) = some i) :
    findKey key k (l.modify i f) = (findKey key k l).map f := by
  induction l generalizing i with
  | nil => simp at hi
  | cons b l ih =>
    rw [List.findIdx?_cons] at hi
    unfold findKey at ih ⊢
    by_cases hb : key b = k
    · simp only [hb, beq_self_eq_true, if_true, Option.some.injEq] at hi
      subst hi
      simp [hb, hf]
    · simp only [beq_eq_false_iff_ne.2 hb, Bool.false_eq_true, if_false, Option.map_eq_some_iff]
        at hi
      obtain ⟨j, hj, rfl⟩ := hi
      rw [List.modify_succ_cons, List.find?_cons, List.find?_cons, ih hj]
      simp [hb]

omit [DecidableEq κ] in
theorem eq_of_key_eq (hn : (l.map key).Nodup) {b c : α} (hb : b ∈ l) (hc : c ∈ l)
    (h : key b = key c) : b = c :=
  List.inj_on_of_nodup_map hn hb hc h

/-- A record put at the first index of its own key shows under that key. -/
theorem findKey_set_findIdx {k m : κ} (ha : key a = k)
    (hi : l.findIdx? (fun b => key b == k) = some i) :
    findKey key m (l.set i a) = if m = k then some a else findKey key m l := by
  induction l generalizing i with
  | nil => simp at hi
  | cons b l ih =>
    rw [List.findIdx?_cons] at hi
    unfold findKey at ih ⊢
    by_cases hb : key b = k
    · simp only [hb, beq_self_eq_true, if_true, Option.some.injEq] at hi
      subst hi
      by_cases hm : m = k
      · simp [ha, hm]
      · simp [ha, hb, hm, Ne.symm hm]
    · simp only [beq_eq_false_iff_ne.2 hb, Bool.false_eq_true, if_false, Option.map_eq_some_iff]
        at hi
      obtain ⟨j, hj, rfl⟩ := hi
      rw [List.set_cons_succ, List.find?_cons, List.find?_cons, ih hj]
      by_cases hm : m = k
      · subst hm
        simp [hb]
      · simp [hm]

omit [DecidableEq κ] in
theorem map_key_set (hi : l[i]?.map key = some (key a)) : (l.set i a).map key = l.map key := by
  rw [List.map_set]
  apply List.ext_getElem?
  intro j
  by_cases hj : i = j
  · subst hj
    rw [List.getElem?_map, hi]
    have hlt : i < (l.map key).length := by
      rw [List.length_map]
      by_contra hge
      rw [List.getElem?_eq_none (by omega)] at hi
      cases hi
    exact List.getElem?_set_self hlt
  · rw [List.getElem?_set_ne hj]

theorem findKey_perm {l' : List α} (hp : l.Perm l') (hn : (l.map key).Nodup) (k : κ) :
    findKey key k l = findKey key k l' := by
  have hn' : (l'.map key).Nodup := (hp.map key).nodup_iff.1 hn
  cases h : findKey key k l with
  | none =>
    symm
    rw [findKey_eq_none_iff] at h ⊢
    intro b hb
    exact h b (hp.mem_iff.2 hb)
  | some a =>
    symm
    rw [findKey_eq_some_iff hn] at h
    rw [findKey_eq_some_iff hn']
    exact ⟨hp.mem_iff.1 h.1, h.2⟩

theorem swapRemove_perm (hi : i < l.length) : (swapRemove l i).Perm (l.eraseIdx i) := by
  rcases l.eq_nil_or_concat with rfl | ⟨p, z, hl⟩
  · simp at hi
  rw [List.concat_eq_append] at hl
  subst hl
  have hz : (p ++ [z]).getLast? = some z := by simp
  unfold swapRemove
  rw [hz]
  rw [List.length_append, List.length_singleton] at hi
  by_cases h : i < p.length
  · have hset : ((p ++ [z]).set i z).dropLast = p.set i z := by
      rw [List.set_append_left i z h, List.dropLast_concat]
    have herase : (p ++ [z]).eraseIdx i = p.eraseIdx i ++ [z] :=
      List.eraseIdx_append_of_lt_length h [z]
    simp only [hset, herase]
    exact (List.set_perm_cons_eraseIdx h z).trans (List.perm_append_singleton z _).symm
  · have hip : i = p.length := by omega
    subst hip
    simp [List.eraseIdx_append_of_length_le]

/-- Removing the record at the index of a key leaves every other key as it was. -/
theorem findKey_swapRemove {m : κ} (hn : (l.map key).Nodup) (ha : l[i]? = some a) :
    findKey key m (swapRemove l i) = if m = key a then none else findKey key m l := by
  have hi : i < l.length := (List.getElem?_eq_some_iff.1 ha).1
  have hp := swapRemove_perm hi
  rw [eraseIdx_eq_removeKey hn ha] at hp
  have hn' : ((swapRemove l i).map key).Nodup :=
    (hp.map key).nodup_iff.2 (nodup_removeKey hn)
  rw [findKey_perm hp hn', findKey_removeKey]

theorem nodup_swapRemove (hn : (l.map key).Nodup) (ha : l[i]? = some a) :
    ((swapRemove l i).map key).Nodup := by
  have hi : i < l.length := (List.getElem?_eq_some_iff.1 ha).1
  have hp := swapRemove_perm hi
  rw [eraseIdx_eq_removeKey hn ha] at hp
  exact (hp.map key).nodup_iff.2 (nodup_removeKey hn)

end Nssf.Base
