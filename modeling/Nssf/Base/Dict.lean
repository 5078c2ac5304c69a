import Nssf.Base.KeyedList

/-! Dictionaries that keep the order of insertion. A key that is set again keeps its place. -/

namespace Nssf.Base

variable {κ ν : Type}

structure Dict (κ ν : Type) where
  entries : List (κ × ν)
  nodup : (entries.map Prod.fst).Nodup

namespace Dict

def empty : Dict κ ν := ⟨[], List.nodup_nil⟩

def keys (d : Dict κ ν) : List κ := d.entries.map Prod.fst

theorem nodup_keys (d : Dict κ ν) : d.keys.Nodup := d.nodup

def size (d : Dict κ ν) : ℕ := d.entries.length

variable [DecidableEq κ]

def setEntry (k : κ) (v : ν) : List (κ × ν) → List (κ × ν)
  | [] => [(k, v)]
  | (l, w) :: es => if l = k then (k, v) :: es else (l, w) :: setEntry k v es

theorem setEntry_keys (k : κ) (v : ν) (es : List (κ × ν)) :
    (setEntry k v es).map Prod.fst =
      if k ∈ es.map Prod.fst then es.map Prod.fst else es.map Prod.fst ++ [k] := by
  induction es with
  | nil => rfl
  | cons e es ih =>
    obtain ⟨l, w⟩ := e
    simp only [setEntry]
    by_cases hl : l = k
    · simp [hl]
    · rw [if_neg hl, List.map_cons, ih]
      by_cases hk : k ∈ es.map Prod.fst
      · simp [hk]
      · simp [hk, Ne.symm hl]

def set (d : Dict κ ν) (k : κ) (v : ν) : Dict κ ν where
  entries := setEntry k v d.entries
  nodup := by
    rw [setEntry_keys]
    split_ifs with hk
    · exact d.nodup
    · exact d.nodup.append (List.nodup_singleton k) (by simpa using hk)

def get? (d : Dict κ ν) (k : κ) : Option ν := (findKey Prod.fst k d.entries).map Prod.snd

/-- The entries are set one after the other. -/
def ofList (es : List (κ × ν)) : Dict κ ν := es.foldl (fun d e => d.set e.1 e.2) empty

theorem keys_set (d : Dict κ ν) (k : κ) (v : ν) :
    (d.set k v).keys = if k ∈ d.keys then d.keys else d.keys ++ [k] :=
  setEntry_keys k v d.entries

theorem find_setEntry (j k : κ) (v : ν) (es : List (κ × ν)) :
    findKey Prod.fst j (setEntry k v es) =
      if j = k then some (k, v) else findKey Prod.fst j es := by
  induction es with
  | nil => simp [setEntry, findKey, eq_comm]
  | cons e es ih =>
    obtain ⟨l, w⟩ := e
    simp only [setEntry]
    by_cases hl : l = k
    · subst hl
      by_cases hj : l = j
      · simp [findKey, hj]
      · simp [findKey, hj, Ne.symm hj]
    · simp only [findKey] at ih
      simp only [if_neg hl, findKey, List.find?_cons, ih]
      by_cases hj : j = k
      · rw [hj]
        simp [hl]
      · simp [hj]

theorem get?_set (d : Dict κ ν) (j k : κ) (v : ν) :
    (d.set k v).get? j = if j = k then some v else d.get? j := by
  have hfind : findKey Prod.fst j (d.set k v).entries = _ := find_setEntry j k v d.entries
  rw [get?, hfind]
  split_ifs with hj
  · rfl
  · rfl

theorem get?_eq_some_iff (d : Dict κ ν) {k : κ} {v : ν} :
    d.get? k = some v ↔ (k, v) ∈ d.entries := by
  rw [get?, Option.map_eq_some_iff]
  constructor
  · rintro ⟨e, he, rfl⟩
    obtain ⟨hmem, rfl⟩ := (findKey_eq_some_iff d.nodup).1 he
    exact hmem
  · intro h
    exact ⟨(k, v), (findKey_eq_some_iff d.nodup).2 ⟨h, rfl⟩, rfl⟩

theorem setEntry_of_not_mem {k : κ} (v : ν) {es : List (κ × ν)} (h : k ∉ es.map Prod.fst) :
    setEntry k v es = es ++ [(k, v)] := by
  induction es with
  | nil => rfl
  | cons e es ih =>
    obtain ⟨l, w⟩ := e
    simp only [List.map_cons, List.mem_cons, not_or] at h
    simp only [setEntry, if_neg (Ne.symm h.1), ih h.2, List.cons_append]

theorem foldl_set_entries (d : Dict κ ν) {es : List (κ × ν)}
    (h : (d.keys ++ es.map Prod.fst).Nodup) :
    (es.foldl (fun d e => d.set e.1 e.2) d).entries = d.entries ++ es := by
  induction es generalizing d with
  | nil => rw [List.foldl_nil, List.append_nil]
  | cons e es ih =>
    have hout : e.1 ∉ d.keys := fun hin =>
      (List.nodup_append.1 h).2.2 e.1 hin e.1 (List.mem_cons_self ..) rfl
    have hset : (d.set e.1 e.2).entries = d.entries ++ [e] := setEntry_of_not_mem e.2 hout
    have hkeys : (d.set e.1 e.2).keys = d.keys ++ [e.1] := by rw [keys_set, if_neg hout]
    rw [List.foldl_cons, ih, hset, List.append_assoc]
    · rfl
    · rw [hkeys, List.append_assoc]
      exact h

theorem entries_ofList {es : List (κ × ν)} (h : (es.map Prod.fst).Nodup) :
    (ofList es).entries = es := by
  have hkeys : ((empty : Dict κ ν).keys ++ es.map Prod.fst).Nodup := h
  rw [ofList, foldl_set_entries empty hkeys]
  rfl

theorem get?_foldl_of_not_mem (d : Dict κ ν) {k : κ} {es : List (κ × ν)}
    (h : k ∉ es.map Prod.fst) : (es.foldl (fun d e => d.set e.1 e.2) d).get? k = d.get? k := by
  induction es generalizing d with
  | nil => rfl
  | cons e es ih =>
    simp only [List.map_cons, List.mem_cons, not_or] at h
    rw [List.foldl_cons, ih _ h.2, get?_set, if_neg h.1]

/-- The last value that is set at a key stays. -/
theorem get?_ofList_append {k : κ} {v : ν} (before : List (κ × ν)) {after : List (κ × ν)}
    (h : k ∉ after.map Prod.fst) : (ofList (before ++ (k, v) :: after)).get? k = some v := by
  rw [ofList, List.foldl_append, List.foldl_cons, get?_foldl_of_not_mem _ h, get?_set, if_pos rfl]

/-- The last entry of a key. -/
def Last (es : List (κ × ν)) (k : κ) (v : ν) : Prop :=
  ∃ before after, es = before ++ (k, v) :: after ∧ k ∉ after.map Prod.fst

omit [DecidableEq κ] in
theorem Last.mem {es : List (κ × ν)} {k : κ} {v : ν} (h : Last es k v) : (k, v) ∈ es := by
  obtain ⟨before, after, rfl, -⟩ := h
  exact List.mem_append_right _ (.head _)

omit [DecidableEq κ] in
theorem last_of_mem {es : List (κ × ν)} (hnodup : (es.map Prod.fst).Nodup) {k : κ} {v : ν}
    (h : (k, v) ∈ es) : Last es k v := by
  obtain ⟨before, after, rfl⟩ := List.append_of_mem h
  refine ⟨before, after, rfl, ?_⟩
  rw [List.map_append, List.map_cons] at hnodup
  exact (List.nodup_cons.1 (List.nodup_append.1 hnodup).2.1).1

theorem exists_last {es : List (κ × ν)} {k : κ} (h : k ∈ es.map Prod.fst) :
    ∃ v, Last es k v := by
  induction es with
  | nil => cases h
  | cons e es ih =>
    by_cases hk : k ∈ es.map Prod.fst
    · obtain ⟨v, before, after, rfl, hafter⟩ := ih hk
      exact ⟨v, e :: before, after, rfl, hafter⟩
    · rw [List.map_cons, List.mem_cons, or_iff_left hk] at h
      exact ⟨e.2, [], es, by rw [h]; rfl, hk⟩

theorem get?_ofList_eq_none {es : List (κ × ν)} {k : κ} (h : k ∉ es.map Prod.fst) :
    (ofList es).get? k = none := get?_foldl_of_not_mem empty h

theorem get?_ofList_eq_some_iff {es : List (κ × ν)} {k : κ} {v : ν} :
    (ofList es).get? k = some v ↔ Last es k v := by
  constructor
  · intro h
    by_cases hk : k ∈ es.map Prod.fst
    · obtain ⟨v', hlast⟩ := exists_last hk
      obtain ⟨before, after, rfl, hafter⟩ := hlast
      rw [get?_ofList_append before hafter, Option.some.injEq] at h
      exact ⟨before, after, by rw [h], hafter⟩
    · rw [get?_ofList_eq_none hk] at h
      cases h
  · rintro ⟨before, after, rfl, hafter⟩
    exact get?_ofList_append before hafter

end Dict

end Nssf.Base
