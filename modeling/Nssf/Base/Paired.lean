import Nssf.Base.KeyedList

/-! Two lists of records that are related one by one, each under its key. -/

namespace Nssf.Base

section mem

variable {α β : Type*} {R : α → β → Prop} {as : List α} {bs : List β}

theorem exists_of_mem (h : List.Forall₂ R as bs) {a : α} (ha : a ∈ as) : ∃ b ∈ bs, R a b := by
  induction h with
  | nil => cases ha
  | @cons a' b' _ _ hab _ ih =>
    rcases List.mem_cons.1 ha with rfl | ha
    · exact ⟨b', List.mem_cons_self, hab⟩
    · obtain ⟨b, hb, hab⟩ := ih ha
      exact ⟨b, List.mem_cons_of_mem _ hb, hab⟩

end mem

section mapM

variable {ε α β : Type} {f : α → Except ε β} {as : List α} {bs : List β}

/-- What a loop that may raise has made of a list. -/
theorem mapM_ok (h : as.mapM f = .ok bs) : List.Forall₂ (fun a b => f a = .ok b) as bs := by
  induction as generalizing bs with
  | nil =>
    cases h
    exact .nil
  | cons a as ih =>
    rw [List.mapM_cons] at h
    cases ha : f a with
    | error x =>
      rw [ha] at h
      cases h
    | ok b =>
      cases hrest : as.mapM f with
      | error x =>
        rw [ha, hrest] at h
        cases h
      | ok rest =>
        rw [ha, hrest] at h
        cases h
        exact .cons ha (ih hrest)

theorem exists_mapM (h : ∀ a ∈ as, ∃ b, f a = .ok b) : ∃ bs, as.mapM f = .ok bs := by
  induction as with
  | nil => exact ⟨[], rfl⟩
  | cons a as ih =>
    obtain ⟨b, hb⟩ := h a List.mem_cons_self
    obtain ⟨bs, hrest⟩ := ih fun c hc => h c (List.mem_cons_of_mem _ hc)
    refine ⟨b :: bs, ?_⟩
    rw [List.mapM_cons, hb, hrest]
    rfl

theorem mapM_map_ok {f : α → β} {g : β → Except ε α} (h : ∀ a, g (f a) = .ok a) (as : List α) :
    (as.map f).mapM g = .ok as := by
  induction as with
  | nil => rfl
  | cons a as ih =>
    rw [List.map_cons, List.mapM_cons, h, ih]
    rfl

/-- A loop that undoes another one, element by element. -/
theorem mapM_back {γ : Type} {g : β → Except ε γ} {keep : α → γ}
    (hback : ∀ a ∈ as, ∀ b, f a = .ok b → g b = .ok (keep a)) (h : as.mapM f = .ok bs) :
    bs.mapM g = .ok (as.map keep) := by
  have hpairs := mapM_ok h
  clear h
  induction hpairs with
  | nil => rfl
  | cons hab _ ih =>
    rw [List.mapM_cons, hback _ List.mem_cons_self _ hab,
      ih fun c hc => hback c (List.mem_cons_of_mem _ hc)]
    rfl

end mapM

section keys

variable {α β κ : Type} [DecidableEq κ] {R : α → β → Prop} {as : List α} {bs : List β}
  {key : α → κ} {key' : β → κ}

theorem forall₂_updateKey (hkey : ∀ a b, R a b → key a = key' b) (h : List.Forall₂ R as bs) {k : κ}
    {f : α → α} {g : β → β} (hfg : ∀ a ∈ as, ∀ b, R a b → key a = k → R (f a) (g b)) :
    List.Forall₂ R (updateKey key k f as) (updateKey key' k g bs) := by
  unfold updateKey
  induction h with
  | nil => exact .nil
  | @cons a b _ _ hab _ ih =>
    rw [List.map_cons, List.map_cons]
    refine .cons ?_ (ih fun c hc => hfg c (List.mem_cons_of_mem _ hc))
    by_cases hk : key a = k
    · rw [if_pos hk, if_pos ((hkey a b hab).symm.trans hk)]
      exact hfg a List.mem_cons_self b hab hk
    · rw [if_neg hk, if_neg fun h => hk ((hkey a b hab).trans h)]
      exact hab

theorem forall₂_removeKey (hkey : ∀ a b, R a b → key a = key' b) (h : List.Forall₂ R as bs)
    (k : κ) : List.Forall₂ R (removeKey key k as) (removeKey key' k bs) := by
  unfold removeKey
  induction h with
  | nil => exact .nil
  | @cons a b _ _ hab _ ih =>
    rw [List.filter_cons, List.filter_cons, hkey a b hab]
    split_ifs
    · exact .cons hab ih
    · exact ih

end keys

end Nssf.Base
