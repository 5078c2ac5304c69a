import Nssf.Runtime.Allocating

/-! What both engines take for the same slice: the numbers of `sst` agree, and `sd` is the
same text or absent on both sides. A slice without a number as `sst` is no slice at all. -/

namespace Nssf

open Base Run

def snssaiEqual (a b : Json) : Run Bool := do
  let sstA ← Json.getObjectItem (some a) "sst"
  let sstB ← Json.getObjectItem (some b) "sst"
  match sstA, sstB with
  | some (.number x), some (.number y) =>
    if x.toInt32 = y.toInt32 then
      let sdA ← Json.getObjectItem (some a) "sd"
      let sdB ← Json.getObjectItem (some b) "sd"
      return sdA.bind Json.string? == sdB.bind Json.string?
    else return false
  | _, _ => return false

def snssaiInItems (target : Json) : List Json → Run Bool
  | [] => pure false
  | it :: items => do
    if ← snssaiEqual it target then return true else snssaiInItems target items

def snssaiInArray (set : Option Json) (target : Json) : Run Bool :=
  match set with
  | some (.array items) => snssaiInItems target items
  | _ => pure false

/-- The loop that both engines use to build a set of slices. -/
def addSnssais (out : List Json) : List Json → Run (Option (List Json))
  | [] => pure (some out)
  | it :: items =>
    if it.isObject then do
      if ← snssaiInItems it out then addSnssais out items
      else
        match ← allocated it with
        | none => return none
        | some copy => addSnssais (out ++ [copy]) items
    else addSnssais out items

def snssaiKey (a : Json) : Option (ℤ × Option String) :=
  match a.member? "sst" with
  | some (.number x) => some (x.toInt32, (a.member? "sd").bind Json.string?)
  | _ => none

def sameSnssai (a b : Json) : Bool := (snssaiKey a).isSome && snssaiKey a == snssaiKey b

/-- What the loop builds when no allocation fails. -/
def unionSnssais (out items : List Json) : List Json :=
  items.foldl (fun out it =>
    if it.isObject && !out.any (sameSnssai · it) then out ++ [it] else out) out

theorem sameSnssai_iff {a b : Json} :
    sameSnssai a b = true ↔ ∃ k, snssaiKey a = some k ∧ snssaiKey b = some k := by
  unfold sameSnssai
  rw [Bool.and_eq_true, beq_iff_eq, Option.isSome_iff_exists]
  constructor
  · intro h
    obtain ⟨⟨k, hk⟩, he⟩ := h
    exact ⟨k, hk, he ▸ hk⟩
  · intro h
    obtain ⟨k, ha, hb⟩ := h
    exact ⟨⟨k, ha⟩, ha.trans hb.symm⟩

theorem sameSnssai_trans {a b c : Json} (h : sameSnssai a b = true)
    (h' : sameSnssai b c = true) : sameSnssai a c = true := by
  obtain ⟨k, ha, hb⟩ := sameSnssai_iff.1 h
  obtain ⟨l, hb', hc⟩ := sameSnssai_iff.1 h'
  have hkl : k = l := Option.some.inj (hb.symm.trans hb')
  exact sameSnssai_iff.2 ⟨k, ha, hkl ▸ hc⟩

theorem snssaiEqual_eq {a b : Json} (ha : a.Lookable) (hb : b.Lookable) :
    snssaiEqual a b = pure (sameSnssai a b) := by
  unfold snssaiEqual sameSnssai snssaiKey
  simp only [Json.getObjectItem_of_lookable ha, Json.getObjectItem_of_lookable hb, pure_bind]
  cases a.member? "sst" with
  | none => rfl
  | some x =>
    cases x with
    | number x =>
      cases b.member? "sst" with
      | none => rfl
      | some y =>
        cases y with
        | number y =>
          by_cases hxy : x.toInt32 = y.toInt32
          · simp only [hxy, if_true, Option.isSome_some, Bool.true_and]
            apply congrArg pure
            rw [Bool.eq_iff_iff]
            simp
          · simp only [hxy, if_false, Option.isSome_some, Bool.true_and]
            apply congrArg pure
            symm
            simp [hxy]
        | _ => rfl
    | _ => rfl

theorem snssaiInItems_eq {target : Json} (ht : target.Lookable) {items : List Json}
    (hi : ∀ it ∈ items, it.Lookable) :
    snssaiInItems target items = pure (items.any (sameSnssai · target)) := by
  induction items with
  | nil => rfl
  | cons it items ih =>
    have hit := hi it List.mem_cons_self
    have hrest := ih fun x hx => hi x (List.mem_cons_of_mem it hx)
    unfold snssaiInItems
    rw [snssaiEqual_eq hit ht, pure_bind, List.any_cons]
    cases sameSnssai it target with
    | true => rfl
    | false => exact hrest

theorem unionSnssais_cons (out : List Json) (it : Json) (items : List Json) :
    unionSnssais out (it :: items) = unionSnssais
      (if it.isObject && !out.any (sameSnssai · it) then out ++ [it] else out) items := rfl

theorem makes_addSnssais {out : List Json} (ho : ∀ x ∈ out, x.isObject = true)
    (items : List Json) : Makes (addSnssais out items) (unionSnssais out items) := by
  induction items generalizing out with
  | nil => exact makes_pure out
  | cons it items ih =>
    rw [unionSnssais_cons]
    unfold addSnssais
    by_cases hit : it.isObject = true
    · have hlook : ∀ x ∈ out, x.Lookable := fun x hx => Json.lookable_of_isObject (ho x hx)
      simp only [hit, if_true, Bool.true_and]
      rw [snssaiInItems_eq (Json.lookable_of_isObject hit) hlook, pure_bind]
      cases out.any (sameSnssai · it) with
      | true => exact ih ho
      | false =>
        refine Makes.bind (makes_allocated it) rfl (ih ?_)
        intro x hx
        rcases List.mem_append.1 hx with hx | hx
        · exact ho x hx
        · rw [List.mem_singleton.1 hx]
          exact hit
    · rw [if_neg hit]
      simp only [hit, Bool.false_and, Bool.false_eq_true, if_false]
      exact ih ho

theorem isObject_of_mem_union {out items : List Json} (ho : ∀ x ∈ out, x.isObject = true) :
    ∀ x ∈ unionSnssais out items, x.isObject = true := by
  induction items generalizing out with
  | nil => exact ho
  | cons it items ih =>
    rw [unionSnssais_cons]
    apply ih
    intro x hx
    split_ifs at hx with h
    · rw [Bool.and_eq_true] at h
      rcases List.mem_append.1 hx with hx | hx
      · exact ho x hx
      · rw [List.mem_singleton.1 hx]
        exact h.1
    · exact ho x hx

/-- Leaving out the slices that are already there loses none of them. -/
theorem any_unionSnssais (out items : List Json) (s : Json) :
    (unionSnssais out items).any (sameSnssai · s) = true ↔
      out.any (sameSnssai · s) = true ∨ ∃ it ∈ items, it.isObject = true ∧ sameSnssai it s := by
  induction items generalizing out with
  | nil => simp [unionSnssais]
  | cons it items ih =>
    rw [unionSnssais_cons, ih]
    simp only [List.mem_cons, exists_eq_or_imp, ← or_assoc]
    apply or_congr_left
    by_cases hit : it.isObject = true
    · cases hin : out.any (sameSnssai · it) with
      | true =>
        simp only [hit, Bool.not_true, Bool.and_false, Bool.false_eq_true, if_false, true_and]
        constructor
        · exact Or.inl
        · intro h
          rcases h with h | h
          · exact h
          · obtain ⟨x, hx, hxi⟩ := List.any_eq_true.1 hin
            exact List.any_eq_true.2 ⟨x, hx, sameSnssai_trans hxi h⟩
      | false =>
        simp [hit]
    · simp [hit]

end Nssf
