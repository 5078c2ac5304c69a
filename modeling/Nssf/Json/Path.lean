import Nssf.Json.Value

/-! Addresses of containers inside a tree: the names on the way down from the root, where each
name stands for the first member that has it. -/

namespace Nssf.Json

def atPath : List String → Json → Option Json
  | [], j => some j
  | k :: path, j => (j.member? k).bind (atPath path)

def updateMember (k : String) (f : Json → Json) : List (String × Json) → List (String × Json)
  | [] => []
  | (l, v) :: ms => if l = k then (l, f v) :: ms else (l, v) :: updateMember k f ms

/-- Changes the container at an address in place. -/
def modifyAt (f : Json → Json) : List String → Json → Json
  | [], j => f j
  | k :: path, .object ms => .object (updateMember k (modifyAt f path) ms)
  | _ :: _, j => j

theorem atPath_append (p q : List String) (j : Json) :
    atPath (p ++ q) j = (atPath p j).bind (atPath q) := by
  induction p generalizing j with
  | nil => rfl
  | cons k p ih =>
    change (j.member? k).bind (atPath (p ++ q)) = ((j.member? k).bind (atPath p)).bind (atPath q)
    cases j.member? k with
    | none => rfl
    | some v => exact ih v

theorem atPath_snoc (p : List String) (k : String) (j : Json) :
    atPath (p ++ [k]) j = (atPath p j).bind fun c => c.member? k := by
  rw [atPath_append]
  congr 1
  funext c
  change (c.member? k).bind some = c.member? k
  exact Option.bind_fun_some (c.member? k)

theorem isObject_deleteItem {j : Json} (h : j.isObject = true) (name : String) :
    (j.deleteItem name).isObject = true := by
  cases j with
  | object ms => rfl
  | _ => cases h

theorem isObject_addItem {j : Json} (h : j.isObject = true) (name : String) (v : Json) :
    (j.addItem name v).isObject = true := by
  cases j with
  | object ms => rfl
  | _ => cases h

theorem isObject_modifyAt {f : Json → Json} (hf : ∀ j, j.isObject = true → (f j).isObject = true)
    (path : List String) {j : Json} (h : j.isObject = true) :
    (modifyAt f path j).isObject = true := by
  cases path with
  | nil => exact hf j h
  | cons k path =>
    cases j with
    | object ms => rfl
    | _ => cases h

section members

variable {name : String} {j : Json}

theorem findMember_updateMember (k : String) (f : Json → Json) (ms : List (String × Json)) :
    findMember (updateMember k f ms) name =
      if name = k then (findMember ms name).map f else findMember ms name := by
  induction ms with
  | nil => simp [updateMember, findMember]
  | cons m ms ih =>
    obtain ⟨l, v⟩ := m
    simp only [findMember] at ih
    by_cases hl : l = k
    · by_cases hn : name = k
      · simp [updateMember, findMember, hl, hn]
      · simp [updateMember, findMember, hl, hn, Ne.symm hn]
    · by_cases hn : l = name
      · have hk : name ≠ k := hn ▸ hl
        simp [updateMember, findMember, hn, hk]
      · simp [updateMember, findMember, hl, hn, ih]

theorem member?_deleteItem {key : String} (h : key ≠ name) :
    (j.deleteItem key).member? name = j.member? name := by
  cases j with
  | object ms =>
    simp only [deleteItem, member?, findMember]
    congr 1
    induction ms with
    | nil => rfl
    | cons m ms ih =>
      by_cases hk : m.1 = key
      · simp [hk, h]
      · by_cases hn : m.1 = name
        · simp [hn, Ne.symm h]
        · simp [hk, hn, ih]
  | _ => rfl

theorem member?_addItem {key : String} (h : key ≠ name) (v : Json) :
    (j.addItem key v).member? name = j.member? name := by
  cases j with
  | object ms => simp [addItem, member?, findMember, List.find?_append, h]
  | _ => rfl

theorem member?_addItem_self (hj : j.isObject = true) (h : j.member? name = none) (v : Json) :
    (j.addItem name v).member? name = some v := by
  cases j with
  | object ms =>
    simp only [member?, findMember, Option.map_eq_none_iff] at h
    simp [addItem, member?, findMember, List.find?_append, h]
  | _ => cases hj

end members

end Nssf.Json
