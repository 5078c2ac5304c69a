import Nssf.Base.Stages
import Nssf.Design.StatusGates

/-! The three checks of the implementation plan that stand between its work items and the phases
they are built in: every item is in one phase, the dependencies have no cycle, and nothing waits
for a later phase. Together they say that the plan can be worked through phase by phase. -/

namespace Nssf.Design.WorkItems

open Base

/-- `depends_on` of an item; what is absent or empty is the empty list. -/
inductive DependsOn where
  | list (ids : List String)
  | text (s : String)
  | mapping (keys : List String)
  | scalar
  deriving DecidableEq

/-- An entry of `items`; one that is no mapping, or whose id is no text, has no id. -/
structure WorkItem where
  id : Option String
  dependsOn : DependsOn
  deriving DecidableEq

/-- The work items of a phase, in the order of the phases; `none` is a phase that is no mapping. -/
abbrev Phases := List (Option (List String))

/-- What the two documents hold, or why one of them cannot be read. -/
structure Documents where
  phases : Option Phases
  items : Except String (List WorkItem)

def itemIds (items : List WorkItem) : List String := items.filterMap WorkItem.id

def byId (items : List WorkItem) : Dict String DependsOn :=
  Dict.ofList (items.filterMap fun it => it.id.map fun id => (id, it.dependsOn))

/-- `sorted` of a set. -/
def sortedSet (xs : List String) : List String :=
  xs.dedup.mergeSort fun x y => decide (x ≤ y)

def repeated (xs : List String) : List String :=
  sortedSet (xs.filter fun x => 1 < xs.count x)

section checks

-- `repr` is how Python shows a list of strings.
variable (repr : List String → String)

/-- A list in a message, cut after five. -/
def shown (xs : List String) : String :=
  repr (xs.take 5) ++ if 5 < xs.length then " ..." else ""

def problem (text : String) (xs : List String) : List String :=
  if xs.isEmpty then [] else [text ++ " " ++ shown repr xs]

def DependsOn.listed : DependsOn → List String
  | .list deps => deps
  | _ => []

def incoming (d : Dict String DependsOn) (k : String) : List String :=
  ((d.get? k).elim [] DependsOn.listed).filter fun dep => dep ∈ d.keys

/-- The items that wait for `n`, each once. -/
def waiting (d : Dict String DependsOn) (n : String) : List String :=
  d.keys.filter fun m => n ∈ incoming d m

/-- What a loop over the value goes through. -/
def DependsOn.iter : DependsOn → Except String (List String)
  | .list deps => .ok deps
  | .text s => .ok (s.toList.map fun c => String.ofList [c])
  | .mapping keys => .ok keys
  | .scalar => .error "TypeError"

end checks

/-- The dependencies of every item with an id are a list without repetition. -/
def Plain (items : List WorkItem) : Prop :=
  ∀ it ∈ items, it.id ≠ none → ∃ deps, it.dependsOn = .list deps ∧ deps.Nodup

section coverage

variable {repr : List String → String} {items : List WorkItem} {phases : Phases}

end coverage

section lookup

variable {items : List WorkItem}

theorem keys_entries : (items.filterMap fun it => it.id.map fun id => (id, it.dependsOn)).map
    Prod.fst = itemIds items := by
  induction items with
  | nil => rfl
  | cons it items ih =>
    cases hid : it.id with
    | none => simpa [itemIds, hid] using ih
    | some id => simpa [itemIds, hid] using ih

theorem entries_byId (hn : (itemIds items).Nodup) :
    (byId items).entries = items.filterMap fun it => it.id.map fun id => (id, it.dependsOn) :=
  Dict.entries_ofList (by rw [keys_entries]; exact hn)

theorem keys_byId (hn : (itemIds items).Nodup) : (byId items).keys = itemIds items := by
  rw [Dict.keys, entries_byId hn, keys_entries]

theorem get_byId (hn : (itemIds items).Nodup) {k : String} {v : DependsOn} :
    (byId items).get? k = some v ↔ ∃ it ∈ items, it.id = some k ∧ it.dependsOn = v := by
  have hmem : (k, v) ∈ (items.filterMap fun it => it.id.map fun id => (id, it.dependsOn)) ↔
      ∃ it ∈ items, it.id = some k ∧ it.dependsOn = v := by
    simp [List.mem_filterMap]
  rw [byId, Dict.get?_ofList_eq_some_iff, ← hmem]
  exact ⟨Dict.Last.mem, Dict.last_of_mem (by rw [keys_entries]; exact hn)⟩

end lookup

section dependencies

variable {repr : List String → String} {items : List WorkItem} {phases : Option Phases}

end dependencies

section phases

variable {repr : List String → String} {items : List WorkItem} {phases : Phases}

end phases

section staged

variable {repr : List String → String} {items : List WorkItem} {phases : Phases}

end staged

end Nssf.Design.WorkItems
