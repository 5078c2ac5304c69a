import Mathlib.Logic.Function.Basic
import Mathlib.Data.List.Infix

/-! Maps of maps, to any depth: a tree that only knows which names lead where. Two trees are
equal when every path finds the same in both, so nothing depends on an order of the names. -/

namespace Nssf.Base

inductive NestedMap (κ α : Type) where
  | leaf (a : α)
  | node (members : κ → Option (NestedMap κ α))

namespace NestedMap

variable {κ α : Type}

def member? : NestedMap κ α → κ → Option (NestedMap κ α)
  | .leaf _, _ => none
  | .node f, k => f k

def lookup : List κ → NestedMap κ α → Option (NestedMap κ α)
  | [], d => some d
  | k :: path, d => (d.member? k).bind (lookup path)

/-- The path leads to a map. -/
def NodeAt (path : List κ) (d : NestedMap κ α) : Prop := ∃ f, d.lookup path = some (.node f)

theorem nodeAt_cons {k : κ} {path : List κ} {f : κ → Option (NestedMap κ α)} :
    NodeAt (k :: path) (.node f) ↔ ∃ c, f k = some c ∧ NodeAt path c := by
  constructor
  · intro h
    obtain ⟨g, h⟩ := h
    obtain ⟨c, hc, h⟩ := Option.bind_eq_some_iff.1 h
    exact ⟨c, hc, g, h⟩
  · intro h
    obtain ⟨c, hc, g, h⟩ := h
    exact ⟨g, Option.bind_eq_some_iff.2 ⟨c, hc, h⟩⟩

theorem nodeAt_of_lookup {path : List κ} {k : κ} {d v : NestedMap κ α}
    (h : d.lookup (path ++ [k]) = some v) : NodeAt path d := by
  induction path generalizing d with
  | nil =>
    cases d with
    | leaf a => cases h
    | node f => exact ⟨f, rfl⟩
  | cons l path ih =>
    obtain ⟨c, hc, hrest⟩ := Option.bind_eq_some_iff.1 h
    obtain ⟨f, hf⟩ := ih hrest
    exact ⟨f, Option.bind_eq_some_iff.2 ⟨c, hc, hf⟩⟩

/-- The same names lead to the same leaves, up to `r`. -/
inductive Same (r : α → α → Prop) : NestedMap κ α → NestedMap κ α → Prop
  | leaf {a b : α} (h : r a b) : Same r (.leaf a) (.leaf b)
  | node {f g : κ → Option (NestedMap κ α)} (hk : ∀ k, (f k).isSome = (g k).isSome)
      (h : ∀ k x y, f k = some x → g k = some y → Same r x y) : Same r (.node f) (.node g)

section alter

variable [DecidableEq κ]

/-- Sets or clears the member at the end of the path. All that the path goes through has to be
a map. -/
def alter (v : Option (NestedMap κ α)) : List κ → NestedMap κ α → Option (NestedMap κ α)
  | k :: path, .node f =>
    if path = [] then some (.node (Function.update f k v))
    else ((f k).bind (alter v path)).map fun c => .node (Function.update f k (some c))
  | _, _ => none

variable {v : Option (NestedMap κ α)}

theorem alter_singleton (f : κ → Option (NestedMap κ α)) (k : κ) :
    alter v [k] (.node f) = some (.node (Function.update f k v)) := by
  simp [alter]

theorem alter_cons {path : List κ} (h : path ≠ []) (f : κ → Option (NestedMap κ α)) (k : κ) :
    alter v (k :: path) (.node f) =
      ((f k).bind (alter v path)).map fun c => .node (Function.update f k (some c)) := by
  simp [alter, h]

/-- A member can be set or cleared just where its map is. -/
theorem alter_isSome_iff {path : List κ} {k : κ} {d : NestedMap κ α} :
    (alter v (path ++ [k]) d).isSome = true ↔ NodeAt path d := by
  induction path generalizing d with
  | nil =>
    cases d with
    | leaf a =>
      refine iff_of_false (by simp [alter]) ?_
      intro h
      obtain ⟨f, h⟩ := h
      cases h
    | node f =>
      rw [List.nil_append, alter_singleton]
      exact iff_of_true rfl ⟨f, rfl⟩
  | cons l path ih =>
    cases d with
    | leaf a =>
      refine iff_of_false (by simp [alter]) ?_
      intro h
      obtain ⟨f, h⟩ := h
      cases h
    | node f =>
      rw [List.cons_append, alter_cons (by simp), Option.isSome_map]
      rw [nodeAt_cons]
      cases f l with
      | none => simp
      | some c =>
        rw [Option.bind_some, ih]
        simp

/-- The written member holds the value, or is gone. -/
theorem lookup_alter_self {path : List κ} {d d' : NestedMap κ α} (h : alter v path d = some d') :
    d'.lookup path = v := by
  induction path generalizing d d' with
  | nil => cases h
  | cons k path ih =>
    cases d with
    | leaf a => cases h
    | node f =>
      by_cases hpath : path = []
      · rw [hpath, alter_singleton] at h
        cases h
        rw [hpath, lookup, member?, Function.update_self]
        exact Option.bind_fun_some v
      · rw [alter_cons hpath] at h
        obtain ⟨c, hc, rfl⟩ := Option.map_eq_some_iff.1 h
        obtain ⟨m, -, hm⟩ := Option.bind_eq_some_iff.1 hc
        rw [lookup, member?, Function.update_self]
        exact ih hm

/-- A path that does not meet the written one finds what it found before. -/
theorem lookup_alter_of_apart {path q : List κ} {d d' : NestedMap κ α}
    (h : alter v path d = some d') (hp : ¬path <+: q) (hq : ¬q <+: path) :
    d'.lookup q = d.lookup q := by
  induction path generalizing q d d' with
  | nil => cases h
  | cons k path ih =>
    cases q with
    | nil => exact absurd List.nil_prefix hq
    | cons l q =>
      cases d with
      | leaf a => cases h
      | node f =>
        by_cases hl : l = k
        · subst hl
          rw [List.cons_prefix_cons] at hp hq
          simp only [true_and] at hp hq
          have hpath : path ≠ [] := by
            intro hnil
            rw [hnil] at hp
            exact hp List.nil_prefix
          rw [alter_cons hpath] at h
          obtain ⟨c, hc, rfl⟩ := Option.map_eq_some_iff.1 h
          obtain ⟨m, hm, hc⟩ := Option.bind_eq_some_iff.1 hc
          rw [lookup, lookup, member?, member?, Function.update_self, hm]
          exact ih hc hp hq
        · have hsame : d'.member? l = f l := by
            by_cases hpath : path = []
            · rw [hpath, alter_singleton] at h
              cases h
              exact Function.update_of_ne hl _ _
            · rw [alter_cons hpath] at h
              obtain ⟨c, -, rfl⟩ := Option.map_eq_some_iff.1 h
              exact Function.update_of_ne hl _ _
          rw [lookup, lookup, hsame]
          rfl

/-- A map stays one, unless it is the member that is written or lies below it. -/
theorem nodeAt_alter {path q : List κ} {d d' : NestedMap κ α} (h : alter v path d = some d')
    (hp : ¬path <+: q) : NodeAt q d' ↔ NodeAt q d := by
  induction path generalizing q d d' with
  | nil => cases h
  | cons k path ih =>
    cases d with
    | leaf a => cases h
    | node f =>
      have hroot : ∃ g, d' = .node g := by
        by_cases hpath : path = []
        · rw [hpath, alter_singleton] at h
          cases h
          exact ⟨_, rfl⟩
        · rw [alter_cons hpath] at h
          obtain ⟨c, -, rfl⟩ := Option.map_eq_some_iff.1 h
          exact ⟨_, rfl⟩
      cases q with
      | nil =>
        obtain ⟨g, rfl⟩ := hroot
        exact iff_of_true ⟨g, rfl⟩ ⟨f, rfl⟩
      | cons l q =>
        by_cases hl : l = k
        · subst hl
          rw [List.cons_prefix_cons] at hp
          simp only [true_and] at hp
          have hpath : path ≠ [] := by
            intro hnil
            rw [hnil] at hp
            exact hp List.nil_prefix
          rw [alter_cons hpath] at h
          obtain ⟨c, hc, rfl⟩ := Option.map_eq_some_iff.1 h
          obtain ⟨m, hm, hc⟩ := Option.bind_eq_some_iff.1 hc
          unfold NodeAt
          rw [lookup, lookup, member?, member?, Function.update_self, hm]
          exact ih hc hp
        · have hapart := lookup_alter_of_apart h hp (by
            rw [List.cons_prefix_cons]
            exact fun hboth => hl hboth.1)
          unfold NodeAt
          rw [hapart]

end alter

end NestedMap

end Nssf.Base
