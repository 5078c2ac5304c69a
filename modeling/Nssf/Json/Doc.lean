import Nssf.Base.NestedMap
import Nssf.Json.Comparing
import Nssf.Json.Path

/-! A tree as what its paths find: objects become maps, everything else is a leaf. Trees whose
objects have no name twice are edited by the code as the maps are. -/

namespace Nssf.Json

open Base

abbrev Doc := NestedMap String Json

mutual

def toDoc : Json → Doc
  | .object ms => .node (toDocMembers ms)
  | j => .leaf j

def toDocMembers : List (String × Json) → String → Option Doc
  | [], _ => none
  | (l, v) :: ms, k => if l = k then some (toDoc v) else toDocMembers ms k

end

mutual

/-- No object of the tree has two members of the same name. -/
def Unique : Json → Prop
  | .array xs => UniqueItems xs
  | .object ms => (ms.map Prod.fst).Nodup ∧ UniqueMembers ms
  | _ => True

def UniqueItems : List Json → Prop
  | [] => True
  | x :: xs => Unique x ∧ UniqueItems xs

def UniqueMembers : List (String × Json) → Prop
  | [] => True
  | (_, v) :: ms => Unique v ∧ UniqueMembers ms

end

section doc

theorem toDocMembers_eq (ms : List (String × Json)) (k : String) :
    toDocMembers ms k = (findMember ms k).map toDoc := by
  induction ms with
  | nil => rfl
  | cons m ms ih =>
    obtain ⟨l, v⟩ := m
    rw [toDocMembers]
    by_cases hl : l = k
    · simp [hl, findMember]
    · rw [if_neg hl, ih]
      simp [hl, findMember]

theorem toDoc_object (ms : List (String × Json)) :
    toDoc (.object ms) = .node fun k => (findMember ms k).map toDoc := by
  rw [toDoc]
  congr 1
  funext k
  exact toDocMembers_eq ms k

theorem toDoc_of_not_object {j : Json} (h : j.isObject = false) : toDoc j = .leaf j := by
  cases j with
  | object ms => cases h
  | _ => rfl

theorem member?_toDoc (j : Json) (k : String) : (toDoc j).member? k = (j.member? k).map toDoc := by
  cases j with
  | object ms =>
    rw [toDoc_object]
    rfl
  | _ => rfl

/-- A path finds the same in the tree and in the map. -/
theorem lookup_toDoc (path : List String) (j : Json) :
    (toDoc j).lookup path = (j.atPath path).map toDoc := by
  induction path generalizing j with
  | nil => rfl
  | cons k path ih =>
    rw [NestedMap.lookup, atPath, member?_toDoc]
    cases j.member? k with
    | none => rfl
    | some v => exact ih v

theorem nodeAt_toDoc {path : List String} {j : Json} :
    NestedMap.NodeAt path (toDoc j) ↔ ∃ c, j.atPath path = some c ∧ c.isObject = true := by
  unfold NestedMap.NodeAt
  rw [lookup_toDoc]
  constructor
  · intro h
    obtain ⟨f, h⟩ := h
    obtain ⟨c, hc, hnode⟩ := Option.map_eq_some_iff.1 h
    refine ⟨c, hc, ?_⟩
    by_contra hobject
    rw [toDoc_of_not_object (by simpa using hobject)] at hnode
    cases hnode
  · intro h
    obtain ⟨c, hc, hobject⟩ := h
    cases c with
    | object ms => exact ⟨_, by rw [hc]; rfl⟩
    | _ => cases hobject

end doc

section unique

theorem uniqueMembers_iff {ms : List (String × Json)} :
    UniqueMembers ms ↔ ∀ m ∈ ms, Unique m.2 := by
  induction ms with
  | nil => simp [UniqueMembers]
  | cons m ms ih =>
    obtain ⟨l, v⟩ := m
    rw [UniqueMembers, ih]
    simp

theorem unique_object {ms : List (String × Json)} :
    Unique (.object ms) ↔ (ms.map Prod.fst).Nodup ∧ ∀ m ∈ ms, Unique m.2 := by
  rw [Unique, uniqueMembers_iff]

theorem findMember_of_unique {ms : List (String × Json)} (h : (ms.map Prod.fst).Nodup)
    {m : String × Json} (hm : m ∈ ms) : findMember ms m.1 = some m.2 := by
  induction ms with
  | nil => cases hm
  | cons l ms ih =>
    rw [List.map_cons, List.nodup_cons] at h
    rcases List.mem_cons.1 hm with rfl | hm
    · simp [findMember]
    · have hne : l.1 ≠ m.1 := by
        intro heq
        exact h.1 (heq ▸ List.mem_map_of_mem hm)
      have hrest := ih h.2 hm
      unfold findMember at hrest ⊢
      rw [List.find?_cons_of_neg (by simpa using hne)]
      exact hrest

theorem Unique.member? {j v : Json} {k : String} (h : Unique j) (hv : j.member? k = some v) :
    Unique v := by
  cases j with
  | object ms => exact (unique_object.1 h).2 _ (mem_of_findMember hv)
  | _ => cases hv

theorem Unique.atPath {path : List String} {j v : Json} (h : Unique j)
    (hv : j.atPath path = some v) : Unique v := by
  induction path generalizing j with
  | nil =>
    cases hv
    exact h
  | cons k path ih =>
    obtain ⟨c, hc, hv⟩ := Option.bind_eq_some_iff.1 hv
    exact ih (h.member? hc) hv

theorem Unique.deleteItem {j : Json} (h : Unique j) (key : String) :
    Unique (j.deleteItem key) := by
  cases j with
  | object ms =>
    obtain ⟨hnames, hall⟩ := unique_object.1 h
    refine unique_object.2 ⟨?_, ?_⟩
    · exact hnames.sublist (List.eraseP_sublist.map Prod.fst)
    · intro m hm
      exact hall m (List.mem_of_mem_eraseP hm)
  | _ => exact h

theorem Unique.addItem {j v : Json} {key : String} (h : Unique j)
    (hkey : j.member? key = none) (hv : Unique v) : Unique (j.addItem key v) := by
  cases j with
  | object ms =>
    obtain ⟨hnames, hall⟩ := unique_object.1 h
    refine unique_object.2 ⟨?_, ?_⟩
    · rw [List.map_append, List.nodup_append]
      refine ⟨hnames, by simp, ?_⟩
      intro a ha b hb hab
      rw [List.map_cons, List.map_nil, List.mem_singleton] at hb
      obtain ⟨m, hm, rfl⟩ := List.mem_map.1 ha
      have hfind := findMember_of_unique hnames hm
      rw [hab, hb] at hfind
      change findMember ms key = none at hkey
      rw [hkey] at hfind
      cases hfind
    · intro m hm
      rcases List.mem_append.1 hm with hm | hm
      · exact hall m hm
      · rw [List.mem_singleton.1 hm]
        exact hv
  | _ => exact h

theorem map_fst_updateMember (k : String) (f : Json → Json) (ms : List (String × Json)) :
    (updateMember k f ms).map Prod.fst = ms.map Prod.fst := by
  induction ms with
  | nil => rfl
  | cons m ms ih =>
    obtain ⟨l, v⟩ := m
    rw [updateMember]
    split_ifs with hl
    · rfl
    · rw [List.map_cons, List.map_cons, ih]

/-- A change of a container that keeps names unique keeps them so in the tree. -/
theorem Unique.modifyAt {f : Json → Json} {path : List String} {j : Json} (h : Unique j)
    (hf : ∀ c, j.atPath path = some c → Unique c → Unique (f c)) : Unique (modifyAt f path j) := by
  induction path generalizing j with
  | nil => exact hf j rfl h
  | cons k path ih =>
    cases j with
    | object ms =>
      obtain ⟨hnames, hall⟩ := unique_object.1 h
      refine unique_object.2 ⟨?_, ?_⟩
      · rw [map_fst_updateMember]
        exact hnames
      · have hupdated : ((updateMember k (Json.modifyAt f path) ms).map Prod.fst).Nodup := by
          rw [map_fst_updateMember]
          exact hnames
        intro m hm
        have hfind := findMember_of_unique hupdated hm
        rw [findMember_updateMember] at hfind
        split_ifs at hfind with hk
        · obtain ⟨v, hv, hmodified⟩ := Option.map_eq_some_iff.1 hfind
          rw [← hmodified]
          rw [hk] at hv
          refine ih (h.member? hv) fun c hc => hf c ?_
          exact Option.bind_eq_some_iff.2 ⟨v, hv, hc⟩
        · exact hall _ (mem_of_findMember hfind)
    | _ => exact h

end unique

section edits

theorem findMember_eraseP {ms : List (String × Json)} (h : (ms.map Prod.fst).Nodup)
    (key : String) : findMember (ms.eraseP fun m => m.1 == key) key = none := by
  induction ms with
  | nil => rfl
  | cons m ms ih =>
    rw [List.map_cons, List.nodup_cons] at h
    by_cases hm : m.1 = key
    · rw [List.eraseP_cons_of_pos (by simpa using hm)]
      cases hfind : findMember ms key with
      | none => rfl
      | some v =>
        have hmem : key ∈ ms.map Prod.fst :=
          List.mem_map.2 ⟨_, mem_of_findMember hfind, rfl⟩
        rw [hm] at h
        exact absurd hmem h.1
    · have hrest := ih h.2
      rw [List.eraseP_cons_of_neg (by simpa using hm)]
      unfold findMember at hrest ⊢
      rw [List.find?_cons_of_neg (by simpa using hm)]
      exact hrest

theorem member?_deleteItem_self {j : Json} (h : Unique j) (key : String) :
    (j.deleteItem key).member? key = none := by
  cases j with
  | object ms => exact findMember_eraseP (unique_object.1 h).1 key
  | _ => rfl

/-- What the code makes of a container to write a member. -/
def storeItem (key : String) (v j : Json) : Json := (j.deleteItem key).addItem key v

theorem Unique.storeItem {j v : Json} (h : Unique j) (key : String) (hv : Unique v) :
    Unique (storeItem key v j) :=
  (h.deleteItem key).addItem (member?_deleteItem_self h key) hv

theorem isObject_storeItem {j : Json} (h : j.isObject = true) (key : String) (v : Json) :
    (storeItem key v j).isObject = true :=
  isObject_addItem (isObject_deleteItem h key) key v

/-- An object as a map is what its lookups say. -/
theorem toDoc_eq_node {j : Json} (h : j.isObject = true) {f : String → Option Doc}
    (hf : ∀ k, (j.member? k).map toDoc = f k) : toDoc j = .node f := by
  cases j with
  | object ms =>
    rw [toDoc_object]
    congr 1
    funext k
    exact hf k
  | _ => cases h

theorem toDoc_deleteItem {ms : List (String × Json)} (h : Unique (.object ms)) (key : String) :
    toDoc ((Json.object ms).deleteItem key) =
      .node (Function.update (fun k => (findMember ms k).map toDoc) key none) := by
  apply toDoc_eq_node (isObject_deleteItem rfl key)
  intro k
  by_cases hk : k = key
  · rw [hk, member?_deleteItem_self h, Function.update_self]
    rfl
  · rw [member?_deleteItem (Ne.symm hk), Function.update_of_ne hk]
    rfl

theorem toDoc_storeItem {ms : List (String × Json)} (h : Unique (.object ms)) (key : String)
    (v : Json) : toDoc (storeItem key v (.object ms)) =
      .node (Function.update (fun k => (findMember ms k).map toDoc) key (some (toDoc v))) := by
  apply toDoc_eq_node (isObject_storeItem rfl key v)
  intro k
  unfold storeItem
  by_cases hk : k = key
  · rw [hk, member?_addItem_self (isObject_deleteItem rfl key) (member?_deleteItem_self h key),
      Function.update_self]
    rfl
  · rw [member?_addItem (Ne.symm hk), member?_deleteItem (Ne.symm hk), Function.update_of_ne hk]
    rfl

theorem modifyAt_modifyAt (f g : Json → Json) (path : List String) (j : Json) :
    modifyAt g path (modifyAt f path j) = modifyAt (fun c => g (f c)) path j := by
  have hmembers (k : String) (a b c : Json → Json) (hc : ∀ v, b (a v) = c v)
      (ms : List (String × Json)) :
      updateMember k b (updateMember k a ms) = updateMember k c ms := by
    induction ms with
    | nil => rfl
    | cons m ms ih =>
      obtain ⟨l, v⟩ := m
      by_cases hl : l = k
      · simp only [updateMember, if_pos hl, hc]
      · simp only [updateMember, if_neg hl, ih]
  induction path generalizing j with
  | nil => rfl
  | cons k path ih =>
    cases j with
    | object ms =>
      simp only [modifyAt]
      rw [hmembers k _ _ _ ih]
    | _ => rfl

/-- A change of a container that its map makes as well is the change of the map. -/
theorem alter_toDoc {f : Json → Json} {w : Option Doc} {key : String} {path : List String}
    {j : Json} (hj : NestedMap.NodeAt path (toDoc j))
    (hf : ∀ ms, j.atPath path = some (.object ms) → toDoc (f (.object ms)) =
      .node (Function.update (fun k => (findMember ms k).map toDoc) key w)) :
    (toDoc j).alter w (path ++ [key]) = some (toDoc (modifyAt f path j)) := by
  rw [nodeAt_toDoc] at hj
  obtain ⟨c, hc, hobject⟩ := hj
  induction path generalizing j with
  | nil =>
    have hroot : j = c := Option.some.inj hc
    cases j with
    | object ms =>
      rw [toDoc_object, List.nil_append, NestedMap.alter_singleton]
      exact congrArg some (hf ms rfl).symm
    | _ =>
      rw [← hroot] at hobject
      cases hobject
  | cons k path ih =>
    obtain ⟨v, hv, hrestc⟩ := Option.bind_eq_some_iff.1 hc
    cases j with
    | object ms =>
      have hrest := ih (fun ms' hms => hf ms' (Option.bind_eq_some_iff.2 ⟨v, hv, hms⟩)) hrestc
      change findMember ms k = some v at hv
      rw [toDoc_object, List.cons_append, NestedMap.alter_cons (by simp), hv, Option.map_some,
        Option.bind_some, hrest, Option.map_some, modifyAt, toDoc_object]
      congr 2
      funext l
      rw [findMember_updateMember]
      by_cases hl : l = k
      · rw [hl, if_pos rfl, Function.update_self, hv]
        rfl
      · rw [if_neg hl, Function.update_of_ne hl]
    | _ => cases hv

end edits

section compare

/-- The leaves are compared by `cJSON_Compare`. -/
abbrev Equal : Doc → Doc → Prop := NestedMap.Same fun a b => Json.compare a b = true

theorem leaf_of_compareTo {n : ℕ} {a b : Json} (h : compareTo n a b = true)
    (ha : a.isObject = false) (hb : b.isObject = false) : Equal (toDoc a) (toDoc b) := by
  rw [toDoc_of_not_object ha, toDoc_of_not_object hb]
  exact .leaf (compareTo_of_depth h (Nat.le_max_left _ _) (Nat.le_max_right _ _))

theorem equal_of_compareTo {n : ℕ} {a b : Json} (h : compareTo n a b = true) :
    Equal (toDoc a) (toDoc b) := by
  induction n generalizing a b with
  | zero =>
    cases compareTo_iff.1 h with
    | null => exact leaf_of_compareTo h rfl rfl
    | bool => exact leaf_of_compareTo h rfl rfl
    | number => exact leaf_of_compareTo h rfl rfl
    | string => exact leaf_of_compareTo h rfl rfl
  | succ n ih =>
    cases compareTo_iff.1 h with
    | null => exact leaf_of_compareTo h rfl rfl
    | bool => exact leaf_of_compareTo h rfl rfl
    | number => exact leaf_of_compareTo h rfl rfl
    | string => exact leaf_of_compareTo h rfl rfl
    | array => exact leaf_of_compareTo h rfl rfl
    | @object _ ms ns hl hr =>
      rw [toDoc_object, toDoc_object]
      have hmem {us vs : List (String × Json)}
          (hin : MembersIn (fun x y => compareTo n x y = true) us vs) {k : String} {x : Json}
          (hx : findMember us k = some x) :
          ∃ y, findMember vs k = some y ∧ compareTo n x y = true :=
        hin _ (mem_of_findMember hx)
      refine .node ?_ ?_
      · intro k
        rw [Option.isSome_map, Option.isSome_map, Bool.eq_iff_iff, Option.isSome_iff_exists,
          Option.isSome_iff_exists]
        constructor
        · intro hx
          obtain ⟨x, hx⟩ := hx
          obtain ⟨y, hy, -⟩ := hmem hl hx
          exact ⟨y, hy⟩
        · intro hy
          obtain ⟨y, hy⟩ := hy
          obtain ⟨x, hx, -⟩ := hmem hr hy
          exact ⟨x, hx⟩
      · intro k d e hd he
        obtain ⟨x, hx, rfl⟩ := Option.map_eq_some_iff.1 hd
        obtain ⟨y, hy, rfl⟩ := Option.map_eq_some_iff.1 he
        obtain ⟨y', hy', hxy⟩ := hmem hl hx
        rw [hy] at hy'
        cases hy'
        exact ih hxy

/-- The maps agree on the names, and the members under one name are found equal. -/
theorem compareTo_of_equal {n : ℕ} {a b : Json} (ha : a.depth ≤ n) (hb : b.depth ≤ n)
    (hua : Unique a) (hub : Unique b) (h : Equal (toDoc a) (toDoc b)) :
    compareTo n a b = true := by
  induction n generalizing a b with
  | zero =>
    have hleaf {c : Json} (hc : c.depth ≤ 0) : c.isObject = false := by
      cases c with
      | object ms =>
        rw [depth] at hc
        omega
      | _ => rfl
    rw [toDoc_of_not_object (hleaf ha), toDoc_of_not_object (hleaf hb)] at h
    cases h with
    | leaf h => exact (compare_iff ha hb).1 h
  | succ n ih =>
    by_cases hobject : a.isObject = true
    · cases a with
      | object ms =>
        rw [toDoc_object] at h
        by_cases hobject' : b.isObject = true
        · cases b with
          | object ns =>
            rw [toDoc_object] at h
            rw [depth] at ha hb
            obtain ⟨hms, hums⟩ := unique_object.1 hua
            obtain ⟨hns, huns⟩ := unique_object.1 hub
            cases h with
            | node hk h =>
              have hpair {m l : String × Json} (hm : m ∈ ms) (hl : l ∈ ns) (hname : m.1 = l.1) :
                  compareTo n m.2 l.2 = true := by
                have hd := depth_le_depthMembers hm
                have hd' := depth_le_depthMembers hl
                refine ih (by omega) (by omega) (hums m hm) (huns l hl) (h m.1 _ _ ?_ ?_)
                · exact congrArg (Option.map toDoc) (findMember_of_unique hms hm)
                · rw [hname]
                  exact congrArg (Option.map toDoc) (findMember_of_unique hns hl)
              have hthere (k : String) :
                  (∃ x, findMember ms k = some x) ↔ ∃ y, findMember ns k = some y := by
                have hsome := hk k
                dsimp only at hsome
                rw [Option.isSome_map, Option.isSome_map, Bool.eq_iff_iff,
                  Option.isSome_iff_exists, Option.isSome_iff_exists] at hsome
                exact hsome
              refine (compareTo_object n ms ns).2 ⟨?_, ?_⟩
              · intro m hm
                obtain ⟨y, hy⟩ := (hthere m.1).1 ⟨_, findMember_of_unique hms hm⟩
                exact ⟨y, hy, hpair hm (mem_of_findMember hy) rfl⟩
              · intro l hl
                obtain ⟨x, hx⟩ := (hthere l.1).2 ⟨_, findMember_of_unique hns hl⟩
                exact ⟨x, hx, compareTo_symm (hpair (mem_of_findMember hx) hl rfl)⟩
          | _ => cases hobject'
        · rw [toDoc_of_not_object (by simpa using hobject')] at h
          cases h
      | _ => cases hobject
    · rw [toDoc_of_not_object (by simpa using hobject)] at h
      by_cases hobject' : b.isObject = true
      · cases b with
        | object ns =>
          rw [toDoc_object] at h
          cases h
        | _ => cases hobject'
      · rw [toDoc_of_not_object (by simpa using hobject')] at h
        cases h with
        | leaf h => exact (compare_iff ha hb).1 h

theorem compare_iff_equal {a b : Json} (ha : Unique a) (hb : Unique b) :
    compare a b = true ↔ Equal (toDoc a) (toDoc b) := by
  constructor
  · exact equal_of_compareTo
  · exact compareTo_of_equal (Nat.le_max_left _ _) (Nat.le_max_right _ _) ha hb

end compare

end Nssf.Json
