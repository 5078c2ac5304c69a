import Nssf.Subscription.PatchFrame

/-! Pointers that are made from keys. Escaping a key leaves no separator in it, and the one pass
that unescapes a segment gives the key back. -/

namespace Nssf.Subscription

open Base Run

section escaping

def escapeKey (key : List Char) : List Char :=
  key.flatMap fun c => if c = '~' then ['~', '0'] else if c = '/' then ['~', '1'] else [c]

/-- The pointer with the keys as its reference tokens. -/
def pointerOf (keys : List String) : String :=
  String.ofList (keys.flatMap fun key => '/' :: escapeKey key.toList)

theorem unescape_cons {c : Char} (h : c ≠ '~') (cs : List Char) :
    unescape (c :: cs) = c :: unescape cs := by
  rw [unescape]
  · exact fun _ hc => absurd hc h
  · exact fun _ hc => absurd hc h

theorem unescape_escapeKey (key : List Char) : unescape (escapeKey key) = key := by
  induction key with
  | nil => rfl
  | cons c key ih =>
    have hcons : escapeKey (c :: key) = (if c = '~' then ['~', '0']
        else if c = '/' then ['~', '1'] else [c]) ++ escapeKey key := List.flatMap_cons
    rw [hcons]
    split_ifs with htilde hslash
    · rw [List.cons_append, List.singleton_append, unescape, ih, htilde]
    · rw [List.cons_append, List.singleton_append, unescape, ih, hslash]
    · rw [List.singleton_append, unescape_cons htilde, ih]

theorem slash_notMem_escapeKey (key : List Char) : '/' ∉ escapeKey key := by
  intro h
  obtain ⟨c, -, hc⟩ := List.mem_flatMap.1 h
  split_ifs at hc with htilde hslash
  · simp at hc
  · simp at hc
  · exact hslash (List.mem_singleton.1 hc).symm

theorem splitOn_keys (key : String) (keys : List String) :
    (escapeKey key.toList ++ keys.flatMap fun key => '/' :: escapeKey key.toList).splitOn '/' =
      (key :: keys).map fun key => escapeKey key.toList := by
  induction keys generalizing key with
  | nil =>
    rw [List.flatMap_nil, List.append_nil]
    exact List.splitOn_eq_singleton (slash_notMem_escapeKey _)
  | cons next keys ih =>
    rw [List.flatMap_cons, List.cons_append,
      List.splitOn_append_cons_self_of_not_mem (slash_notMem_escapeKey _), ih]
    rfl

theorem resolvePointerParent_pointerOf (root : Json) (key : String) (keys : List String) :
    resolvePointerParent root (pointerOf (key :: keys)) =
      walkPointer [] root ((key :: keys).map fun key => escapeKey key.toList) := by
  unfold resolvePointerParent pointerOf
  rw [String.toList_ofList, List.flatMap_cons, List.cons_append, ← splitOn_keys]
  rfl

end escaping

section walking

/-- The object that is reached by looking the keys up in turn. -/
def objectAt : List String → Json → Option Json
  | [], j => some j
  | key :: keys, j =>
    match j.member? key with
    | some (.object members) => objectAt keys (.object members)
    | _ => none

theorem atPath_of_objectAt {keys : List String} {root parent : Json}
    (h : objectAt keys root = some parent) : root.atPath keys = some parent := by
  induction keys generalizing root with
  | nil => exact h
  | cons key keys ih =>
    simp only [objectAt] at h
    split at h
    · rename_i members hmember
      simp only [Json.atPath, hmember, Option.bind_some]
      exact ih h
    · cases h

theorem yields_walkKeys (walked keys : List String) (last : String) {cur : Json}
    (hlook : keys ≠ [] → cur.Lookable) :
    Yields (walkPointer walked cur ((keys ++ [last]).map fun key => escapeKey key.toList))
      ((objectAt keys cur).map fun _ => ⟨walked ++ keys, last⟩) := by
  have hkey : ∀ key : String, String.ofList (unescape (escapeKey key.toList)) = key := by
    intro key
    rw [unescape_escapeKey, String.ofList_toList]
  induction keys generalizing walked cur with
  | nil =>
    refine Yields.bind (yields_allocated _) ?_
    rw [hkey, List.append_nil]
    exact yields_pure _
  | cons key keys ih =>
    have hmore : ((keys ++ [last]).map fun key => escapeKey key.toList).isEmpty = false := by simp
    rw [List.cons_append, List.map_cons]
    refine Yields.bind (yields_allocated _) ?_
    simp only [hkey, hmore, Bool.false_eq_true, if_false, objectAt]
    rw [Json.getObjectItem_of_lookable (hlook (by simp)), pure_bind]
    cases cur.member? key with
    | none => exact yields_pure none
    | some v =>
      cases v with
      | object members =>
        have hrest := ih (walked ++ [key]) fun _ => Json.lookable_object members
        rw [List.append_assoc] at hrest
        exact hrest
      | _ => exact yields_pure none

end walking

section rounds

/-- The resolution as a loop, as far as so many rounds go; `p` is what is left of the pointer. -/
def resolveLoop : ℕ → List String → Json → List Char → Run (Option (Option Slot))
  | 0, _, _, _ => pure none
  | rounds + 1, walked, cur, p => do
    match ← allocated (String.ofList (unescape (p.takeWhile (· != '/')))) with
    | none => return some none
    | some key =>
      match p.dropWhile (· != '/') with
      | [] => return some (some ⟨walked, key⟩)
      | _ :: rest =>
        match ← Json.getObjectItem (some cur) key with
        | some (.object members) => resolveLoop rounds (walked ++ [key]) (.object members) rest
        | _ => return some none

variable {p rest : List Char} {c : Char}

theorem slash_notMem_takeWhile (p : List Char) : '/' ∉ p.takeWhile (· != '/') := by
  intro hmem
  have hslash := List.all_eq_true.1 List.all_takeWhile _ hmem
  simp at hslash

theorem splitOn_last (h : p.dropWhile (· != '/') = []) :
    p.splitOn '/' = [p.takeWhile (· != '/')] := by
  have hsplit := List.takeWhile_append_dropWhile (p := (· != '/')) (l := p)
  rw [h, List.append_nil] at hsplit
  rw [hsplit]
  exact List.splitOn_eq_singleton (hsplit ▸ slash_notMem_takeWhile p)

theorem splitOn_more (h : p.dropWhile (· != '/') = c :: rest) :
    p.splitOn '/' = p.takeWhile (· != '/') :: rest.splitOn '/' := by
  have hc : c = '/' := by
    have hhead := List.head?_dropWhile_not (· != '/') p
    rw [h] at hhead
    simpa using hhead
  have hsplit := List.takeWhile_append_dropWhile (p := (· != '/')) (l := p)
  rw [h, hc] at hsplit
  have hcut := List.splitOn_append_cons_self_of_not_mem (slash_notMem_takeWhile p) rest
  rwa [hsplit] at hcut

/-- The loop ends on every pointer, and it walks the segments. -/
theorem resolveLoop_eq {rounds : ℕ} (h : p.length < rounds) (walked : List String) (cur : Json) :
    resolveLoop rounds walked cur p =
      walkPointer walked cur (p.splitOn '/') >>= fun found => pure (some found) := by
  induction rounds generalizing p walked cur with
  | zero => omega
  | succ rounds ih =>
    simp only [resolveLoop]
    cases hafter : p.dropWhile (· != '/') with
    | nil =>
      rw [splitOn_last hafter]
      simp only [walkPointer, bind_assoc]
      congr 1
      funext o
      cases o with
      | none => rfl
      | some key => rfl
    | cons c rest =>
      have hmore : (rest.splitOn '/').isEmpty = false := by
        simp [List.splitOn_ne_nil]
      have hlength : rest.length < rounds := by
        have hle := (List.dropWhile_sublist (l := p) (· != '/')).length_le
        rw [hafter, List.length_cons] at hle
        omega
      rw [splitOn_more hafter]
      simp only [walkPointer, bind_assoc, hmore, Bool.false_eq_true, if_false]
      congr 1
      funext o
      cases o with
      | none => rfl
      | some key =>
        dsimp only
        rw [bind_assoc]
        congr 1
        funext found
        cases found with
        | none => rfl
        | some v =>
          cases v with
          | object members => exact ih hlength _ _
          | _ => rfl

end rounds

/-- The pointer of the keys resolves to the last of them in the object that the others lead to,
if they do, and the loop ends on every pointer. -/
theorem resolvePointerParent_keys (root : Json) (keys : List String) (last : String)
    (h : keys ≠ [] → root.Lookable) :
    Yields (resolvePointerParent root (pointerOf (keys ++ [last])))
        ((objectAt keys root).map fun _ => ⟨keys, last⟩) ∧
      (∀ parent, objectAt keys root = some parent → root.atPath keys = some parent) ∧
      ∀ (pointer : List Char) (rounds : ℕ), pointer.length < rounds →
        resolveLoop rounds [] root pointer =
          walkPointer [] root (pointer.splitOn '/') >>= fun found => pure (some found) := by
  refine ⟨?_, fun parent => atPath_of_objectAt, fun pointer rounds hr => resolveLoop_eq hr [] root⟩
  have hwalk := yields_walkKeys [] keys last h
  cases keys with
  | nil =>
    rw [List.nil_append, resolvePointerParent_pointerOf]
    exact hwalk
  | cons key keys =>
    rw [List.cons_append, resolvePointerParent_pointerOf]
    exact hwalk

theorem resolvePointerParent_tilde : Yields
    (resolvePointerParent (.object [("~1", .object [])]) (pointerOf ["~1", "a/b"]))
    (some ⟨["~1"], "a/b"⟩) :=
  (resolvePointerParent_keys (.object [("~1", .object [])]) ["~1"] "a/b" fun _ => trivial).1

/-- Below an array that has items a name is not looked up at all. -/
theorem resolvePointerParent_array : ¬∀ (root : Json) (keys : List String) (last : String),
    Yields (resolvePointerParent root (pointerOf (keys ++ [last])))
      ((objectAt keys root).map fun _ => ⟨keys, last⟩) := by
  intro h
  obtain ⟨e', hrun, -⟩ := h (.array [.null]) ["a"] "b" Env.quiet Env.allocOk_quiet
  rw [List.singleton_append, resolvePointerParent_pointerOf] at hrun
  cases hrun

end Nssf.Subscription
