import Nssf.Json.Doc
import Nssf.Subscription.PatchWrites

/-! What a patch means: each operation as it changes a map of maps, and the code as it changes
the tree. Writing deletes the old member and appends the new one, and a move deletes before it
writes, so the two agree in what every pointer finds and not in the order of the members. -/

namespace Nssf.Subscription

open Base Run Json

section tokens

/-- One escape of a reference token, replaced throughout. -/
def replaceEscape (digit char : Char) : List Char → List Char
  | [] => []
  | '~' :: c :: cs =>
    if c = digit then char :: replaceEscape digit char cs
    else '~' :: replaceEscape digit char (c :: cs)
  | c :: cs => c :: replaceEscape digit char cs

/-- First every `~1` becomes `/`, then every `~0` becomes `~`. -/
def decodeToken (cs : List Char) : List Char :=
  replaceEscape '0' '~' (replaceEscape '1' '/' cs)

def pointerTokens (pointer : String) : Option (List String) :=
  match pointer.toList with
  | '/' :: tail => some ((tail.splitOn '/').map fun seg => String.ofList (decodeToken seg))
  | _ => none

theorem replaceEscape_cons {digit char c : Char} (h : c ≠ '~') (cs : List Char) :
    replaceEscape digit char (c :: cs) = c :: replaceEscape digit char cs := by
  cases cs with
  | nil => simp [replaceEscape]
  | cons d cs =>
    rw [replaceEscape]
    intro c' cs' hc
    exact absurd hc h

theorem replaceEscape_hit (digit char : Char) (cs : List Char) :
    replaceEscape digit char ('~' :: digit :: cs) = char :: replaceEscape digit char cs := by
  simp [replaceEscape]

theorem replaceEscape_miss {digit char c : Char} (h : c ≠ digit) (cs : List Char) :
    replaceEscape digit char ('~' :: c :: cs) = '~' :: replaceEscape digit char (c :: cs) := by
  rw [replaceEscape, if_neg h]

/-- The first pass leaves no new `0` behind a tilde. -/
theorem replaceEscape_head {c : Char} (h : c ≠ '0') (cs : List Char) :
    ∃ d ds, replaceEscape '1' '/' (c :: cs) = d :: ds ∧ d ≠ '0' := by
  by_cases hc : c = '~'
  · subst hc
    cases cs with
    | nil => exact ⟨'~', [], rfl, h⟩
    | cons d ds =>
      by_cases hd : d = '1'
      · subst hd
        exact ⟨'/', _, replaceEscape_hit _ _ _, by decide⟩
      · exact ⟨'~', _, replaceEscape_miss hd _, h⟩
  · exact ⟨c, _, replaceEscape_cons hc cs, h⟩

/-- The one pass of the code does both. -/
theorem decodeToken_eq (cs : List Char) : decodeToken cs = unescape cs := by
  unfold decodeToken
  induction cs using unescape.induct with
  | case1 => rfl
  | case2 cs ih =>
    rw [replaceEscape_hit, replaceEscape_cons (by decide), ih, unescape]
  | case3 cs ih =>
    have hzero : '0' ≠ '1' := by decide
    rw [replaceEscape_miss hzero, replaceEscape_cons (by decide : '0' ≠ '~'), replaceEscape_hit, ih,
      unescape]
  | case4 c cs hone hzero ih =>
    have hunescape : unescape (c :: cs) = c :: unescape cs := by
      rw [unescape]
      · exact hone
      · exact hzero
    rw [hunescape, ← ih]
    by_cases hc : c = '~'
    · subst hc
      cases cs with
      | nil => rfl
      | cons d ds =>
        have hd₁ : d ≠ '1' := fun hd => hone ds rfl (by rw [hd])
        have hd₀ : d ≠ '0' := fun hd => hzero ds rfl (by rw [hd])
        obtain ⟨x, xs, hhead, hx⟩ := replaceEscape_head hd₀ ds
        rw [replaceEscape_miss hd₁, hhead, replaceEscape_miss hx]
    · rw [replaceEscape_cons hc, replaceEscape_cons hc]

theorem pointerTokens_eq (pointer : String) : pointerTokens pointer = pointerPath pointer := by
  have hdecode : decodeToken = unescape := funext decodeToken_eq
  unfold pointerTokens pointerPath
  rewrite [hdecode]
  rfl

end tokens

/-- The address that a member of an operation names. -/
def opTokens (op : Json) (name : String) : Option (List String) :=
  ((op.member? name).bind Json.string?).bind pointerTokens

open Classical in
noncomputable def rfcTest (d : Doc) (path : List String) (v : Doc) : Option Doc :=
  (d.lookup path).bind fun found => if Equal found v then some d else none

/-- The effect of an operation on the object at its path, where it has one. -/
noncomputable def rfcEdit (d : Doc) (op : Json) (name : String) (path : List String) :
    Option Doc :=
  if name = "add" then (op.member? "value").bind fun v => d.alter (some v.toDoc) path
  else if name = "replace" then
    (op.member? "value").bind fun v => (d.lookup path).bind fun _ => d.alter (some v.toDoc) path
  else if name = "remove" then (d.lookup path).bind fun _ => d.alter none path
  else if name = "copy" then
    (opTokens op "from").bind fun source => (d.lookup source).bind fun v => d.alter (some v) path
  else if name = "move" then
    (opTokens op "from").bind fun source => (d.lookup source).bind fun v =>
      (d.alter none source).bind fun rest => rest.alter (some v) path
  else if name = "test" then (op.member? "value").bind fun v => rfcTest d path v.toDoc
  else none

noncomputable def rfcApply (d : Doc) (op : Json) : Option Doc :=
  ((op.member? "op").bind Json.string?).bind fun name =>
    (opTokens op "path").bind fun path => rfcEdit d op name path

section effects

variable {d d' : Doc} {op : Json} {name : String} {path : List String}

theorem rfcEdit_cases (h : rfcEdit d op name path = some d') :
    ((name = "add" ∨ name = "replace") ∧ ∃ v, op.member? "value" = some v ∧
        d.alter (some v.toDoc) path = some d') ∨
      (name = "remove" ∧ d.alter none path = some d') ∨
      (name = "copy" ∧ ∃ source v, opTokens op "from" = some source ∧ d.lookup source = some v ∧
        d.alter (some v) path = some d') ∨
      (name = "move" ∧ ∃ source v rest, opTokens op "from" = some source ∧
        d.lookup source = some v ∧ d.alter none source = some rest ∧
        rest.alter (some v) path = some d') ∨
      (name = "test" ∧ (d.lookup path).isSome = true ∧ d' = d) := by
  unfold rfcEdit at h
  split_ifs at h with hadd hreplace hremove hcopy hmove htest
  · obtain ⟨v, hv, h⟩ := Option.bind_eq_some_iff.1 h
    exact Or.inl ⟨Or.inl hadd, v, hv, h⟩
  · obtain ⟨v, hv, h⟩ := Option.bind_eq_some_iff.1 h
    obtain ⟨old, -, h⟩ := Option.bind_eq_some_iff.1 h
    exact Or.inl ⟨Or.inr hreplace, v, hv, h⟩
  · obtain ⟨old, -, h⟩ := Option.bind_eq_some_iff.1 h
    exact Or.inr (Or.inl ⟨hremove, h⟩)
  · obtain ⟨source, hsource, h⟩ := Option.bind_eq_some_iff.1 h
    obtain ⟨v, hv, h⟩ := Option.bind_eq_some_iff.1 h
    exact Or.inr (Or.inr (Or.inl ⟨hcopy, source, v, hsource, hv, h⟩))
  · obtain ⟨source, hsource, h⟩ := Option.bind_eq_some_iff.1 h
    obtain ⟨v, hv, h⟩ := Option.bind_eq_some_iff.1 h
    obtain ⟨rest, hrest, h⟩ := Option.bind_eq_some_iff.1 h
    exact Or.inr (Or.inr (Or.inr (Or.inl ⟨hmove, source, v, rest, hsource, hv, hrest, h⟩)))
  · obtain ⟨v, -, h⟩ := Option.bind_eq_some_iff.1 h
    obtain ⟨found, hfound, h⟩ := Option.bind_eq_some_iff.1 h
    split_ifs at h
    cases h
    exact Or.inr (Or.inr (Or.inr (Or.inr ⟨htest, Option.isSome_of_eq_some hfound, rfl⟩)))

/-- What the operation writes is found at its path. -/
theorem lookup_rfcEdit (h : rfcEdit d op name path = some d') :
    ((name = "add" ∨ name = "replace") → d'.lookup path = (op.member? "value").map toDoc) ∧
      (name = "remove" → d'.lookup path = none) ∧
      ((name = "copy" ∨ name = "move") →
        d'.lookup path = (opTokens op "from").bind fun source => d.lookup source) := by
  obtain ⟨hname, v, hv, ha⟩ | ⟨rfl, ha⟩ | ⟨rfl, source, v, hsource, hv, ha⟩ |
    ⟨rfl, source, v, rest, hsource, hv, -, ha⟩ | ⟨rfl, -, -⟩ := rfcEdit_cases h
  · refine ⟨fun _ => ?_, fun hn => ?_, fun hn => ?_⟩
    · rw [NestedMap.lookup_alter_self ha, hv]
      rfl
    · rw [hn] at hname
      exact absurd hname (by decide)
    · rcases hname with rfl | rfl
      · exact absurd hn (by decide)
      · exact absurd hn (by decide)
  · exact ⟨fun hn => absurd hn (by decide), fun _ => NestedMap.lookup_alter_self ha,
      fun hn => absurd hn (by decide)⟩
  · refine ⟨fun hn => absurd hn (by decide), fun hn => absurd hn (by decide), fun _ => ?_⟩
    rw [NestedMap.lookup_alter_self ha, hsource, Option.bind_some, hv]
  · refine ⟨fun hn => absurd hn (by decide), fun hn => absurd hn (by decide), fun _ => ?_⟩
    rw [NestedMap.lookup_alter_self ha, hsource, Option.bind_some, hv]
  · exact ⟨fun hn => absurd hn (by decide), fun hn => absurd hn (by decide),
      fun hn => absurd hn (by decide)⟩

/-- A pointer that meets none of the operation's finds what it found before. -/
theorem lookup_rfcEdit_of_apart (h : rfcEdit d op name path = some d') {q : List String}
    (hpath : ¬path <+: q ∧ ¬q <+: path)
    (hfrom : ∀ source, opTokens op "from" = some source → ¬source <+: q ∧ ¬q <+: source) :
    d'.lookup q = d.lookup q := by
  have hkept {w : Option Doc} {c c' : Doc} (ha : c.alter w path = some c') :
      c'.lookup q = c.lookup q := NestedMap.lookup_alter_of_apart ha hpath.1 hpath.2
  obtain ⟨-, v, -, ha⟩ | ⟨-, ha⟩ | ⟨-, source, v, -, -, ha⟩ |
    ⟨-, source, v, rest, hsource, -, hrest, ha⟩ | ⟨-, -, rfl⟩ := rfcEdit_cases h
  · exact hkept ha
  · exact hkept ha
  · exact hkept ha
  · rw [hkept ha]
    exact NestedMap.lookup_alter_of_apart hrest (hfrom source hsource).1 (hfrom source hsource).2
  · rfl

end effects

section pointers

variable {resource : Json} {s : Slot}

theorem not_in_of_member {walked rest : List String} {cur : Json} {key : String}
    (hw : resource.atPath walked = some cur) (hs : s.container = walked ++ key :: rest)
    (hm : ∀ ms, cur.member? key ≠ some (.object ms)) : ¬s.In resource := by
  intro h
  obtain ⟨c, hc, hobject⟩ := h
  rw [hs, Json.atPath_append, hw, Option.bind_some] at hc
  obtain ⟨v, hv, hc⟩ := Option.bind_eq_some_iff.1 hc
  cases v with
  | object ms => exact hm ms hv
  | _ =>
    cases rest with
    | nil =>
      cases hc
      cases hobject
    | cons k rest => cases hc

/-- A pointer resolves to its slot just when the container of that is there. -/
theorem yields_walkPointer {walked : List String} {cur : Json}
    (hw : resource.atPath walked = some cur) (hc : cur.isObject = true) {segs : List (List Char)}
    (hne : segs ≠ [])
    (hs : s.path = walked ++ segs.map fun seg => String.ofList (unescape seg)) :
    (s.In resource → Yields (walkPointer walked cur segs) (some s)) ∧
      (¬s.In resource → Yields (walkPointer walked cur segs) none) := by
  induction segs generalizing walked cur with
  | nil => exact absurd rfl hne
  | cons seg segs ih =>
    cases segs with
    | nil =>
      obtain ⟨hcontainer, hkey⟩ := List.append_inj' hs rfl
      have hslot : s = ⟨walked, String.ofList (unescape seg)⟩ := by
        cases s
        simp only [List.map_cons, List.map_nil, List.cons.injEq, and_true] at hcontainer hkey
        rw [hcontainer, hkey]
      refine ⟨fun _ => ?_, fun hout => ?_⟩
      · rw [hslot]
        exact Yields.bind (yields_allocated _) (yields_pure _)
      · exact absurd ⟨cur, hcontainer ▸ hw, hc⟩ hout
    | cons seg' segs =>
      let key := String.ofList (unescape seg)
      let rest := (seg' :: segs).map fun seg => String.ofList (unescape seg)
      have hrest : rest ≠ [] := by simp [rest]
      have hcontainer : s.container = walked ++ key :: rest.dropLast := by
        have hdrop := congrArg List.dropLast hs
        rw [Slot.path, List.dropLast_concat] at hdrop
        rw [hdrop, List.map_cons, List.dropLast_append_of_ne_nil (by simp),
          List.dropLast_cons_of_ne_nil hrest]
      have hlook := Json.getObjectItem_of_lookable (σ := Env) (Json.lookable_of_isObject hc) key
      have hmissing (hno : ∀ ms, cur.member? key ≠ some (.object ms))
          (hy : Yields (walkPointer walked cur (seg :: seg' :: segs)) none) :
          (s.In resource → Yields (walkPointer walked cur (seg :: seg' :: segs)) (some s)) ∧
            (¬s.In resource → Yields (walkPointer walked cur (seg :: seg' :: segs)) none) :=
        ⟨fun hin => absurd hin (not_in_of_member hw hcontainer hno), fun _ => hy⟩
      cases hm : cur.member? key with
      | none =>
        refine hmissing (by simp [hm]) (Yields.bind (yields_allocated key) ?_)
        change Yields (Json.getObjectItem (some cur) key >>= _) _
        rw [hlook, pure_bind, hm]
        exact yields_pure none
      | some v =>
        cases v with
        | object members =>
          have hnext : resource.atPath (walked ++ [key]) = some (.object members) := by
            rw [Json.atPath_snoc, hw]
            exact hm
          have hpath : s.path = (walked ++ [key]) ++ rest := by
            rw [hs, List.append_assoc]
            rfl
          have hstep {o : Option Slot}
              (ho : Yields (walkPointer (walked ++ [key]) (.object members) (seg' :: segs)) o) :
              Yields (walkPointer walked cur (seg :: seg' :: segs)) o := by
            refine Yields.bind (yields_allocated key) ?_
            change Yields (Json.getObjectItem (some cur) key >>= _) _
            rw [hlook, pure_bind, hm]
            exact ho
          obtain ⟨hin, hout⟩ := ih hnext rfl (by simp) hpath
          exact ⟨fun h => hstep (hin h), fun h => hstep (hout h)⟩
        | _ =>
          refine hmissing (by simp [hm]) (Yields.bind (yields_allocated key) ?_)
          change Yields (Json.getObjectItem (some cur) key >>= _) _
          rw [hlook, pure_bind, hm]
          exact yields_pure none

theorem yields_resolvePointerParent (hr : resource.isObject = true) {pointer : String}
    (hs : pointerTokens pointer = some s.path) :
    (s.In resource → Yields (resolvePointerParent resource pointer) (some s)) ∧
      (¬s.In resource → Yields (resolvePointerParent resource pointer) none) := by
  rw [pointerTokens_eq] at hs
  unfold pointerPath at hs
  unfold resolvePointerParent
  generalize pointer.toList = cs at hs ⊢
  cases cs with
  | nil => cases hs
  | cons c tail =>
    by_cases hc : c = '/'
    · subst hc
      exact yields_walkPointer rfl hr (List.splitOn_ne_nil '/' tail) (Option.some.inj hs).symm
    · split at hs
      · rename_i heq
        exact absurd (List.cons.inj heq).1 hc
      · cases hs

theorem yields_resolvePointerParent_none {pointer : String} (h : pointerTokens pointer = none) :
    Yields (resolvePointerParent resource pointer) none := by
  rw [pointerTokens_eq] at h
  unfold pointerPath at h
  unfold resolvePointerParent
  generalize pointer.toList = cs at h ⊢
  cases cs with
  | nil => exact yields_pure none
  | cons c tail =>
    by_cases hc : c = '/'
    · subst hc
      cases h
    · split
      · rename_i heq
        exact absurd (List.cons.inj heq).1 hc
      · exact yields_pure none

theorem slot_of_tokens {pointer : String} {path : List String}
    (h : pointerTokens pointer = some path) : ∃ s : Slot, s.path = path := by
  have hne : path ≠ [] := by
    rw [pointerTokens_eq] at h
    unfold pointerPath at h
    split at h
    · cases h
      simp [List.splitOn_ne_nil]
    · cases h
  exact ⟨⟨path.dropLast, path.getLast hne⟩, List.dropLast_append_getLast hne⟩

end pointers

section slots

variable {resource : Json} {s : Slot}

theorem in_iff_nodeAt : s.In resource ↔ NestedMap.NodeAt s.container resource.toDoc :=
  nodeAt_toDoc.symm

theorem alter_of_not_in (h : ¬s.In resource) (w : Option Doc) :
    resource.toDoc.alter w s.path = none := by
  rw [in_iff_nodeAt] at h
  rw [← Option.not_isSome_iff_eq_none]
  exact fun hsome => h (NestedMap.alter_isSome_iff.1 hsome)

/-- The code's delete in a tree. -/
def deleteSlot (resource : Json) (s : Slot) : Json :=
  resource.modifyAt (·.deleteItem s.key) s.container

/-- The code's write in a tree. -/
def storeSlot (resource : Json) (s : Slot) (v : Json) : Json :=
  resource.modifyAt (storeItem s.key v) s.container

theorem alter_deleteSlot (hu : resource.Unique) (h : s.In resource) :
    resource.toDoc.alter none s.path = some (deleteSlot resource s).toDoc :=
  alter_toDoc (in_iff_nodeAt.1 h) fun _ hms => toDoc_deleteItem (hu.atPath hms) s.key

theorem alter_storeSlot (hu : resource.Unique) (h : s.In resource) (v : Json) :
    resource.toDoc.alter (some v.toDoc) s.path = some (storeSlot resource s v).toDoc :=
  alter_toDoc (in_iff_nodeAt.1 h) fun _ hms => toDoc_storeItem (hu.atPath hms) s.key v

theorem unique_deleteSlot (hu : resource.Unique) (s : Slot) : (deleteSlot resource s).Unique :=
  hu.modifyAt fun _ _ hc => hc.deleteItem s.key

theorem unique_storeSlot (hu : resource.Unique) (s : Slot) {v : Json} (hv : v.Unique) :
    (storeSlot resource s v).Unique :=
  hu.modifyAt fun _ _ hc => hc.storeItem s.key hv

theorem isObject_storeSlot (hr : resource.isObject = true) (s : Slot) (v : Json) :
    (storeSlot resource s v).isObject = true :=
  Json.isObject_modifyAt (fun _ h => isObject_storeItem h s.key v) s.container hr

theorem yields_storeAt (resource : Json) (s : Slot) (v : Json) :
    Yields (storeAt resource s v) (storeSlot resource s v) := by
  have hboth : storeSlot resource s v =
      (deleteSlot resource s).modifyAt (·.addItem s.key v) s.container :=
    (modifyAt_modifyAt (·.deleteItem s.key) (·.addItem s.key v) s.container resource).symm
  rw [hboth]
  exact Yields.bind yields_alloc (yields_pure _)

/-- A slot stays in the tree when a member goes that does not hold its container. -/
theorem in_deleteSlot {target : Slot} (hu : resource.Unique) (h : s.In resource)
    (hfree : ¬s.path <+: target.container) :
    target.In (deleteSlot resource s) ↔ target.In resource := by
  rw [in_iff_nodeAt, in_iff_nodeAt]
  exact NestedMap.nodeAt_alter (alter_deleteSlot hu h) hfree

end slots

/-- The program gives the tree that the edit makes of the map, with no name twice in it. -/
def Means (m : Run (Option Json)) (d : Option Doc) : Prop :=
  ∃ o, Yields m o ∧ o.map toDoc = d ∧ ∀ tree, o = some tree → tree.isObject = true ∧ tree.Unique

section operations

variable {resource op : Json} {target : Slot}

theorem means_none {m : Run (Option Json)} (h : Yields m none) : Means m none :=
  ⟨none, h, rfl, fun _ h => by cases h⟩

theorem means_some {m : Run (Option Json)} {tree : Json} (h : Yields m (some tree))
    (ht : tree.isObject = true) (hu : tree.Unique) : Means m (some tree.toDoc) := by
  refine ⟨some tree, h, rfl, fun tree' h' => ?_⟩
  cases h'
  exact ⟨ht, hu⟩

theorem Means.bind {α : Type} {m : Run α} {f : α → Run (Option Json)} {a : α} {d : Option Doc}
    (hm : Yields m a) (hf : Means (f a) d) : Means (m >>= f) d := by
  obtain ⟨o, hy, hrest⟩ := hf
  exact ⟨o, Yields.bind hm hy, hrest⟩

theorem means_store (hr : resource.isObject = true) (hu : resource.Unique)
    (ht : target.In resource) {v : Json} (hv : v.Unique) :
    Means (storeAt resource target v >>= fun j => pure (some j))
      (resource.toDoc.alter (some v.toDoc) target.path) := by
  rw [alter_storeSlot hu ht]
  exact means_some (Yields.bind (yields_storeAt resource target v) (yields_pure _))
    (isObject_storeSlot hr target v) (unique_storeSlot hu target hv)

theorem lookup_path (resource : Json) (s : Slot) :
    resource.toDoc.lookup s.path = (resource.atPath s.path).map toDoc := lookup_toDoc _ _

theorem means_applyWrite (hr : resource.isObject = true) (hu : resource.Unique)
    (ht : target.In resource) (ho : op.isObject = true)
    (hv : ∀ v, op.member? "value" = some v → v.Unique) (mustExist : Bool) :
    Means (applyWrite resource op target mustExist)
      ((op.member? "value").bind fun v =>
        if mustExist then (resource.toDoc.lookup target.path).bind fun _ =>
          resource.toDoc.alter (some v.toDoc) target.path
        else resource.toDoc.alter (some v.toDoc) target.path) := by
  unfold applyWrite
  rw [Json.getObjectItem_of_lookable (Json.lookable_of_isObject ho), pure_bind]
  cases hvalue : op.member? "value" with
  | none => exact means_none (yields_pure none)
  | some v =>
    have hstore := means_store hr hu ht (hv v hvalue)
    rw [Option.bind_some]
    dsimp only
    unfold targetThere
    rw [lookupSlot_eq ht, lookup_path]
    cases mustExist with
    | false =>
      simp only [Bool.false_eq_true, if_false, pure_bind, if_true]
      exact Means.bind (yields_allocated v) hstore
    | true =>
      simp only [if_true, pure_bind]
      cases resource.atPath target.path with
      | none => exact means_none (yields_pure none)
      | some old => exact Means.bind (yields_allocated v) hstore

theorem means_applyRemove (hr : resource.isObject = true) (hu : resource.Unique)
    (ht : target.In resource) :
    Means (applyRemove resource target)
      ((resource.toDoc.lookup target.path).bind fun _ =>
        resource.toDoc.alter none target.path) := by
  unfold applyRemove
  rw [lookupSlot_eq ht, pure_bind, lookup_path, alter_deleteSlot hu ht]
  cases resource.atPath target.path with
  | none => exact means_none (yields_pure none)
  | some old =>
    exact means_some (yields_pure _) (isObject_delete hr target) (unique_deleteSlot hu target)

theorem means_applyTest (hr : resource.isObject = true) (hu : resource.Unique)
    (ht : target.In resource) (ho : op.isObject = true)
    (hv : ∀ v, op.member? "value" = some v → v.Unique) :
    Means (applyTest resource op target)
      ((op.member? "value").bind fun v => rfcTest resource.toDoc target.path v.toDoc) := by
  unfold applyTest rfcTest
  rw [Json.getObjectItem_of_lookable (Json.lookable_of_isObject ho), pure_bind, lookupSlot_eq ht,
    pure_bind, lookup_path]
  cases hvalue : op.member? "value" with
  | none => exact means_none (yields_pure none)
  | some v =>
    cases hfound : resource.atPath target.path with
    | none => exact means_none (yields_pure none)
    | some found =>
      have hiff := compare_iff_equal (hu.atPath hfound) (hv v hvalue)
      rw [Option.map_some, Option.bind_some, Option.bind_some]
      cases hcmp : found.compare v with
      | true =>
        rw [if_pos (hiff.1 hcmp)]
        simp only [hcmp, if_true]
        exact means_some (yields_pure _) hr hu
      | false =>
        have hne : ¬Equal found.toDoc v.toDoc := by
          intro h
          rw [hiff.2 h] at hcmp
          cases hcmp
        rw [if_neg hne]
        simp only [hcmp, Bool.false_eq_true, if_false]
        exact means_none (yields_pure none)

theorem means_copyFrom (hr : resource.isObject = true) (hu : resource.Unique) {source : Slot}
    (hs : source.In resource) (ht : target.In resource) (isMove : Bool)
    (hmove : isMove = true → ¬source.path <+: target.container) :
    Means (copyFrom resource source target isMove)
      ((resource.toDoc.lookup source.path).bind fun v =>
        if isMove then (resource.toDoc.alter none source.path).bind fun rest =>
          rest.alter (some v) target.path
        else resource.toDoc.alter (some v) target.path) := by
  unfold copyFrom
  rw [lookupSlot_eq hs, pure_bind, lookup_path]
  cases hsrc : resource.atPath source.path with
  | none => exact means_none (yields_pure none)
  | some v =>
    have hv := hu.atPath hsrc
    refine Means.bind (yields_allocated v) ?_
    rw [Option.map_some, Option.bind_some]
    dsimp only
    unfold moveOrCopy
    cases isMove with
    | false =>
      simp only [Bool.false_eq_true, if_false]
      exact means_store hr hu ht hv
    | true =>
      have hfree : source.path.isPrefixOf target.container = false := by
        rw [Bool.eq_false_iff]
        exact fun h => hmove rfl (List.isPrefixOf_iff_prefix.1 h)
      have hthere := (in_deleteSlot hu hs (hmove rfl)).2 ht
      simp only [if_true, hfree, Bool.false_eq_true, if_false]
      rw [alter_deleteSlot hu hs, Option.bind_some]
      exact means_store (isObject_delete hr source) (unique_deleteSlot hu source) hthere hv

theorem lookup_of_not_in {s : Slot} (h : ¬s.In resource) :
    resource.toDoc.lookup s.path = none := by
  rw [in_iff_nodeAt] at h
  cases hfound : resource.toDoc.lookup s.path with
  | none => rfl
  | some v => exact absurd (NestedMap.nodeAt_of_lookup hfound) h

theorem means_applyCopy (hr : resource.isObject = true) (hu : resource.Unique)
    (ht : target.In resource) (ho : op.isObject = true) (isMove : Bool)
    (hmove : isMove = true → ∀ source : Slot, opTokens op "from" = some source.path →
      ¬source.path <+: target.container) :
    Means (applyCopy resource op target isMove)
      ((opTokens op "from").bind fun source => (resource.toDoc.lookup source).bind fun v =>
        if isMove then (resource.toDoc.alter none source).bind fun rest =>
          rest.alter (some v) target.path
        else resource.toDoc.alter (some v) target.path) := by
  unfold applyCopy
  rw [Json.getObjectItem_of_lookable (Json.lookable_of_isObject ho), pure_bind]
  have htokens : opTokens op "from" = ((op.member? "from").bind Json.string?).bind pointerTokens :=
    rfl
  cases hfrom : op.member? "from" with
  | none =>
    rw [htokens, hfrom]
    exact means_none (yields_pure none)
  | some from' =>
    rw [hfrom] at htokens
    cases from' with
    | string pointer =>
      change opTokens op "from" = pointerTokens pointer at htokens
      cases hpointer : pointerTokens pointer with
      | none =>
        rw [htokens, hpointer]
        exact means_none
          (Yields.bind (yields_resolvePointerParent_none hpointer) (yields_pure none))
      | some path =>
        obtain ⟨source, rfl⟩ := slot_of_tokens hpointer
        obtain ⟨hin, hout⟩ := yields_resolvePointerParent hr hpointer
        rw [htokens, hpointer, Option.bind_some]
        by_cases hs : source.In resource
        · refine Means.bind (hin hs) (means_copyFrom hr hu hs ht isMove fun h => ?_)
          exact hmove h source (htokens.trans hpointer)
        · rw [lookup_of_not_in hs]
          exact means_none (Yields.bind (hout hs) (yields_pure none))
    | _ =>
      rw [htokens]
      exact means_none (yields_pure none)

/-- An operation as a patch may hold it: its value names no member twice, and a move does not
go below its own source. -/
structure Regular (op : Json) : Prop where
  object : op.isObject = true
  value : ∀ v, op.member? "value" = some v → v.Unique
  move : op.member? "op" = some (.string "move") → ∀ source path,
    opTokens op "from" = some source → opTokens op "path" = some path → source <+: path →
    source = path

theorem Regular.not_below (ho : Regular op) (hop : op.member? "op" = some (.string "move"))
    (hpath : opTokens op "path" = some target.path) {source : List String}
    (hsource : opTokens op "from" = some source) : ¬source <+: target.container := by
  intro hbelow
  have hwhole := ho.move hop source target.path hsource hpath
    (hbelow.trans (List.prefix_append _ _))
  have hlength := hbelow.length_le
  rw [hwhole, Slot.path, List.length_append, List.length_singleton] at hlength
  omega

theorem means_applyAt (hr : resource.isObject = true) (hu : resource.Unique)
    (ht : target.In resource) (ho : Regular op) {name : String}
    (hop : op.member? "op" = some (.string name)) (hpath : opTokens op "path" = some target.path) :
    Means (applyAt resource op name target) (rfcEdit resource.toDoc op name target.path) := by
  unfold applyAt rfcEdit
  by_cases hadd : name = "add"
  · subst hadd
    exact means_applyWrite hr hu ht ho.object ho.value false
  by_cases hreplace : name = "replace"
  · subst hreplace
    exact means_applyWrite hr hu ht ho.object ho.value true
  by_cases hremove : name = "remove"
  · subst hremove
    exact means_applyRemove hr hu ht
  by_cases hcopy : name = "copy"
  · subst hcopy
    exact means_applyCopy hr hu ht ho.object false fun h => by cases h
  by_cases hmove : name = "move"
  · subst hmove
    exact means_applyCopy hr hu ht ho.object true fun _ source hsource =>
      ho.not_below hop hpath hsource
  by_cases htest : name = "test"
  · subst htest
    exact means_applyTest hr hu ht ho.object ho.value
  · simp only [hadd, hreplace, hremove, hcopy, hmove, htest, or_self, if_false]
    exact means_none (yields_pure none)

/-- Nothing is done at a path whose container is not there. -/
theorem rfcEdit_of_not_in (h : ¬target.In resource) {name : String}
    (hmove : name = "move" → ∀ source, opTokens op "from" = some source →
      ¬source <+: target.container) :
    rfcEdit resource.toDoc op name target.path = none := by
  have hwrite := alter_of_not_in h
  cases hedit : rfcEdit resource.toDoc op name target.path with
  | none => rfl
  | some d =>
    obtain ⟨-, v, -, ha⟩ | ⟨-, ha⟩ | ⟨-, source, v, -, -, ha⟩ |
      ⟨hname, source, v, rest, hsource, -, hrest, ha⟩ | ⟨-, hfound, -⟩ := rfcEdit_cases hedit
    · rw [hwrite] at ha
      cases ha
    · rw [hwrite] at ha
      cases ha
    · rw [hwrite] at ha
      cases ha
    · have hthere : NestedMap.NodeAt target.container rest :=
        NestedMap.alter_isSome_iff.1 (Option.isSome_of_eq_some ha)
      rw [NestedMap.nodeAt_alter hrest (hmove hname source hsource), ← in_iff_nodeAt] at hthere
      exact absurd hthere h
    · rw [lookup_of_not_in h] at hfound
      cases hfound

/-- One operation of the code has the effect that it has on the map. -/
theorem means_applyOneOp (hr : resource.isObject = true) (hu : resource.Unique)
    (ho : Regular op) : Means (applyOneOp resource op) (rfcApply resource.toDoc op) := by
  have hlook := Json.lookable_of_isObject ho.object
  unfold rfcApply
  cases hop : (op.member? "op").bind Json.string? with
  | none =>
    rw [applyOneOp_eq_none resource hlook (Or.inl hop)]
    exact means_none (yields_pure none)
  | some name =>
    cases hpath : (op.member? "path").bind Json.string? with
    | none =>
      rw [applyOneOp_eq_none resource hlook (Or.inr hpath)]
      unfold opTokens
      rw [hpath]
      exact means_none (yields_pure none)
    | some pointer =>
      have hops := string_of_bind hop
      have htokens : opTokens op "path" = pointerTokens pointer := by
        unfold opTokens
        rw [hpath]
        rfl
      rw [applyOneOp_eq resource hlook hops (string_of_bind hpath), htokens, Option.bind_some]
      cases hpointer : pointerTokens pointer with
      | none =>
        exact means_none
          (Yields.bind (yields_resolvePointerParent_none hpointer) (yields_pure none))
      | some path =>
        obtain ⟨target, rfl⟩ := slot_of_tokens hpointer
        rw [hpointer] at htokens
        obtain ⟨hin, hout⟩ := yields_resolvePointerParent hr hpointer
        by_cases ht : target.In resource
        · exact Means.bind (hin ht) (means_applyAt hr hu ht ho hops htokens)
        · have hedit := rfcEdit_of_not_in ht fun hmove source hsource =>
            ho.not_below (hmove ▸ hops) htokens hsource
          rw [Option.bind_some, hedit]
          exact means_none (Yields.bind (hout ht) (yields_pure none))

end operations

theorem means_applyAllOps {ops : List Json} (hops : ∀ op ∈ ops, Regular op) {resource : Json}
    (hr : resource.isObject = true) (hu : resource.Unique) :
    Means (applyAllOps resource ops) (ops.foldlM rfcApply resource.toDoc) := by
  induction ops generalizing resource with
  | nil => exact means_some (yields_pure _) hr hu
  | cons op ops ih =>
    obtain ⟨o, hy, ho, htree⟩ := means_applyOneOp hr hu (hops op List.mem_cons_self)
    rw [List.foldlM_cons, ← ho]
    cases o with
    | none => exact means_none (Yields.bind hy (yields_pure none))
    | some tree =>
      obtain ⟨hobject, hunique⟩ := htree tree rfl
      exact Means.bind hy (ih (fun op hop => hops op (List.mem_cons_of_mem _ hop)) hobject hunique)

/-- With every allocation granted a patch succeeds on the tree just when it does on the map. What
it leaves has no name twice, and every pointer finds in it what it finds in the map. -/
theorem patch_fold_means_rfc {resource : Json} (hr : resource.isObject = true)
    (hu : resource.Unique) {ops : List Json} (hops : ∀ op ∈ ops, Regular op) {e : Env}
    (he : e.AllocOk) :
    ∃ o e', applyAllOps resource ops e = .ok (o, e') ∧
      (o.isSome = true ↔ (ops.foldlM rfcApply resource.toDoc).isSome = true) ∧
      ∀ tree, o = some tree → tree.Unique ∧
        ∃ doc, ops.foldlM rfcApply resource.toDoc = some doc ∧
          ∀ path, (tree.atPath path).map toDoc = doc.lookup path := by
  obtain ⟨o, hy, ho, htree⟩ := means_applyAllOps hops hr hu
  obtain ⟨e', hrun, -⟩ := hy e he
  refine ⟨o, e', hrun, ?_, fun tree ht => ⟨(htree tree ht).2, tree.toDoc, ?_, fun path => ?_⟩⟩
  · rw [← ho, Option.isSome_map]
  · rw [← ho, ht]
    rfl
  · exact (lookup_toDoc path tree).symm

def sampleEdit (name path : String) (rest : List (String × Json)) : Json :=
  .object (("op", .string name) :: ("path", .string path) :: rest)

def sampleTree : Json := .object [("filter", .object [("a", .string "1")])]

/-- The move renames a member, and the copy takes the object that it was renamed in. -/
def movingEdits : List Json :=
  [sampleEdit "move" "/filter/b" [("from", .string "/filter/a")],
    sampleEdit "copy" "/filter/c" [("from", .string "/filter")]]

theorem regular_movingEdits : ∀ op ∈ movingEdits, Regular op := by
  intro op hop
  rcases List.mem_cons.1 hop with rfl | hop
  · refine ⟨rfl, fun v h => (by cases h), fun _ source path hsource hpath hbelow => ?_⟩
    cases hsource
    cases hpath
    exact absurd hbelow (by decide)
  · rw [List.mem_singleton.1 hop]
    exact ⟨rfl, fun v h => (by cases h), fun h => absurd h (by decide)⟩

theorem patch_fold_means_rfc_moving : ∃ tree e',
    applyAllOps sampleTree movingEdits Env.quiet = .ok (some tree, e') ∧ tree.Unique ∧
      (tree.atPath ["filter", "b"]).map toDoc = some (.leaf (.string "1")) ∧
      (tree.atPath ["filter", "c", "b"]).map toDoc = some (.leaf (.string "1")) ∧
      (tree.atPath ["filter", "a"]).map toDoc = none := by
  obtain ⟨o, e', hrun, hsome, htree⟩ := @patch_fold_means_rfc sampleTree rfl
    (by simp [sampleTree, Json.Unique, UniqueMembers]) movingEdits regular_movingEdits
    Env.quiet Env.allocOk_quiet
  obtain ⟨tree, ht⟩ := Option.isSome_iff_exists.1 (hsome.2 rfl)
  rw [ht] at hrun
  obtain ⟨hunique, doc, hdoc, hlookup⟩ := htree tree ht
  cases hdoc
  exact ⟨tree, e', hrun, hunique, hlookup _, hlookup _, hlookup _⟩

def twiceNamed : Json := .object [("x", .string "1"), ("x", .string "2")]

/-- The value of an `add` goes in as it is, and a `remove` takes the first of two members. -/
def twiceEdits : List Json :=
  [sampleEdit "add" "/a" [("value", twiceNamed)], sampleEdit "remove" "/a/x" []]

/-- The third allocation is that of the new member's name. -/
def unnamedEnv : Env := { Env.quiet with alloc := fun n => n != 2 }

theorem patch_keeps_second_of_two :
    (Json.object []).Unique ∧ (∀ op ∈ twiceEdits, op.isObject = true) ∧ Env.quiet.AllocOk ∧
      Prog.result? (applyAllOps (.object []) twiceEdits) Env.quiet =
        some (some (.object [("a", .object [("x", .string "2")])])) ∧
      (∃ doc, twiceEdits.foldlM rfcApply (toDoc (.object [])) = some doc ∧
        doc.lookup ["a", "x"] = none) ∧
      Prog.result? (applyAllOps (.object []) (twiceEdits.take 1)) Env.quiet =
        some (some (.object [("a", twiceNamed)])) ∧
      ¬Unique (.object [("a", twiceNamed)]) ∧
      Prog.result? (applyAllOps (.object []) (twiceEdits.take 1)) unnamedEnv =
        some (some (.object [])) ∧
      ∃ doc, (twiceEdits.take 1).foldlM rfcApply (toDoc (.object [])) = some doc ∧
        (doc.lookup ["a"]).isSome = true := by
  refine ⟨?_, by decide, Env.allocOk_quiet, by decide, ⟨_, rfl, rfl⟩, by decide,
    ?_, by decide, ⟨_, rfl, rfl⟩⟩
  · simp [unique_object]
  · simp [unique_object, twiceNamed]

end Nssf.Subscription
