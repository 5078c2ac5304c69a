import Nssf.Base.NodeTree
import Nssf.Subscription.Patch

/-! One operation of a patch on nodes that keep their identity. A container is held by its
identity from the moment its pointer is resolved, and each later use of it looks for that
identity in the tree as it then is: a node that is no longer there was freed. -/

namespace Nssf.Subscription

open Base Run

/-- What a node is, apart from its children. -/
inductive NodeKind where
  | null
  | bool (b : Bool)
  | number (d : Binary64)
  | string (s : String)
  | array
  | object
  deriving DecidableEq

/-- A tree node; the elements of an array have no name. -/
abbrev JsonNode := Node NodeKind (Option String)

namespace JsonNode

def isObject (n : JsonNode) : Bool := n.label == .object

def string? (n : JsonNode) : Option String :=
  match n.label with
  | .string s => some s
  | _ => none

mutual

/-- The value of a node, without the identities. -/
def value : JsonNode → Json
  | .mk _ .null _ => .null
  | .mk _ (.bool b) _ => .bool b
  | .mk _ (.number d) _ => .number d
  | .mk _ (.string s) _ => .string s
  | .mk _ .array cs => .array (elements cs)
  | .mk _ .object cs => .object (members cs)

def elements : List (Option String × JsonNode) → List Json
  | [] => []
  | (_, n) :: cs => value n :: elements cs

def members : List (Option String × JsonNode) → List (String × Json)
  | [] => []
  | (k, n) :: cs => (k.getD "", value n) :: members cs

end

mutual

/-- The same tree with new identities, counted from `next` on. -/
def fresh (next : ℕ) : JsonNode → JsonNode × ℕ
  | .mk _ l cs =>
    let (cs, after) := freshIn (next + 1) cs
    (.mk next l cs, after)

def freshIn (next : ℕ) :
    List (Option String × JsonNode) → List (Option String × JsonNode) × ℕ
  | [] => ([], next)
  | (k, n) :: cs =>
    let (n, next) := fresh next n
    let (cs, after) := freshIn next cs
    ((k, n) :: cs, after)

end

/-- The elements of an array have no name to compare. -/
def isNameless (n : JsonNode) : Bool := n.label == .array && !n.children.isEmpty

/-- `cJSON_GetObjectItemCaseSensitive`. -/
def getObjectItem (n : JsonNode) (name : String) : Run (Option JsonNode) :=
  if n.isNameless then throw .nullName else pure (Node.childAt? (some name) n.children)

/-- A use of the node with the identity `p`. -/
def deref (root : JsonNode) (p : ℕ) : Run JsonNode :=
  match Node.find? p root with
  | some n => pure n
  | none => throw .useAfterFree

def lookup (root : JsonNode) (p : ℕ) (name : String) : Run (Option JsonNode) := do
  let n ← deref root p
  n.getObjectItem name

/-- `cJSON_DeleteItemFromObjectCaseSensitive`. -/
def deleteItem (root : JsonNode) (p : ℕ) (name : String) : Run JsonNode := do
  let _ ← lookup root p name
  return root.edit p (Node.removeFirst (some name))

/-- `cJSON_AddItemToObject`: the item is lost when its name cannot be copied. -/
def addItem (root : JsonNode) (p : ℕ) (name : String) (item : JsonNode) : Run JsonNode := do
  let _ ← deref root p
  if ← alloc then return root.edit p fun cs => cs ++ [(some name, item)] else return root

/-- `cJSON_Duplicate`. -/
def duplicate (n : JsonNode) (next : ℕ) : Run (Option (JsonNode × ℕ)) := allocated (n.fresh next)

def walkPointer (root : JsonNode) (p : ℕ) : List (List Char) → Run (Option (ℕ × String))
  | [] => pure none
  | seg :: segs => do
    match ← allocated (String.ofList (unescape seg)) with
    | none => return none
    | some key =>
      if segs.isEmpty then return some (p, key)
      else
        match ← lookup root p key with
        | some n => if n.isObject then walkPointer root n.id segs else return none
        | none => return none

/-- The identity of the container, and the name in it. -/
def resolvePointerParent (root : JsonNode) (pointer : String) : Run (Option (ℕ × String)) :=
  match pointer.toList with
  | '/' :: tail => walkPointer root root.id (tail.splitOn '/')
  | _ => pure none

/-- The tree after an operation, and the next identity that is free. -/
abbrev Edited := Option (JsonNode × ℕ)

/-- The end of every writing operation. -/
def replaceItem (root : JsonNode) (parent : ℕ) (key : String) (copy : JsonNode × ℕ) :
    Run Edited := do
  let root ← deleteItem root parent key
  let root ← addItem root parent key copy.1
  return some (root, copy.2)

def targetThere (root : JsonNode) (parent : ℕ) (key : String) (needed : Bool) : Run Bool :=
  if needed then do
    let old ← lookup root parent key
    return old.isSome
  else pure true

def applyWrite (root : JsonNode) (next : ℕ) (opItem : JsonNode) (parent : ℕ) (key : String)
    (mustExist : Bool) : Run Edited := do
  match ← opItem.getObjectItem "value" with
  | none => return none
  | some v =>
    if ← targetThere root parent key mustExist then
      match ← v.duplicate next with
      | none => return none
      | some copy => replaceItem root parent key copy
    else return none

def applyRemove (root : JsonNode) (next : ℕ) (parent : ℕ) (key : String) : Run Edited := do
  match ← lookup root parent key with
  | none => return none
  | some _ =>
    let root ← deleteItem root parent key
    return some (root, next)

def copyFrom (root : JsonNode) (next parent : ℕ) (key : String) (fromParent : ℕ)
    (fromKey : String) (isMove : Bool) : Run Edited := do
  match ← lookup root fromParent fromKey with
  | none => return none
  | some src =>
    match ← src.duplicate next with
    | none => return none
    | some copy =>
      let root ← if isMove then deleteItem root fromParent fromKey else pure root
      replaceItem root parent key copy

def applyCopy (root : JsonNode) (next : ℕ) (opItem : JsonNode) (parent : ℕ) (key : String)
    (isMove : Bool) : Run Edited := do
  let pointer ← opItem.getObjectItem "from"
  match pointer.bind string? with
  | none => return none
  | some pointer =>
    match ← resolvePointerParent root pointer with
    | none => return none
    | some (fromParent, fromKey) => copyFrom root next parent key fromParent fromKey isMove

def applyTest (root : JsonNode) (next : ℕ) (opItem : JsonNode) (parent : ℕ) (key : String) :
    Run Edited := do
  let v ← opItem.getObjectItem "value"
  let target ← lookup root parent key
  match v, target with
  | some v, some target =>
    return if target.value.compare v.value then some (root, next) else none
  | _, _ => return none

def applyAt (root : JsonNode) (next : ℕ) (opItem : JsonNode) (op : String) (parent : ℕ)
    (key : String) : Run Edited :=
  if op = "add" ∨ op = "replace" then applyWrite root next opItem parent key (op == "replace")
  else if op = "remove" then applyRemove root next parent key
  else if op = "copy" ∨ op = "move" then applyCopy root next opItem parent key (op == "move")
  else if op = "test" then applyTest root next opItem parent key
  else pure none

def applyOneOp (root : JsonNode) (next : ℕ) (opItem : JsonNode) : Run Edited := do
  let op ← opItem.getObjectItem "op"
  let path ← opItem.getObjectItem "path"
  match op.bind string?, path.bind string? with
  | some op, some path =>
    match ← resolvePointerParent root path with
    | none => return none
    | some (parent, key) => applyAt root next opItem op parent key
  | _, _ => return none

section pointers

/-- The member that a lookup finds, if it gets that far. -/
def member? (n : JsonNode) (name : String) : Option JsonNode :=
  if n.isNameless then none else Node.childAt? (some name) n.children

def text? (n : JsonNode) (name : String) : Option String := (n.member? name).bind string?

/-- The names in a pointer. -/
def tokens (pointer : String) : List String :=
  match pointer.toList with
  | '/' :: tail => (tail.splitOn '/').map fun seg => String.ofList (unescape seg)
  | _ => []

/-- The container that is reached over objects. -/
def walk? : JsonNode → List String → Option JsonNode
  | n, [] => some n
  | n, k :: ks =>
    match n.member? k with
    | none => none
    | some m => if m.isObject then walk? m ks else none

/-- The container of the path is found, and the source of the move is that container or holds
it. -/
def MovesBelowItself (root opItem : JsonNode) : Prop :=
  ∃ path source, opItem.text? "op" = some "move" ∧ opItem.text? "path" = some path ∧
    opItem.text? "from" = some source ∧ tokens source ≠ [] ∧
    tokens source <+: (tokens path).dropLast ∧ (walk? root (tokens path).dropLast).isSome = true

theorem member_eq {n m : JsonNode} {name : String} (h : n.member? name = some m) :
    Node.childAt? (some name) n.children = some m ∧ n.getObjectItem name = pure (some m) := by
  simp only [member?] at h
  split_ifs at h with hnameless
  refine ⟨h, ?_⟩
  simp only [getObjectItem, if_neg hnameless, h]

theorem walk_append {ks ls : List String} {n m : JsonNode} (h : walk? n (ks ++ ls) = some m) :
    ∃ c, walk? n ks = some c ∧ walk? c ls = some m := by
  induction ks generalizing n with
  | nil => exact ⟨n, rfl, h⟩
  | cons k ks ih =>
    simp only [List.cons_append, walk?] at h ⊢
    cases hm : n.member? k with
    | none => simp [hm] at h
    | some x =>
      simp only [hm] at h ⊢
      split_ifs at h ⊢ with hobj
      exact ih h

theorem at_of_walk {ks : List String} {n m : JsonNode} (h : walk? n ks = some m) :
    Node.at? (ks.map some) n = some m := by
  induction ks generalizing n with
  | nil => exact h
  | cons k ks ih =>
    simp only [walk?] at h
    cases hm : n.member? k with
    | none => simp [hm] at h
    | some x =>
      simp only [hm] at h
      split_ifs at h with hobj
      rw [List.map_cons, Node.at?, (member_eq hm).1, Option.bind_some]
      exact ih h

end pointers

section freed

variable {root : JsonNode}

/-- Every fault but the use of a node that was freed. -/
def NotFreed (x : Fault) : Prop := x ≠ .useAfterFree

theorem ends_getObjectItem (n : JsonNode) (name : String) :
    Ends NotFreed (fun o => o = n.member? name ∧
      ∀ m, o = some m → Node.childAt? (some name) n.children = some m)
      (n.getObjectItem name) := by
  simp only [getObjectItem]
  split_ifs with hnameless
  · exact (gives_throw (F := NotFreed) (P := fun _ => False) (by simp [NotFreed])).ends.mono
      fun _ h => h.elim
  · refine ends_pure ⟨?_, fun m hm => hm⟩
    simp only [member?, if_neg hnameless]

theorem ends_deref {p : ℕ} (hp : p ∈ root.ids) :
    Ends NotFreed (fun n => Node.find? p root = some n) (deref root p) := by
  obtain ⟨n, hn⟩ := Option.isSome_iff_exists.1 (Node.find_isSome root hp)
  simp only [deref, hn]
  exact ends_pure rfl

theorem ends_lookup {p : ℕ} (hp : p ∈ root.ids) (name : String) :
    Ends NotFreed (fun o => ∃ n : JsonNode, Node.find? p root = some n ∧ o = n.member? name)
      (lookup root p name) :=
  Ends.bind (ends_deref hp) fun n hn => (ends_getObjectItem n name).mono fun _ ho => ⟨n, hn, ho.1⟩

theorem ends_deleteItem {p : ℕ} (hp : p ∈ root.ids) (name : String) :
    Ends NotFreed (fun r => r = root.edit p (Node.removeFirst (some name)))
      (deleteItem root p name) :=
  Ends.bind (ends_lookup hp name) fun _ _ => ends_pure rfl

theorem ends_addItem {p : ℕ} (hp : p ∈ root.ids) (name : String) (item : JsonNode) :
    Ends NotFreed (fun _ => True) (addItem root p name item) := by
  refine Ends.bind (ends_deref hp) fun _ _ => ?_
  refine Ends.bind gives_alloc.ends fun b _ => ?_
  cases b with
  | false => exact ends_pure trivial
  | true => exact ends_pure trivial

theorem ends_replaceItem {parent : ℕ} (hp : parent ∈ root.ids) (key : String)
    (copy : JsonNode × ℕ) : Ends NotFreed (fun _ => True) (replaceItem root parent key copy) := by
  refine Ends.bind (ends_deleteItem hp key) fun r hr => ?_
  have hkept : parent ∈ r.ids := by
    rw [hr]
    exact Node.mem_ids_edit_self _ root hp
  exact Ends.bind (ends_addItem hkept key copy.1) fun _ _ => ends_pure trivial

theorem ends_duplicate (n : JsonNode) (next : ℕ) :
    Ends NotFreed (fun _ => True) (n.duplicate next) :=
  ((gives_allocated _).mono (fun _ _ => trivial) fun _ h => h).ends

/-- A pointer that resolves names a container of the tree. -/
theorem ends_walkPointer (hn : root.ids.Nodup) {cur : JsonNode} {walked : List String}
    (hcur : Node.at? (walked.map some) root = some cur) (segs : List (List Char)) :
    Ends NotFreed (fun r => ∀ p k, r = some (p, k) → ∃ ks c,
        segs.map (fun seg => String.ofList (unescape seg)) = ks ++ [k] ∧
        walk? cur ks = some c ∧ Node.at? ((walked ++ ks).map some) root = some c ∧ c.id = p)
      (walkPointer root cur.id segs) := by
  induction segs generalizing cur walked with
  | nil => exact ends_pure fun p k h => by cases h
  | cons seg segs ih =>
    refine Ends.bind (gives_allocated _).ends fun o ho => ?_
    rcases ho with rfl | rfl
    · exact ends_pure fun p k h => by cases h
    · cases segs with
      | nil =>
        refine ends_pure fun p k h => ?_
        cases h
        refine ⟨[], cur, rfl, rfl, ?_, rfl⟩
        rw [List.append_nil]
        exact hcur
      | cons seg' segs' =>
        have hfind := Node.find_of_at hn hcur
        have hmem : cur.id ∈ root.ids := (Node.mem_ids_of_find root hfind).2
        refine Ends.bind (ends_lookup hmem _) fun o ho => ?_
        obtain ⟨n, hfound, ho⟩ := ho
        have hcur' : n = cur := Option.some.inj (hfound.symm.trans hfind)
        rw [hcur'] at ho
        cases o with
        | none => exact ends_pure fun p k h => by cases h
        | some m =>
          have hm := ho.symm
          cases hobj : m.isObject with
          | false =>
            simp only [hobj]
            exact ends_pure fun p k h => by cases h
          | true =>
            simp only [hobj, if_true]
            have hat : Node.at? ((walked ++ [String.ofList (unescape seg)]).map some) root =
                some m := by
              rw [List.map_append, Node.at_append, hcur, Option.bind_some]
              simp only [List.map_cons, List.map_nil, Node.at?, (member_eq hm).1]
              rfl
            refine (ih hat).mono fun r hr p k hrk => ?_
            obtain ⟨ks, c, htokens, hwalk, hc, hid⟩ := hr p k hrk
            refine ⟨String.ofList (unescape seg) :: ks, c, ?_, ?_, ?_, hid⟩
            · rw [List.map_cons, htokens]
              rfl
            · simp only [walk?, hm, hobj, if_true, hwalk]
            · rw [← hc, List.append_assoc]
              rfl

/-- The pointer to a container, as the tree above it sees it. -/
def Held (root : JsonNode) (pointer : String) (p : ℕ) (key : String) : Prop :=
  ∃ c, (tokens pointer).getLast? = some key ∧ walk? root (tokens pointer).dropLast = some c ∧
    Node.at? ((tokens pointer).dropLast.map some) root = some c ∧ c.id = p

theorem ends_resolvePointerParent (hn : root.ids.Nodup) (pointer : String) :
    Ends NotFreed (fun r => ∀ p k, r = some (p, k) → Held root pointer p k)
      (resolvePointerParent root pointer) := by
  have hroot : Node.at? (([] : List String).map some) root = some root := rfl
  simp only [resolvePointerParent, Held, tokens]
  split
  · refine (ends_walkPointer hn hroot _).mono fun r hr p k hrk => ?_
    obtain ⟨ks, c, htokens, hwalk, hat, hid⟩ := hr p k hrk
    rw [htokens, List.getLast?_concat, List.dropLast_concat]
    exact ⟨c, rfl, hwalk, hat, hid⟩
  · exact ends_pure fun p k h => by cases h

theorem Held.mem_ids (hn : root.ids.Nodup) {pointer : String} {p : ℕ} {key : String}
    (h : Held root pointer p key) : p ∈ root.ids := by
  obtain ⟨c, -, -, hat, rfl⟩ := h
  exact (Node.mem_ids_of_find root (Node.find_of_at hn hat)).2

theorem tokens_eq {pointer key : String} (h : (tokens pointer).getLast? = some key) :
    tokens pointer = (tokens pointer).dropLast ++ [key] :=
  (List.dropLast_append_getLast? key h).symm

/-- The source of a move and the container of its path, once both are resolved. -/
theorem source_holds_iff (hn : root.ids.Nodup) {path source key fromKey : String}
    {parent fromParent : ℕ} {src : JsonNode} (hpath : Held root path parent key)
    (hfrom : Held root source fromParent fromKey)
    (hsrc : ∃ n : JsonNode, Node.find? fromParent root = some n ∧ n.member? fromKey = some src) :
    parent ∈ src.ids ↔ tokens source <+: (tokens path).dropLast := by
  obtain ⟨c, -, -, hc, rfl⟩ := hpath
  obtain ⟨d, hlast, -, hd, rfl⟩ := hfrom
  obtain ⟨n, hfind, hmember⟩ := hsrc
  have hn' : n = d := Option.some.inj (hfind.symm.trans (Node.find_of_at hn hd))
  rw [hn'] at hmember
  have hat : Node.at? ((tokens source).map some) root = some src := by
    rw [tokens_eq hlast, List.map_append, Node.at_append, hd, Option.bind_some]
    simp only [List.map_cons, List.map_nil, Node.at?, (member_eq hmember).1]
    rfl
  rw [Node.id_mem_ids_iff_prefix hn hat hc]
  exact List.prefix_map_iff_of_injective (Option.some_injective String)

theorem ends_copyFrom (hn : root.ids.Nodup) {path source key fromKey : String}
    {parent fromParent : ℕ} (hpath : Held root path parent key)
    (hfrom : Held root source fromParent fromKey) {isMove : Bool}
    (hsafe : isMove = true → ¬ tokens source <+: (tokens path).dropLast) (next : ℕ) :
    Ends NotFreed (fun _ => True) (copyFrom root next parent key fromParent fromKey isMove) := by
  have hp := hpath.mem_ids hn
  have hf := hfrom.mem_ids hn
  refine Ends.bind (ends_lookup hf fromKey) fun o ho => ?_
  obtain ⟨n, hfind, ho⟩ := ho
  cases o with
  | none => exact ends_pure trivial
  | some src =>
    refine Ends.bind (ends_duplicate src next) fun copy _ => ?_
    cases copy with
    | none => exact ends_pure trivial
    | some copy =>
      cases isMove with
      | false => exact ends_replaceItem hp key copy
      | true =>
        refine Ends.bind (ends_deleteItem hf fromKey) fun r hr => ?_
        refine ends_replaceItem ?_ key copy
        rw [hr, Node.mem_ids_edit_removeFirst hn hfind (member_eq ho.symm).1]
        exact ⟨hp, fun hin => hsafe rfl
          ((source_holds_iff hn hpath hfrom ⟨n, hfind, ho.symm⟩).1 hin)⟩

theorem ends_targetThere {parent : ℕ} (hp : parent ∈ root.ids) (key : String) (needed : Bool) :
    Ends NotFreed (fun _ => True) (targetThere root parent key needed) := by
  cases needed with
  | false => exact ends_pure trivial
  | true => exact Ends.bind (ends_lookup hp key) fun _ _ => ends_pure trivial

theorem ends_applyWrite {parent : ℕ} (hp : parent ∈ root.ids) (next : ℕ) (opItem : JsonNode)
    (key : String) (mustExist : Bool) :
    Ends NotFreed (fun _ => True) (applyWrite root next opItem parent key mustExist) := by
  refine Ends.bind (ends_getObjectItem opItem "value") fun v _ => ?_
  cases v with
  | none => exact ends_pure trivial
  | some v =>
    refine Ends.bind (ends_targetThere hp key mustExist) fun there _ => ?_
    cases there with
    | false => exact ends_pure trivial
    | true =>
      refine Ends.bind (ends_duplicate v next) fun copy _ => ?_
      cases copy with
      | none => exact ends_pure trivial
      | some copy => exact ends_replaceItem hp key copy

theorem ends_applyRemove {parent : ℕ} (hp : parent ∈ root.ids) (next : ℕ) (key : String) :
    Ends NotFreed (fun _ => True) (applyRemove root next parent key) := by
  refine Ends.bind (ends_lookup hp key) fun o _ => ?_
  cases o with
  | none => exact ends_pure trivial
  | some _ => exact Ends.bind (ends_deleteItem hp key) fun _ _ => ends_pure trivial

theorem ends_applyTest {parent : ℕ} (hp : parent ∈ root.ids) (next : ℕ) (opItem : JsonNode)
    (key : String) : Ends NotFreed (fun _ => True) (applyTest root next opItem parent key) := by
  refine Ends.bind (ends_getObjectItem opItem "value") fun v _ => ?_
  refine Ends.bind (ends_lookup hp key) fun target _ => ?_
  cases v with
  | none => exact ends_pure trivial
  | some v =>
    cases target with
    | none => exact ends_pure trivial
    | some target => exact ends_pure trivial

theorem ends_applyCopy (hn : root.ids.Nodup) {path key : String} {parent : ℕ}
    (hpath : Held root path parent key) {opItem : JsonNode} {isMove : Bool}
    (hsafe : isMove = true → ∀ source, opItem.text? "from" = some source →
      tokens source ≠ [] → ¬ tokens source <+: (tokens path).dropLast) (next : ℕ) :
    Ends NotFreed (fun _ => True) (applyCopy root next opItem parent key isMove) := by
  refine Ends.bind (ends_getObjectItem opItem "from") fun o ho => ?_
  cases hsource : o.bind string? with
  | none => exact ends_pure trivial
  | some source =>
    have htext : opItem.text? "from" = some source := by rw [text?, ← ho.1, hsource]
    refine Ends.bind (ends_resolvePointerParent hn source) fun r hr => ?_
    cases r with
    | none => exact ends_pure trivial
    | some found =>
      have hfrom := hr found.1 found.2 rfl
      have hne : tokens source ≠ [] := by
        intro hnil
        obtain ⟨c, hlast, -⟩ := hfrom
        rw [hnil] at hlast
        cases hlast
      exact ends_copyFrom hn hpath hfrom (fun hm => hsafe hm source htext hne) next

theorem ends_applyAt (hn : root.ids.Nodup) {path key op : String} {parent : ℕ}
    (hpath : Held root path parent key) {opItem : JsonNode}
    (hsafe : op = "move" → ∀ source, opItem.text? "from" = some source →
      tokens source ≠ [] → ¬ tokens source <+: (tokens path).dropLast) (next : ℕ) :
    Ends NotFreed (fun _ => True) (applyAt root next opItem op parent key) := by
  have hp := hpath.mem_ids hn
  simp only [applyAt]
  split_ifs
  · exact ends_applyWrite hp next opItem key _
  · exact ends_applyRemove hp next key
  · exact ends_applyCopy hn hpath (fun hm => hsafe (eq_of_beq hm)) next
  · exact ends_applyTest hp next opItem key
  · exact ends_pure trivial

theorem ends_applyOneOp (hn : root.ids.Nodup) {opItem : JsonNode}
    (hsafe : ¬ MovesBelowItself root opItem) (next : ℕ) :
    Ends NotFreed (fun _ => True) (applyOneOp root next opItem) := by
  refine Ends.bind (ends_getObjectItem opItem "op") fun op hop => ?_
  refine Ends.bind (ends_getObjectItem opItem "path") fun path hpath => ?_
  cases hop' : op.bind string? with
  | none => exact ends_pure trivial
  | some o =>
    cases hpath' : path.bind string? with
    | none => exact ends_pure trivial
    | some pointer =>
      have hopText : opItem.text? "op" = some o := by rw [text?, ← hop.1, hop']
      have hpathText : opItem.text? "path" = some pointer := by rw [text?, ← hpath.1, hpath']
      refine Ends.bind (ends_resolvePointerParent hn pointer) fun r hr => ?_
      cases r with
      | none => exact ends_pure trivial
      | some found =>
        have hheld := hr found.1 found.2 rfl
        refine ends_applyAt hn hheld (fun hmove source hsource hne hpre => hsafe ?_) next
        obtain ⟨c, -, hwalk, -⟩ := hheld
        rw [hmove] at hopText
        exact ⟨pointer, source, hopText, hpathText, hsource, hne, hpre, by rw [hwalk]; rfl⟩

end freed

section dangling

variable {root : JsonNode}

/-- With every allocation granted the program ends in the use of a freed node. -/
def Dangles {α : Type} (m : Run α) : Prop := ∀ e : Env, e.AllocOk → m e = .error .useAfterFree

theorem dangles_bind {α β : Type} {m : Run α} {f : α → Run β} {a : α} (hm : Yields m a)
    (hf : Dangles (f a)) : Dangles (m >>= f) := by
  intro e he
  obtain ⟨e', h, hd⟩ := hm e he
  rw [Prog.bind_of_ok h]
  exact hf e' (hd.allocOk he)

theorem Dangles.bind {α β : Type} {m : Run α} (hm : Dangles m) (f : α → Run β) :
    Dangles (m >>= f) := fun e he => Prog.bind_of_error (hm e he)

theorem yields_member {n m : JsonNode} {name : String} (h : n.member? name = some m) :
    Yields (n.getObjectItem name) (some m) := by
  rw [(member_eq h).2]
  exact yields_pure (some m)

theorem yields_lookup {p : ℕ} {n m : JsonNode} {name : String} (hp : Node.find? p root = some n)
    (hm : n.member? name = some m) : Yields (lookup root p name) (some m) := by
  simp only [lookup, deref, hp]
  exact Yields.bind (yields_pure n) (yields_member hm)

theorem yields_walkPointer (hn : root.ids.Nodup) {cur c : JsonNode} {walked ks : List String}
    {key : String} (hcur : Node.at? (walked.map some) root = some cur) (segs : List (List Char))
    (htokens : segs.map (fun seg => String.ofList (unescape seg)) = ks ++ [key])
    (hwalk : walk? cur ks = some c) :
    Yields (walkPointer root cur.id segs) (some (c.id, key)) := by
  induction ks generalizing cur walked segs with
  | nil =>
    cases hwalk
    obtain ⟨seg, rfl⟩ : ∃ seg, segs = [seg] := by
      have hlen : segs.length = 1 := by simpa using congrArg List.length htokens
      exact List.length_eq_one_iff.1 hlen
    have hkey : String.ofList (unescape seg) = key := by simpa using htokens
    refine Yields.bind (yields_allocated _) ?_
    rw [hkey]
    exact yields_pure _
  | cons k ks ih =>
    cases segs with
    | nil => cases htokens
    | cons seg segs =>
      rw [List.map_cons, List.cons_append, List.cons.injEq] at htokens
      obtain ⟨hseg, hrest⟩ := htokens
      have hmore : segs.isEmpty = false := by
        cases segs with
        | nil => exact absurd hrest.symm (List.append_ne_nil_of_right_ne_nil _ (by simp))
        | cons _ _ => rfl
      simp only [walk?] at hwalk
      cases hm : cur.member? k with
      | none => simp [hm] at hwalk
      | some m =>
        simp only [hm] at hwalk
        split_ifs at hwalk with hobj
        have hfind := Node.find_of_at hn hcur
        have hat : Node.at? ((walked ++ [k]).map some) root = some m := by
          rw [List.map_append, Node.at_append, hcur, Option.bind_some]
          simp only [List.map_cons, List.map_nil, Node.at?, (member_eq hm).1]
          rfl
        refine Yields.bind (yields_allocated _) ?_
        simp only [hmore, hseg]
        refine Yields.bind (yields_lookup hfind hm) ?_
        simp only [hobj, if_true]
        exact ih hat segs hrest hwalk

theorem yields_resolvePointerParent (hn : root.ids.Nodup) {pointer key : String}
    {ks : List String} {c : JsonNode} (htokens : tokens pointer = ks ++ [key])
    (hwalk : walk? root ks = some c) :
    Yields (resolvePointerParent root pointer) (some (c.id, key)) := by
  have hroot : Node.at? (([] : List String).map some) root = some root := rfl
  simp only [resolvePointerParent]
  simp only [tokens] at htokens
  split at htokens
  · exact yields_walkPointer hn hroot _ htokens hwalk
  · exact absurd htokens.symm (List.append_ne_nil_of_right_ne_nil _ (by simp))

theorem dangles_copyFrom (hn : root.ids.Nodup) {path source key fromKey : String}
    {parent fromParent : ℕ} (hpath : Held root path parent key)
    (hfrom : Held root source fromParent fromKey) {n src : JsonNode}
    (hfind : Node.find? fromParent root = some n) (hsrc : n.member? fromKey = some src)
    (hpre : tokens source <+: (tokens path).dropLast) (next : ℕ) :
    Dangles (copyFrom root next parent key fromParent fromKey true) := by
  refine dangles_bind (yields_lookup hfind hsrc) ?_
  refine dangles_bind (yields_allocated _) ?_
  have hdelete : Yields (deleteItem root fromParent fromKey)
      (root.edit fromParent (Node.removeFirst (some fromKey))) :=
    Yields.bind (yields_lookup hfind hsrc) (yields_pure _)
  refine dangles_bind hdelete ?_
  have hgone : Node.find? parent (root.edit fromParent (Node.removeFirst (some fromKey))) =
      none := by
    rw [Node.find_eq_none_iff, Node.mem_ids_edit_removeFirst hn hfind (member_eq hsrc).1]
    exact fun hin => hin.2 ((source_holds_iff hn hpath hfrom ⟨n, hfind, hsrc⟩).2 hpre)
  refine Dangles.bind (Dangles.bind ?_ _) _
  refine Dangles.bind ?_ _
  simp only [deref, hgone]
  exact fun _ _ => rfl

theorem dangles_applyOneOp (hn : root.ids.Nodup) {opItem : JsonNode}
    (hmove : MovesBelowItself root opItem) (next : ℕ) : Dangles (applyOneOp root next opItem) := by
  obtain ⟨path, source, hop, hpath, hsource, hne, hpre, hwalk⟩ := hmove
  obtain ⟨c, hc⟩ := Option.isSome_iff_exists.1 hwalk
  obtain ⟨o, ho, hoText⟩ := Option.bind_eq_some_iff.1 hop
  obtain ⟨p, hp, hpText⟩ := Option.bind_eq_some_iff.1 hpath
  obtain ⟨s, hs, hsText⟩ := Option.bind_eq_some_iff.1 hsource
  have hroot : Node.at? (([] : List String).map some) root = some root := rfl
  have hpathNe : tokens path ≠ [] := by
    intro hnil
    rw [hnil] at hpre
    exact hne (List.prefix_nil.1 hpre)
  have hpathTokens := (List.dropLast_append_getLast hpathNe).symm
  have hsourceTokens := (List.dropLast_append_getLast hne).symm
  obtain ⟨rest, hrest⟩ := hpre
  -- the walk to the container passes the container of the source and the source itself
  have hthrough := hc
  rw [← hrest, hsourceTokens, List.append_assoc] at hthrough
  obtain ⟨d, hd, hbelow⟩ := walk_append hthrough
  obtain ⟨src, hsrc⟩ : ∃ src, d.member? ((tokens source).getLast hne) = some src := by
    simp only [List.cons_append, walk?] at hbelow
    cases hm : d.member? ((tokens source).getLast hne) with
    | none => simp [hm] at hbelow
    | some src => exact ⟨src, rfl⟩
  have hheld : Held root path c.id ((tokens path).getLast hpathNe) :=
    ⟨c, List.getLast?_eq_some_getLast hpathNe, hc, at_of_walk hc, rfl⟩
  have hheldFrom : Held root source d.id ((tokens source).getLast hne) :=
    ⟨d, List.getLast?_eq_some_getLast hne, hd, at_of_walk hd, rfl⟩
  refine dangles_bind (yields_member ho) (dangles_bind (yields_member hp) ?_)
  simp only [Option.bind_some, hoText, hpText]
  refine dangles_bind (yields_resolvePointerParent hn hpathTokens hc) ?_
  refine dangles_bind (yields_member hs) ?_
  simp only [Option.bind_some, hsText]
  refine dangles_bind (yields_resolvePointerParent hn hsourceTokens hd) ?_
  exact dangles_copyFrom hn hheld hheldFrom (Node.find_of_at hn (at_of_walk hd)) hsrc
    ⟨rest, hrest⟩ next

end dangling

/-- The operation uses only nodes of the tree as it then is, unless it moves a node to a place
below itself. -/
theorem applyOneOp_live_iff {root : JsonNode} (hn : root.ids.Nodup) (next : ℕ)
    (opItem : JsonNode) :
    (∀ e, applyOneOp root next opItem e ≠ .error .useAfterFree) ↔
      ¬ MovesBelowItself root opItem := by
  constructor
  · intro h hmove
    exact h Env.quiet (dangles_applyOneOp hn hmove next Env.quiet Env.allocOk_quiet)
  · intro h e herr
    exact (ends_applyOneOp hn h next e).2 _ herr rfl

def text (id : ℕ) (s : String) : JsonNode := .mk id (.string s) []

/-- A resource whose filter holds one member. -/
def sampleResource : JsonNode :=
  .mk 0 .object [(some "callbackUri", text 1 "https://amf"),
    (some "filter", .mk 2 .object [(some "tai", .mk 3 .object [])])]

def samplePatchOp (op source path : String) : JsonNode :=
  .mk 10 .object [(some "op", text 11 op), (some "from", text 12 source),
    (some "path", text 13 path)]

theorem applyOneOp_live_rename :
    ¬∃ e, applyOneOp sampleResource 20 (samplePatchOp "move" "/filter/tai" "/filter/area") e =
      .error .useAfterFree := by
  rintro ⟨e, he⟩
  have hn : sampleResource.ids.Nodup := by decide
  refine (applyOneOp_live_iff hn 20 _).2 ?_ e he
  rintro ⟨path, source, -, hpath, hsource, -, hpre, -⟩
  cases hpath
  cases hsource
  have hsourceTokens : tokens "/filter/tai" = ["filter", "tai"] := by decide
  have hpathTokens : tokens "/filter/area" = ["filter", "area"] := by decide +kernel
  rw [hsourceTokens, hpathTokens] at hpre
  exact absurd hpre (by decide)

theorem move_below_itself_dangles :
    sampleResource.ids.Nodup ∧
      ¬∀ e, applyOneOp sampleResource 20 (samplePatchOp "move" "/filter" "/filter/tai") e ≠
        .error .useAfterFree := by
  refine ⟨by decide, fun h => h Env.quiet ?_⟩
  exact Prog.error_of_fault? (by decide +kernel)

end JsonNode

end Nssf.Subscription
