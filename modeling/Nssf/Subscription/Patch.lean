import Nssf.Json.Path
import Nssf.Runtime.Allocating

/-! The patch of a subscription: a working tree is built from the record, the operations run
on it one by one, and the three members of the resource are read back from what is left. -/

namespace Nssf

open Base Run

/-- `char id[37]`: what does not fit is cut off. -/
structure RecordId where
  text : String
  fits : text.length ≤ 36
  deriving DecidableEq, Repr

def RecordId.cut (s : String) : RecordId where
  text := String.ofList (s.toList.take 36)
  fits := by
    rw [String.length_ofList, List.length_take]
    omega

structure SubscriptionRecord where
  id : RecordId
  callbackUri : Option String
  filter : Option Json
  amfId : Option String
  amfSetId : Option String
  expiryAt : Option String
  tombstone : Bool
  deriving DecidableEq

namespace Subscription

def unescape : List Char → List Char
  | [] => []
  | '~' :: '1' :: cs => '/' :: unescape cs
  | '~' :: '0' :: cs => '~' :: unescape cs
  | c :: cs => c :: unescape cs

/-- A member of the tree: its container and its name. -/
structure Slot where
  container : List String
  key : String
  deriving DecidableEq, Repr

def Slot.path (s : Slot) : List String := s.container ++ [s.key]

def walkPointer (walked : List String) (cur : Json) : List (List Char) → Run (Option Slot)
  | [] => pure none
  | seg :: segs => do
    match ← allocated (String.ofList (unescape seg)) with
    | none => return none
    | some key =>
      if segs.isEmpty then return some ⟨walked, key⟩
      else
        match ← Json.getObjectItem (some cur) key with
        | some (.object members) => walkPointer (walked ++ [key]) (.object members) segs
        | _ => return none

def resolvePointerParent (root : Json) (pointer : String) : Run (Option Slot) :=
  match pointer.toList with
  | '/' :: tail => walkPointer [] root (tail.splitOn '/')
  | _ => pure none

def lookupSlot (resource : Json) (s : Slot) : Run (Option Json) :=
  Json.getObjectItem (resource.atPath s.container) s.key

/-- The old member goes even when the name of the new one cannot be allocated; the call is
not checked. -/
def storeAt (resource : Json) (s : Slot) (v : Json) : Run Json := do
  let kept := resource.modifyAt (·.deleteItem s.key) s.container
  if ← alloc then return kept.modifyAt (·.addItem s.key v) s.container else return kept

def targetThere (resource : Json) (target : Slot) (needed : Bool) : Run Bool :=
  if needed then do
    let old ← lookupSlot resource target
    return old.isSome
  else pure true

def applyWrite (resource opItem : Json) (target : Slot) (mustExist : Bool) :
    Run (Option Json) := do
  match ← Json.getObjectItem (some opItem) "value" with
  | none => return none
  | some value =>
    if ← targetThere resource target mustExist then
      match ← allocated value with
      | none => return none
      | some copy =>
        let resource ← storeAt resource target copy
        return some resource
    else return none

def applyRemove (resource : Json) (target : Slot) : Run (Option Json) := do
  match ← lookupSlot resource target with
  | none => return none
  | some _ => return some (resource.modifyAt (·.deleteItem target.key) target.container)

/-- A move deletes its source first. The container of the target was found before that, and
it is gone when the source held it. -/
def moveOrCopy (resource : Json) (source target : Slot) (copy : Json) (isMove : Bool) :
    Run Json :=
  if isMove then
    if source.path.isPrefixOf target.container then throw .useAfterFree
    else storeAt (resource.modifyAt (·.deleteItem source.key) source.container) target copy
  else storeAt resource target copy

def copyFrom (resource : Json) (source target : Slot) (isMove : Bool) : Run (Option Json) := do
  match ← lookupSlot resource source with
  | none => return none
  | some src =>
    match ← allocated src with
    | none => return none
    | some copy =>
      let resource ← moveOrCopy resource source target copy isMove
      return some resource

def applyCopy (resource opItem : Json) (target : Slot) (isMove : Bool) : Run (Option Json) := do
  match ← Json.getObjectItem (some opItem) "from" with
  | some (.string pointer) =>
    match ← resolvePointerParent resource pointer with
    | none => return none
    | some source => copyFrom resource source target isMove
  | _ => return none

def applyTest (resource opItem : Json) (target : Slot) : Run (Option Json) := do
  let value ← Json.getObjectItem (some opItem) "value"
  let found ← lookupSlot resource target
  match value, found with
  | some value, some found => return if found.compare value then some resource else none
  | _, _ => return none

def applyAt (resource opItem : Json) (op : String) (target : Slot) : Run (Option Json) :=
  if op = "add" ∨ op = "replace" then applyWrite resource opItem target (op == "replace")
  else if op = "remove" then applyRemove resource target
  else if op = "copy" ∨ op = "move" then applyCopy resource opItem target (op == "move")
  else if op = "test" then applyTest resource opItem target
  else pure none

def applyOneOp (resource opItem : Json) : Run (Option Json) := do
  let op ← Json.getObjectItem (some opItem) "op"
  let path ← Json.getObjectItem (some opItem) "path"
  match op, path with
  | some (.string op), some (.string path) =>
    match ← resolvePointerParent resource path with
    | none => return none
    | some target => applyAt resource opItem op target
  | _, _ => return none

def applyAllOps (resource : Json) : List Json → Run (Option Json)
  | [] => pure (some resource)
  | op :: ops => do
    match ← applyOneOp resource op with
    | none => return none
    | some resource => applyAllOps resource ops

def addFilter (resource : Json) (filter : Option Json) : Run (Option Json) :=
  match filter with
  | none => pure (some resource)
  | some filter => do
    match ← allocated filter with
    | none => return none
    | some copy =>
      let resource ← resource.addItemToObject "filter" (some copy)
      return some resource

/-- The resource that the pointers of a patch address. -/
def buildResource (r : SubscriptionRecord) : Run (Option Json) := do
  match ← Json.createObject with
  | none => return none
  | some resource =>
    let resource ← addOptionalString resource "callbackUri" r.callbackUri
    match ← addFilter resource r.filter with
    | none => return none
    | some resource =>
      let resource ← addOptionalString resource "expiry" r.expiryAt
      return some resource

structure PatchedFields where
  callbackUri : String
  filter : Json
  expiry : Option String
  deriving DecidableEq

def extractFields (resource : Json) : Run (Option PatchedFields) := do
  let cb ← Json.getObjectItem (some resource) "callbackUri"
  let fl ← Json.getObjectItem (some resource) "filter"
  let ex ← Json.getObjectItem (some resource) "expiry"
  match ← copyField (cb.bind Json.string?) with
  | none => return none
  | some newCb =>
    match ← copyField fl with
    | none => return none
    | some newFl =>
      match ← copyField (ex.bind Json.string?) with
      | none => return none
      | some newEx =>
        match newCb, newFl with
        | some cb, some fl => return some ⟨cb, fl, newEx⟩
        | _, _ => return none

/-- The working tree after all operations. -/
def patchedTree (r : SubscriptionRecord) (ops : List Json) : Run (Option Json) := do
  match ← buildResource r with
  | none => return none
  | some resource => applyAllOps resource ops

def applyPatchAtomic (r : SubscriptionRecord) (patchDoc : Json) : Run (Option PatchedFields) :=
  match patchDoc with
  | .array ops => do
    match ← patchedTree r ops with
    | none => return none
    | some resource => extractFields resource
  | _ => pure none

end Subscription

end Nssf
