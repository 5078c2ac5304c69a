import Nssf.Availability.Repository
import Nssf.Availability.Snssai

/-! The engine behind the availability resource: it replaces, patches and deletes what an NF
supports, and publishes one event after each commit. The state `τ` of the subscriber of
these events is threaded through the publish seam. -/

namespace Nssf

open Base Run

inductive AvailabilityResult where
  | ok
  | noContent
  | badRequest
  | notFound
  | unsupportedMediaType
  | internal
  deriving DecidableEq, Repr

inductive ChangeType where
  | replaced
  | patched
  | deleted
  deriving DecidableEq, Repr

structure ChangeEvent where
  nfId : Option String
  tai : Option Json
  changeType : ChangeType
  before : Option Json
  after : Option Json
  deriving DecidableEq

/-- The text is what the caller finds in its error buffer, empty when nothing was written. -/
structure AvailabilityReply where
  result : AvailabilityResult
  authorized : Option Json
  err : String
  deriving DecidableEq

abbrev PublishSeam (τ : Type) := Option (ChangeEvent → τ → Run τ)

def nfIdValid (nfId : String) : Bool := nfId != "" && decide (nfId.length < 37)

def firstTai (tai : Option Json) (entry : Json) : Run (Option Json) :=
  match tai with
  | some tai => pure (some tai)
  | none => do
    let tai ← Json.getObjectItem (some entry) "tai"
    return tai.filter Json.isObject

def collectEntries (tai : Option Json) (out : List Json) :
    List Json → Run (Option (List Json × Option Json))
  | [] => pure (some (out, tai))
  | entry :: entries =>
    if entry.isObject then do
      let tai ← firstTai tai entry
      match ← Json.getObjectItem (some entry) "supportedSnssaiList" with
      | some (.array items) =>
        match ← addSnssais out items with
        | none => return none
        | some out => collectEntries tai out entries
      | _ => collectEntries tai out entries
    else collectEntries tai out entries

/-- All entries go into one set, next to the tracking area of the first entry that has one. -/
def collectSnssais (info : Json) : Run (Option (List Json × Option Json)) := do
  match ← Json.createArray with
  | none => return none
  | some _ =>
    match ← Json.getObjectItem (some info) "supportedNssaiAvailabilityData" with
    | some (.array entries) => collectEntries none [] entries
    | _ => return some ([], none)

def addTai (data : Json) (tai : Option Json) : Run (Option Json) :=
  match tai with
  | none => pure (some data)
  | some tai => do
    match ← allocated tai with
    | none => return none
    | some tai =>
      let data ← Json.addItemToObject data "tai" (some tai)
      return some data

def addSupportedFeatures (info : Json) (features : Option String) : Run (Option Json) :=
  match features with
  | none => pure (some info)
  | some f => do
    if ← alloc then return some (info.addItem "supportedFeatures" (.string f)) else return none

def makeAuthorizedInfo (snssais : Json) (tai : Option Json) (features : Option String) :
    Run (Option Json) := do
  match ← Json.createObject with
  | none => return none
  | some info =>
    match ← Json.createArray with
    | none => return none
    | some _ =>
      -- the list is filled after it was added, so a failed add loses all of it
      let added ← alloc
      match ← Json.createObject with
      | none => return none
      | some data =>
        match ← addTai data tai with
        | none => return none
        | some data =>
          match ← allocated snssais with
          | none => return none
          | some snssais =>
            let data ← Json.addItemToObject data "supportedSnssaiList" (some snssais)
            let info :=
              if added then info.addItem "authorizedNssaiAvailabilityData" (.array [data])
              else info
            addSupportedFeatures info features

structure Snapshot where
  value : Option Json
  found : Bool
  err : Bool
  deriving DecidableEq

def snapshotValue (snssais : Option Json) : Run (Option Json) :=
  match snssais with
  | some (.array items) => allocated (.array items)
  | _ => Json.createArray

def snapshotOf (nfId : String) : List AvailabilityRecord → Run Snapshot
  | [] => pure ⟨none, false, false⟩
  | x :: xs =>
    if x.id = nfId then do
      let value ← snapshotValue x.snssais
      return ⟨value, true, value.isNone⟩
    else snapshotOf nfId xs

def readSnapshot (r : AvailabilityRepo) (nfId : String) (plmnId tai : Json) : Run Snapshot := do
  match ← r.memFindForPlmnTai (some plmnId) (some tai) with
  | none => return ⟨none, false, true⟩
  | some records => snapshotOf nfId records

section engine

variable {τ : Type}

def publishChange (seam : PublishSeam τ) (ev : ChangeEvent) (t : τ) : Run τ :=
  match seam with
  | none => pure t
  | some publish => publish ev t

def refuse (result : AvailabilityResult) (err : String) : AvailabilityReply :=
  ⟨result, none, err⟩

/-- What is answered once the change is committed and published. -/
def committedReply (wanted : Bool) (snssais : List Json) (tai : Json)
    (features : Option String) : Run AvailabilityReply :=
  if snssais = [] then pure ⟨.noContent, none, ""⟩
  else if wanted then do
    match ← makeAuthorizedInfo (.array snssais) (some tai) features with
    | none => return refuse .internal "availability_engine: OOM building response"
    | some authorized => return ⟨.ok, some authorized, ""⟩
  else pure ⟨.ok, none, ""⟩

def replacementRecord (nfId : String) (plmnId tai : Json) (snssais : List Json)
    (reallocation : Option Json) : AvailabilityRecord where
  -- `strncpy` into an id of 36 bytes
  id := String.ofList (nfId.toList.take 36)
  plmnId := some plmnId
  tai := some tai
  snssais := some (.array snssais)
  amfSetId := none
  reallocationIndication := reallocation == some (.bool true)

def commitReplace (seam : PublishSeam τ) (r : AvailabilityRepo) (t : τ) (nfId : String)
    (info : Json) (wanted : Bool) (snssais : List Json) (tai plmnId : Json) :
    Run (AvailabilityReply × AvailabilityRepo × τ) := do
  let reallocation ← Json.getObjectItem (some info) "amfSetReallocationInd"
  let features ← Json.getObjectItem (some info) "supportedFeatures"
  let before ← readSnapshot r nfId plmnId tai
  match ← r.memUpsert (replacementRecord nfId plmnId tai snssais reallocation) with
  | (false, r) => return (refuse .internal "availability_engine: upsert failed", r, t)
  | (true, r) =>
    let t ← publishChange seam
      ⟨some nfId, some tai, .replaced, before.value, some (.array snssais)⟩ t
    let reply ← committedReply wanted snssais tai (features.bind Json.string?)
    return (reply, r, t)

def replaceInfo (seam : PublishSeam τ) (r : AvailabilityRepo) (t : τ) (nfId : String)
    (info : Json) (wanted : Bool) : Run (AvailabilityReply × AvailabilityRepo × τ) := do
  match ← collectSnssais info with
  | none => return (refuse .internal "availability_engine: OOM collecting snssais", r, t)
  | some (_, none) =>
    return (refuse .badRequest
      "availability_engine: supportedNssaiAvailabilityData missing tai", r, t)
  | some (snssais, some tai) =>
    match ← Json.getObjectItem (some tai) "plmnId" with
    | some (.object plmnId) =>
      commitReplace seam r t nfId info wanted snssais tai (.object plmnId)
    | _ => return (refuse .badRequest "availability_engine: tai.plmnId missing", r, t)

/-- `wanted` says whether the caller asks for the authorized slices. -/
def availabilityReplace (seam : PublishSeam τ) (r : AvailabilityRepo) (t : τ)
    (nfId : Option String) (info : Option Json) (wanted : Bool) :
    Run (AvailabilityReply × AvailabilityRepo × τ) :=
  match info with
  | none => pure (refuse .badRequest "availability_engine: null argument", r, t)
  | some info =>
    match nfId.filter nfIdValid with
    | none => pure (refuse .badRequest "availability_engine: invalid nfId", r, t)
    | some nfId =>
      if info.isObject then replaceInfo seam r t nfId info wanted
      else pure (refuse .badRequest "availability_engine: info not an object", r, t)

def patchOpValid (op : Json) : Run Bool :=
  if op.isObject then do
    let opName ← Json.getObjectItem (some op) "op"
    let path ← Json.getObjectItem (some op) "path"
    match opName, path with
    | some (.string name), some (.string _) =>
      let value ← Json.getObjectItem (some op) "value"
      let source ← Json.getObjectItem (some op) "from"
      if name = "add" ∨ name = "replace" ∨ name = "test" then return value.isSome
      else if name = "move" ∨ name = "copy" then
        return (source.bind Json.string?).isSome
      else return name == "remove"
    | _, _ => return false
  else pure false

def patchOpsValid : List Json → Run Bool
  | [] => pure true
  | op :: ops => do if ← patchOpValid op then patchOpsValid ops else return false

/-- The value of the digits. It stops early behind the end of the array, with whatever
follows unread. -/
def parseDigits (len : ℕ) : ℕ → List Char → Option ℕ
  | v, [] => some v
  | v, c :: cs =>
    if c.isDigit then
      let v := v * 10 + (c.toNat - '0'.toNat)
      if len < v then some v else parseDigits len v cs
    else none

def parseArrayIndex (path : String) (len : ℕ) (allowAppend : Bool) : Option ℕ :=
  match path.toList with
  | '/' :: tail =>
    if allowAppend && tail == ['-'] then some len
    else if tail = [] then none
    else
      (parseDigits len 0 tail).filter fun v =>
        decide (v ≤ len) && (allowAppend || decide (v < len))
  | _ => none

def availabilityApplyOneOp (target : List Json) (op : Json) : Run (Option (List Json)) := do
  let opName ← Json.getObjectItem (some op) "op"
  let opPath ← Json.getObjectItem (some op) "path"
  let value ← Json.getObjectItem (some op) "value"
  match opName, opPath with
  | some (.string "add"), some (.string path) =>
    match parseArrayIndex path target.length true with
    | none => return none
    | some i =>
      match ← Json.duplicate value with
      | none => return none
      | some copy => return some (target.insertIdx i copy)
  | some (.string "remove"), some (.string path) =>
    match parseArrayIndex path target.length false with
    | none => return none
    | some i => return some (target.eraseIdx i)
  | some (.string "replace"), some (.string path) =>
    match parseArrayIndex path target.length false with
    | none => return none
    | some i =>
      match ← Json.duplicate value with
      | none => return none
      | some copy => return some (target.set i copy)
  | some (.string "test"), some (.string path) =>
    match parseArrayIndex path target.length false with
    | none => return none
    | some i =>
      match target[i]?, value with
      | some item, some value => return if item.compare value then some target else none
      | _, _ => return none
  | some (.string _), some _ => return none
  | _, _ => throw .nullText

def applyOps (target : List Json) : List Json → Run (Option (List Json))
  | [] => pure (some target)
  | op :: ops => do
    match ← availabilityApplyOneOp target op with
    | none => return none
    | some target => applyOps target ops

def commitPatch (seam : PublishSeam τ) (r : AvailabilityRepo) (t : τ) (nfId : String)
    (tai : Json) (wanted : Bool) (before : Json) (working : List Json) :
    Run (AvailabilityReply × AvailabilityRepo × τ) := do
  match ← r.memPatch nfId none none (some (.array working)) none false false with
  | (.noRow, r) => return (refuse .notFound "availability_engine: nfId has no availability", r, t)
  | (.failed, r) => return (refuse .internal "availability_engine: patch commit failed", r, t)
  | (.done, r) =>
    let t ← publishChange seam
      ⟨some nfId, some tai, .patched, some before, some (.array working)⟩ t
    let reply ← committedReply wanted working tai none
    return (reply, r, t)

def patchSnapshot (seam : PublishSeam τ) (r : AvailabilityRepo) (t : τ) (nfId : String)
    (tai : Json) (ops : List Json) (wanted : Bool) (before : Snapshot) :
    Run (AvailabilityReply × AvailabilityRepo × τ) := do
  if before.err then
    return (refuse .internal "availability_engine: snapshot read failed", r, t)
  else if !before.found then
    return (refuse .notFound "availability_engine: nfId has no availability", r, t)
  else
    match ← Json.duplicate before.value with
    | some (.array working) =>
      match ← applyOps working ops with
      | none => return (refuse .badRequest "availability_engine: RFC 6902 apply failed", r, t)
      | some patched => commitPatch seam r t nfId tai wanted (.array working) patched
    -- a snapshot that was found is an array
    | _ => return (refuse .internal "availability_engine: OOM duplicating snapshot", r, t)

def patchOps (seam : PublishSeam τ) (r : AvailabilityRepo) (t : τ) (nfId : String)
    (plmnId tai : Json) (ops : List Json) (wanted : Bool) :
    Run (AvailabilityReply × AvailabilityRepo × τ) := do
  if ← patchOpsValid ops then
    let before ← readSnapshot r nfId plmnId tai
    patchSnapshot seam r t nfId tai ops wanted before
  else return (refuse .badRequest "availability_engine: invalid RFC 6902 op", r, t)

def availabilityPatch (seam : PublishSeam τ) (r : AvailabilityRepo) (t : τ)
    (nfId contentType : Option String) (tai patch : Option Json) (wanted : Bool) :
    Run (AvailabilityReply × AvailabilityRepo × τ) :=
  if contentType ≠ some "application/json-patch+json" then
    pure (refuse .unsupportedMediaType
      "availability_engine: content-type not application/json-patch+json", r, t)
  else
    match nfId.filter nfIdValid with
    | none => pure (refuse .badRequest "availability_engine: invalid nfId", r, t)
    | some nfId =>
      match tai.filter Json.isObject with
      | none =>
        pure (refuse .badRequest "availability_engine: tai missing or not an object", r, t)
      | some tai => do
        match ← Json.getObjectItem (some tai) "plmnId" with
        | some (.object plmnId) =>
          match patch with
          | some (.array ops) => patchOps seam r t nfId (.object plmnId) tai ops wanted
          | _ =>
            return (refuse .badRequest "availability_engine: patch body not an array", r, t)
        | _ => return (refuse .badRequest "availability_engine: tai.plmnId missing", r, t)

/-- The event of a delete carries neither the tracking area nor the slices that went. -/
def availabilityDelete (seam : PublishSeam τ) (r : AvailabilityRepo) (t : τ)
    (nfId : Option String) : Run (AvailabilityReply × AvailabilityRepo × τ) :=
  match nfId.filter nfIdValid with
  | none => pure (refuse .badRequest "availability_engine: invalid nfId", r, t)
  | some nfId =>
    match r.memDelete nfId with
    | (.noRow, r) =>
      pure (refuse .notFound "availability_engine: nfId has no availability", r, t)
    | (.failed, r) => pure (refuse .internal "availability_engine: delete failed", r, t)
    | (.done, r) => do
      let t ← publishChange seam ⟨some nfId, none, .deleted, none, none⟩ t
      return (⟨.noContent, none, ""⟩, r, t)

end engine

end Nssf
