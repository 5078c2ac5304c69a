import Nssf.Availability.Engine
import Nssf.Dispatcher.Dispatch
import Nssf.Subscription.Patch

/-! The in-memory subscription store, its calls, and the fan-out of a change event into the
retry queue. A record that was deleted with its NF stays as a tombstone. -/

namespace Nssf

open Base Run

structure SubscriptionStore where
  items : List SubscriptionRecord
  deriving DecidableEq

inductive SubResult where
  | ok
  | notFound
  | unsupported
  | badPatch
  | error
  deriving DecidableEq, Repr

/-- The collaborators behind the store: the repository it reads a snapshot from, the retry
queue, and the dispatcher that sends one row. -/
structure Outbox where
  queue : RetryStore
  dispatcher : Dispatcher
  deriving DecidableEq

namespace Subscription

def bytesOf (n : ℕ) : List ℕ := (List.range 8).map fun i => n / 2 ^ (i * 8) % 256

def hexByte (b : ℕ) : List Char := [Nat.digitChar (b / 16), Nat.digitChar (b % 16)]

/-- The bytes come from the clock and a counter; six bits carry version and variant. -/
def uuidText (c t : ℕ) : String :=
  let hi := Nat.xor (t * 2 ^ 16 % 2 ^ 64) (c * 0x9E3779B97F4A7C15 % 2 ^ 64)
  let lo := Nat.xor (c * 2 % 2 ^ 64) (t * 0xC2B2AE3D27D4EB4F % 2 ^ 64)
  let b := bytesOf hi ++ bytesOf lo
  let b := b.modify 6 fun x => x % 16 + 0x40
  let b := b.modify 8 fun x => x % 64 + 0x80
  let hex (l : List ℕ) := l.flatMap hexByte
  String.ofList (hex (b.take 4) ++ '-' :: hex ((b.drop 4).take 2) ++
    '-' :: hex ((b.drop 6).take 2) ++ '-' :: hex ((b.drop 8).take 2) ++ '-' :: hex (b.drop 10))

def genUuid : Run RecordId := do
  let c ← nextUuid
  let t ← time
  return RecordId.cut (uuidText (c % 2 ^ 64) (t % 2 ^ 64).toNat)

/-- Year, month and day of a day counted from the first of March of the year 0. -/
def civilFromDays (days : ℤ) : ℤ × ℤ × ℤ :=
  let era := days / 146097
  let doe := days % 146097
  let yoe := (doe - doe / 1460 + doe / 36524 - doe / 146096) / 365
  let doy := doe - (365 * yoe + yoe / 4 - yoe / 100)
  let mp := (5 * doy + 2) / 153
  let month := if mp < 10 then mp + 3 else mp - 9
  (era * 400 + yoe + (if month ≤ 2 then 1 else 0), month, doy - (153 * mp + 2) / 5 + 1)

def twoDigits (n : ℤ) : String :=
  let s := toString n
  if s.length < 2 then "0" ++ s else s

/-- `gmtime_r` and `strftime` with `%Y-%m-%dT%H:%M:%SZ`. -/
def utcText (seconds : ℤ) : String :=
  let (y, m, d) := civilFromDays (seconds / 86400 + 719468)
  let s := seconds % 86400
  toString y ++ "-" ++ twoDigits m ++ "-" ++ twoDigits d ++ "T" ++ twoDigits (s / 3600) ++
    ":" ++ twoDigits (s / 60 % 60) ++ ":" ++ twoDigits (s % 60) ++ "Z"

def formatExpiry (expirySeconds : ℤ) : Run String := do
  let now ← time
  return utcText (now + expirySeconds)

def recordFill (id : String) (callbackUri : Option String) (filter : Option Json)
    (amfId amfSetId expiryAt : Option String) : Run (Option SubscriptionRecord) := do
  match ← copyField callbackUri with
  | none => return none
  | some callbackUri =>
    match ← copyField filter with
    | none => return none
    | some filter =>
      match ← copyField amfId with
      | none => return none
      | some amfId =>
        match ← copyField amfSetId with
        | none => return none
        | some amfSetId =>
          match ← copyField expiryAt with
          | none => return none
          | some expiryAt =>
            return some ⟨.cut id, callbackUri, filter, amfId, amfSetId, expiryAt, false⟩

def buildSnapshotPayload (subscriptionId : String) : Run (Option String) := do
  match ← allocated subscriptionId with
  | none => return none
  | some sub =>
    if ← alloc then
      match ← Json.createObject with
      | none => return none
      | some item =>
        if ← alloc then (item.addItem "subscriptionId" (.string sub)).print else return none
    else return none

end Subscription

namespace SubscriptionStore

open Subscription

def newInmemory : SubscriptionStore := ⟨[]⟩

def indexOf (s : SubscriptionStore) (id : String) : Option ℕ :=
  s.items.findIdx? fun x => x.id.text == id

/-- The record that a call for the id works on: the first one, unless it is a tombstone. -/
def live? (s : SubscriptionStore) (id : String) : Option (ℕ × SubscriptionRecord) :=
  match s.indexOf id with
  | none => none
  | some i =>
    match s.items[i]? with
    | none => none
    | some x => if x.tombstone then none else some (i, x)

def memInsert (s : SubscriptionStore) (id : RecordId) (callbackUri : Option String)
    (filter : Option Json) (amfId amfSetId expiryAt : Option String) :
    Run (Bool × SubscriptionStore) := do
  if ← alloc then
    match ← recordFill id.text callbackUri filter amfId amfSetId expiryAt with
    | none => return (false, s)
    | some x => return (true, ⟨s.items ++ [x]⟩)
  else return (false, s)

inductive Got where
  | absent
  | failed
  | found (x : SubscriptionRecord)
  deriving DecidableEq

def memGet (s : SubscriptionStore) (id : String) : Run Got :=
  match s.live? id with
  | none => pure .absent
  | some (_, x) => do
    match ← recordFill x.id.text x.callbackUri x.filter x.amfId x.amfSetId x.expiryAt with
    | none => return .failed
    | some x => return .found x

def memRemove (s : SubscriptionStore) (id : String) : SubscriptionStore :=
  match s.indexOf id with
  | none => s
  | some i => ⟨swapRemove s.items i⟩

def memTombstone (s : SubscriptionStore) (id : String) : SubscriptionStore :=
  match s.indexOf id with
  | none => s
  | some i => ⟨s.items.modify i fun x => { x with tombstone := true }⟩

/-- The identity of the subscriber is carried over. -/
def memReplace (s : SubscriptionStore) (id : String) (callbackUri : Option String)
    (filter : Option Json) (expiryAt : Option String) : Run (RepoCode × SubscriptionStore) :=
  match s.live? id with
  | none => pure (.noRow, s)
  | some (i, x) => do
    match ← recordFill id callbackUri filter x.amfId x.amfSetId expiryAt with
    | none => return (.failed, s)
    | some fresh => return (.done, ⟨s.items.set i fresh⟩)

/-- The read of the current snapshot is made and thrown away. -/
def readForSnapshot (repo : AvailabilityRepo) (plmnId tai : Option Json) : Run Unit :=
  match plmnId, tai with
  | some plmnId, some tai => do
    let _ ← repo.memFindForPlmnTai (some plmnId) (some tai)
    return ()
  | _, _ => pure ()

def dispatchOne (o : Outbox) : Run Outbox := do
  let (_, dispatcher, queue) ← dispatchPending o.dispatcher o.queue none
  return ⟨queue, dispatcher⟩

def dispatchInitialSnapshot (repo : AvailabilityRepo) (o : Outbox) (plmnId tai : Option Json)
    (id callbackUri : String) : Run Outbox := do
  readForSnapshot repo plmnId tai
  match ← buildSnapshotPayload id with
  | none => return o
  | some payload =>
    match ← o.queue.enqueue (some id) (some callbackUri) (some payload) none with
    | (false, queue) => return { o with queue := queue }
    | (true, queue) => dispatchOne { o with queue := queue }

/-- The outcome, the id handed to the caller, and the changed state. -/
def create (s : SubscriptionStore) (repo : AvailabilityRepo) (o : Outbox)
    (callbackUri : Option String) (filter : Option Json) (amfId amfSetId : Option String)
    (expirySeconds : ℤ) : Run (SubResult × String × SubscriptionStore × Outbox) :=
  match callbackUri, filter with
  | some callbackUri, some filter => do
    let id ← genUuid
    let expiry ← formatExpiry expirySeconds
    match ← s.memInsert id (some callbackUri) (some filter) amfId amfSetId (some expiry) with
    | (false, s) => return (.error, "", s, o)
    | (true, s) =>
      let plmnId ← Json.getObjectItem (some filter) "plmnId"
      let tai ← Json.getObjectItem (some filter) "tai"
      let o ← dispatchInitialSnapshot repo o plmnId tai id.text callbackUri
      return (.ok, id.text, s, o)
  | _, _ => pure (.error, "", s, o)

def delete (s : SubscriptionStore) (id : Option String) : SubResult × SubscriptionStore :=
  match id with
  | none => (.error, s)
  | some id => (.ok, s.memRemove id)

def jsonPatchContentType : String := "application/json-patch+json"

/-- A parameter after the media type is let through, and so is any other tail. -/
def patchContentTypeOk (contentType : Option String) : Bool :=
  match contentType with
  | none => false
  | some ct => jsonPatchContentType.toList.isPrefixOf ct.toList

def replaceFields (s : SubscriptionStore) (id : String) (fields : PatchedFields) :
    Run (SubResult × SubscriptionStore) := do
  match ← s.memReplace id (some fields.callbackUri) (some fields.filter) fields.expiry with
  | (.noRow, s) => return (.notFound, s)
  | (.done, s) => return (.ok, s)
  | (.failed, s) => return (.error, s)

def patchRecord (s : SubscriptionStore) (id : String) (x : SubscriptionRecord) (doc : Json) :
    Run (SubResult × SubscriptionStore) := do
  match ← applyPatchAtomic x doc with
  | none => return (.badPatch, s)
  | some fields => s.replaceFields id fields

def patch (s : SubscriptionStore) (id contentType : Option String) (patchDoc : Option Json) :
    Run (SubResult × SubscriptionStore) :=
  match id, patchDoc with
  | some id, some doc =>
    if patchContentTypeOk contentType then do
      match ← s.memGet id with
      | .absent => return (.notFound, s)
      | .failed => return (.error, s)
      | .found x => s.patchRecord id x doc
    else pure (.unsupported, s)
  | _, _ => pure (.error, s)

end SubscriptionStore

end Nssf
