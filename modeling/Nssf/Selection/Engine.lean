import Nssf.Availability.Repository
import Nssf.Availability.Snssai

/-! The selection of allowed slices: what is requested, subscribed, permitted by the PLMN and
available in the tracking area of the query. The engine only reads the repository. -/

namespace Nssf

open Base Run

inductive SelectResult where
  | fullAllow
  | partialAllow
  | fullReject
  deriving DecidableEq, Repr

/-- The collaborators a caller may inject. The source of subscribed slices answers nothing
when its lookup fails. -/
structure SelectionSeams where
  subscribedNssai : Option (Json → Option (Option Json)) := none
  amfSetResolver : Option (Option Json → Json → Option String) := none
  plmnPolicyAllowList : Option Json := none

inductive Selection where
  | failed (err : String)
  | selected (info : Json) (result : SelectResult)
  deriving DecidableEq

def copyItems : List Json → Run (Option (List Json))
  | [] => pure (some [])
  | it :: items => do
    match ← allocated it with
    | none => return none
    | some copy =>
      match ← copyItems items with
      | none => return none
      | some copies => return some (copy :: copies)

def collectRequested (variantBody : Json) (isPduSession : Bool) : Run (Option (List Json)) := do
  match ← Json.createArray with
  | none => return none
  | some _ =>
    if isPduSession then
      match ← Json.getObjectItem (some variantBody) "sNssai" with
      | some (.object members) => copyItems [.object members]
      | _ => return some []
    else
      match ← Json.getObjectItem (some variantBody) "requestedNssai" with
      | some (.array items) => copyItems items
      | _ => return some []

def flattenSubscribed : List Json → Run (Option (List Json))
  | [] => pure (some [])
  | entry :: entries => do
    match ← Json.getObjectItem (some entry) "subscribedSnssai" with
    | some (.object members) =>
      match ← allocated (Json.object members) with
      | none => return none
      | some copy =>
        match ← flattenSubscribed entries with
        | none => return none
        | some copies => return some (copy :: copies)
    | _ => flattenSubscribed entries

def resolveSubscribed (seams : SelectionSeams) (query variantBody : Json) :
    Run (Option Json) := do
  match seams.subscribedNssai with
  | some lookup =>
    match lookup query with
    | none => return none
    | some (some set) => return some set
    | some none => Json.createArray
  | none =>
    match ← Json.createArray with
    | none => return none
    | some _ =>
      match ← Json.getObjectItem (some variantBody) "subscribedNssai" with
      | some (.array entries) =>
        match ← flattenSubscribed entries with
        | none => return none
        | some set => return some (.array set)
      | _ => return some (.array [])

def addRecords (out : List Json) : List AvailabilityRecord → Run (Option (List Json))
  | [] => pure (some out)
  | x :: xs =>
    match x.snssais with
    | some (.array items) => do
      match ← addSnssais out items with
      | none => return none
      | some out => addRecords out xs
    | _ => addRecords out xs

def collectAvailability (r : AvailabilityRepo) (servingPlmn tai : Json) :
    Run (Option (List Json)) := do
  match ← Json.createArray with
  | none => return none
  | some _ =>
    match ← r.memFindForPlmnTai (some servingPlmn) (some tai) with
    | none => return none
    | some records => addRecords [] records

def makeAllowedSnssaiEntry (snssai : Json) : Run (Option Json) := do
  match ← Json.createObject with
  | none => return none
  | some entry =>
    match ← allocated snssai with
    | none => return none
    | some copy =>
      let entry ← Json.addItemToObject entry "allowedSnssai" (some copy)
      return some entry

def pickVariant (reg pdu ue : Option Json) : Option (Json × Bool) :=
  match reg.filter Json.isObject, pdu.filter Json.isObject, ue.filter Json.isObject with
  | some reg, none, none => some (reg, false)
  | none, none, some ue => some (ue, false)
  | none, some pdu, none => some (pdu, true)
  | _, _, _ => none

def detectVariant (query : Json) : Run (Option (Json × Bool)) := do
  let reg ← Json.getObjectItem (some query) "sliceInfoForRegistration"
  let pdu ← Json.getObjectItem (some query) "sliceInfoForPDUSession"
  let ue ← Json.getObjectItem (some query) "sliceInfoForUEConfigurationUpdate"
  return pickVariant reg pdu ue

def permitted (policy : Option Json) (req : Json) : Run Bool :=
  match policy with
  | none => pure true
  | some set => snssaiInArray (some set) req

def passes (subscribed : Json) (availability : List Json) (policy : Option Json)
    (req : Json) : Run Bool := do
  if ← snssaiInArray (some subscribed) req then
    if ← snssaiInItems req availability then permitted policy req else return false
  else return false

/-- The entries of the allowed list and the rejected slices, in the order requested. -/
def classify (subscribed : Json) (availability : List Json) (policy : Option Json) :
    List Json → Run (Option (List Json × List Json))
  | [] => pure (some ([], []))
  | req :: reqs => do
    if ← passes subscribed availability policy req then
      match ← makeAllowedSnssaiEntry req with
      | none => return none
      | some entry =>
        match ← classify subscribed availability policy reqs with
        | none => return none
        | some (allowed, rejected) => return some (entry :: allowed, rejected)
    else
      match ← allocated req with
      | none => return none
      | some copy =>
        match ← classify subscribed availability policy reqs with
        | none => return none
        | some (allowed, rejected) => return some (allowed, copy :: rejected)

def selectResult (requestedCount allowedCount : ℕ) : SelectResult :=
  if requestedCount = 0 ∨ allowedCount = requestedCount then .fullAllow
  else if allowedCount = 0 then .fullReject
  else .partialAllow

/-- The adds to the objects are not checked: a failed one leaves its member out. -/
def addAllowed (authorized : Json) (allowed : List Json) : Run (Except String Json) :=
  if allowed = [] then pure (.ok authorized)
  else do
    match ← Json.createObject with
    | none => return .error "selection_engine: OOM building allowedNssai"
    | some allowedNssai =>
      let allowedNssai ←
        Json.addItemToObject allowedNssai "allowedSnssaiList" (some (.array allowed))
      let allowedNssai ← Json.addStringToObject allowedNssai "accessType" "3GPP_ACCESS"
      match ← Json.createArray with
      | none => return .error "selection_engine: OOM building allowedNssaiList"
      | some _ =>
        let authorized ←
          Json.addItemToObject authorized "allowedNssaiList" (some (.array [allowedNssai]))
        return .ok authorized

def addRejected (authorized : Json) (rejected : List Json) : Run Json :=
  if rejected = [] then pure authorized
  else Json.addItemToObject authorized "rejectedNssaiInTa" (some (.array rejected))

def addTargetAmfSet (seams : SelectionSeams) (query authorized : Json)
    (result : SelectResult) : Run Json :=
  match seams.amfSetResolver with
  | none => pure authorized
  | some resolve =>
    if result = .fullReject then pure authorized
    else do
      let allowed ← Json.getObjectItem (some authorized) "allowedNssaiList"
      match resolve allowed query with
      | none => return authorized
      | some amfSet => Json.addStringToObject authorized "targetAmfSet" amfSet

def buildAuthorized (seams : SelectionSeams) (query : Json) (requestedCount : ℕ)
    (allowed rejected : List Json) : Run Selection := do
  let result := selectResult requestedCount allowed.length
  match ← Json.createObject with
  | none => return .failed "selection_engine: OOM building AuthorizedNetworkSliceInfo"
  | some authorized =>
    match ← addAllowed authorized allowed with
    | .error err => return .failed err
    | .ok authorized =>
      let authorized ← addRejected authorized rejected
      let authorized ← addTargetAmfSet seams query authorized result
      return .selected authorized result

def selectFrom (seams : SelectionSeams) (query : Json) (requested : List Json)
    (subscribed : Json) (availability : List Json) : Run Selection := do
  let allowedList ← Json.createArray
  let rejectedList ← Json.createArray
  match allowedList, rejectedList with
  | some _, some _ =>
    match ← classify subscribed availability seams.plmnPolicyAllowList requested with
    | none => return .failed "selection_engine: OOM classifying NSSAI"
    | some (allowed, rejected) =>
      buildAuthorized seams query requested.length allowed rejected
  | _, _ => return .failed "selection_engine: OOM building result"

def selectVariant (seams : SelectionSeams) (r : AvailabilityRepo) (query variantBody : Json)
    (isPdu : Bool) (tai servingPlmn : Json) : Run Selection := do
  match ← collectRequested variantBody isPdu with
  | none => return .failed "selection_engine: OOM collecting requested NSSAI"
  | some requested =>
    match ← resolveSubscribed seams query variantBody with
    | none => return .failed "selection_engine: subscribed-NSSAI seam failure"
    | some subscribed =>
      match ← collectAvailability r servingPlmn tai with
      | none => return .failed "selection_engine: availability read failed"
      | some availability => selectFrom seams query requested subscribed availability

def select (seams : SelectionSeams) (r : AvailabilityRepo) (query : Option Json) :
    Run Selection :=
  match query with
  | none => pure (.failed "selection_engine: null argument")
  | some query => do
    match ← detectVariant query with
    | none => return .failed "selection_engine: exactly one slice-info variant required"
    | some (variantBody, isPdu) =>
      match ← Json.getObjectItem (some query) "tai" with
      | some (.object tai) =>
        match ← Json.getObjectItem (some (.object tai)) "plmnId" with
        | some (.object plmn) =>
          selectVariant seams r query variantBody isPdu (.object tai) (.object plmn)
        | _ => return .failed "selection_engine: tai.plmnId missing"
      | _ => return .failed "selection_engine: tai missing or not an object"

end Nssf
