import Nssf.Selection.Engine
import Nssf.Server.ProblemDetails
import Nssf.Subscription.Fanout

/-! The request handlers: the security gate first, then the checks on the request as such, and
only then the body and the engine or store behind it. -/

namespace Nssf

open Base Run

structure Request where
  method : Option String
  path : Option String
  authorization : Option String
  maxUriLen : ℕ
  contentType : Option String
  body : Option String
  contentLength : ℕ
  hasContentLength : Bool
  maxBodyLen : ℕ
  deriving DecidableEq, Repr

/-- The validation of a bearer: an error text, or the scope claim of the token if it has one. -/
abbrev BearerValidator := String → Except String (Option String)

/-- What the server keeps between requests. -/
structure Stores where
  repo : AvailabilityRepo
  subscriptions : SubscriptionStore
  outbox : Outbox
  deriving DecidableEq

def scopeNsselection : String := "nnssf-nsselection"

def scopeNssaiavailability : String := "nnssf-nssaiavailability"

/-- Whole tokens of the claim are compared as they end. -/
def scopeScan (required : List Char) : List Char → List Char → Bool
  | tok, [] => tok == required
  | tok, c :: cs =>
    if c = ' ' then tok == required || scopeScan required [] cs
    else scopeScan required (tok ++ [c]) cs

def scopeMatch (claim : Option String) (required : String) : Bool :=
  match claim with
  | none => false
  | some claim => !required.toList.isEmpty && scopeScan required.toList [] claim.toList

/-- An empty error text is not passed on. -/
def errDetail (err : String) : Option String := if err = "" then none else some err

def bearerOf (authorization : String) : Option String :=
  if hasPrefixCi authorization.toList "Bearer ".toList then
    some (String.ofList (authorization.toList.drop 7))
  else none

/-- The answer of a refused request, nothing for one that may pass. -/
def securityGate (validate : BearerValidator) (scope : String)
    (authorization instanceUri : Option String) : Run (Option Response) :=
  match authorization.bind bearerOf with
  | none => do
    let denied ← problem .unauthorizedTokenMissing none instanceUri
    return some denied
  | some bearer =>
    match validate bearer with
    | .error err => do
      let denied ← problem .unauthorizedTokenInvalid (errDetail err) instanceUri
      return some denied
    | .ok claim =>
      if scopeMatch claim scope then pure none
      else do
        let denied ← problem .forbiddenScopeMismatch
          (some ("required scope " ++ scope ++ " not present in access token")) instanceUri
        return some denied

def Request.uriTooLong (req : Request) : Bool :=
  decide (0 < req.maxUriLen) && req.path.any fun p => decide (req.maxUriLen < p.length)

section handlers

variable (validate : BearerValidator) (req : Request) (s : Stores)

def refuseWith (cause : ProblemCause) (detail : Option String) : Run (Response × Stores) := do
  let answer ← problem cause detail req.path
  return (answer, s)

/-- What every handler does before its own part. -/
def gated (scope : String) (handle : Run (Response × Stores)) : Run (Response × Stores) := do
  match ← securityGate validate scope req.authorization req.path with
  | some denied => return (denied, s)
  | none => if req.uriTooLong then refuseWith req s .uriTooLong none else handle

def lengthChecked (handle : Run (Response × Stores)) : Run (Response × Stores) :=
  if !req.hasContentLength then refuseWith req s .payloadLengthRequired none
  else if 0 < req.maxBodyLen ∧ req.maxBodyLen < req.contentLength then
    refuseWith req s .payloadTooLarge none
  else handle

def jsonContentType : String := "application/json"

/-- The handlers whose body has to be plain JSON. -/
def jsonBody (handle : Json → Run (Response × Stores)) : Run (Response × Stores) :=
  if req.contentType.any (strcasecmpEq · jsonContentType) then
    match req.body with
    | none => refuseWith req s .badRequestInvalidBody none
    | some body => do
      match ← Json.parse body with
      | none => refuseWith req s .badRequestInvalidBody none
      | some doc => handle doc
  else refuseWith req s .unsupportedMediaTypeJson none

def parseOptional (text : Option String) : Run (Option Json) :=
  match text with
  | none => pure none
  | some text => Json.parse text

def answerJson (authorized : Option Json) (s : Stores) : Run (Response × Stores) := do
  let body ← match authorized with
    | none => pure none
    | some authorized => authorized.print
  match body with
  | none => refuseWith req s .internalServerError none
  | some body => return (⟨200, some jsonContentType, some body, "", ""⟩, s)

def noContent (s : Stores) : Run (Response × Stores) :=
  pure (⟨204, some jsonContentType, none, "", ""⟩, s)

section availability

/-- The result of the engine as an answer. -/
def answerAvailability (unsupported : ProblemCause) (reply : AvailabilityReply) (s : Stores) :
    Run (Response × Stores) :=
  match reply.result with
  | .ok => answerJson req reply.authorized s
  | .noContent => noContent s
  | .badRequest => refuseWith req s .badRequestInvalidBody (errDetail reply.err)
  | .unsupportedMediaType => refuseWith req s unsupported (errDetail reply.err)
  | .notFound => refuseWith req s .notFoundNoAvailability (errDetail reply.err)
  | .internal => refuseWith req s .serviceUnavailableDb (errDetail reply.err)

def Stores.after (r : AvailabilityRepo) (t : SubscriptionStore × Outbox) : Stores := ⟨r, t.1, t.2⟩

def replaceAndAnswer (nfId : String) (info : Json) : Run (Response × Stores) := do
  let (reply, r, t) ← availabilityReplace Subscription.cascade s.repo
    (s.subscriptions, s.outbox) (some nfId) (some info) true
  answerAvailability req .unsupportedMediaTypeJson reply (.after r t)

def availabilityPutHandle (nfId : String) : Run (Response × Stores) :=
  gated validate req s scopeNssaiavailability
    (lengthChecked req s (jsonBody req s (replaceAndAnswer req s nfId)))

def patchAndAnswer (nfId : String) (tai patch : Option Json) : Run (Response × Stores) := do
  let (reply, r, t) ← availabilityPatch Subscription.cascade s.repo
    (s.subscriptions, s.outbox) (some nfId) req.contentType tai patch true
  answerAvailability req .unsupportedMediaTypeJsonPatch reply (.after r t)

/-- The tracking area of the patch comes from the caller as text. -/
def availabilityPatchHandle (nfId : String) (taiText : Option String) :
    Run (Response × Stores) :=
  gated validate req s scopeNssaiavailability (lengthChecked req s (do
    let tai ← parseOptional taiText
    let patch ← parseOptional req.body
    patchAndAnswer req s nfId tai patch))

/-- The result of a delete has two successes, which are answered alike. -/
def answerDelete (reply : AvailabilityReply) (s : Stores) : Run (Response × Stores) :=
  match reply.result with
  | .noContent => noContent s
  | .ok => noContent s
  | .notFound => refuseWith req s .notFoundNoAvailability (errDetail reply.err)
  | .badRequest => refuseWith req s .badRequestInvalidBody (errDetail reply.err)
  | _ => refuseWith req s .serviceUnavailableDb (errDetail reply.err)

def deleteAndAnswer (nfId : String) : Run (Response × Stores) := do
  let (reply, r, t) ← availabilityDelete Subscription.cascade s.repo
    (s.subscriptions, s.outbox) (some nfId)
  answerDelete req reply (.after r t)

def availabilityDeleteHandle (nfId : String) : Run (Response × Stores) :=
  gated validate req s scopeNssaiavailability (deleteAndAnswer req s nfId)

def allowedMethods : String := "PUT, PATCH, DELETE, OPTIONS"

def availabilityOptionsHandle : Run (Response × Stores) :=
  gated validate req s scopeNssaiavailability
    (pure (⟨200, none, none, allowedMethods, ""⟩, s))

end availability

section subscription

def defaultExpirySeconds : ℤ := 24 * 60 * 60

def subscriptionPrefix : String := "/nssai-availability/subscriptions/"

def createAndAnswer (callbackUri : String) (filter : Json) (amfId amfSetId : Option String) :
    Run (Response × Stores) := do
  let (result, id, subs, outbox) ← s.subscriptions.create s.repo s.outbox (some callbackUri)
    (some filter) amfId amfSetId defaultExpirySeconds
  let s := { s with subscriptions := subs, outbox := outbox }
  if result = .ok then return (⟨201, none, none, "", subscriptionPrefix ++ id⟩, s)
  else refuseWith req s .internalServerError none

/-- The document itself is the filter when it has no member of that name. -/
def postDocument (doc : Json) : Run (Response × Stores) := do
  let cb ← Json.getObjectItem (some doc) "callbackUri"
  match cb.bind Json.string? with
  | none => refuseWith req s .badRequestInvalidParam badCallback
  | some callbackUri =>
    if notificationCallbackUrlAllowed (some callbackUri) then
      let filter ← Json.getObjectItem (some doc) "filter"
      let amfId ← Json.getObjectItem (some doc) "amfId"
      let amfSetId ← Json.getObjectItem (some doc) "amfSetId"
      createAndAnswer req s callbackUri (filter.getD doc) (amfId.bind Json.string?)
        (amfSetId.bind Json.string?)
    else refuseWith req s .badRequestInvalidParam badCallback
where
  badCallback : Option String :=
    some "callbackUri must be a well-formed https URL with no userinfo or fragment"

def subscriptionPostHandle : Run (Response × Stores) :=
  gated validate req s scopeNssaiavailability
    (lengthChecked req s (jsonBody req s (postDocument req s)))

def answerPatch (result : SubResult) (s : Stores) : Run (Response × Stores) :=
  match result with
  | .ok => pure (⟨200, some jsonContentType, none, "", ""⟩, s)
  | .unsupported => refuseWith req s .unsupportedMediaTypeJsonPatch none
  | .notFound => refuseWith req s .notFoundSubscription none
  | .badPatch => refuseWith req s .badRequestInvalidBody none
  | .error => refuseWith req s .internalServerError none

def modifyAndAnswer (id : String) (patch : Option Json) : Run (Response × Stores) := do
  let (result, subs) ← s.subscriptions.patch (some id) req.contentType patch
  answerPatch req result { s with subscriptions := subs }

def subscriptionPatchHandle (id : String) : Run (Response × Stores) :=
  gated validate req s scopeNssaiavailability (lengthChecked req s (do
    let patch ← parseOptional req.body
    modifyAndAnswer req s id patch))

def unsubscribeAndAnswer (id : String) : Run (Response × Stores) :=
  match s.subscriptions.delete (some id) with
  | (.ok, subs) => noContent { s with subscriptions := subs }
  | (_, subs) => refuseWith req { s with subscriptions := subs } .internalServerError none

def subscriptionUnsubscribeHandle (id : String) : Run (Response × Stores) :=
  gated validate req s scopeNssaiavailability (unsubscribeAndAnswer req s id)

end subscription

section selection

def paramMap : List (String × String) :=
  [("slice-info-for-registration", "sliceInfoForRegistration"),
    ("slice-info-for-pdu-session", "sliceInfoForPDUSession"),
    ("slice-info-for-ue-cu", "sliceInfoForUEConfigurationUpdate"),
    ("tai", "tai"),
    ("home-plmn-id", "homePlmnId"),
    ("nf-id", "nfId"),
    ("nf-type", "nfType"),
    ("supported-features", "supportedFeatures"),
    ("l2-info", "l2Info"),
    ("home-snssais", "homeSnssais"),
    ("source-tai", "sourceTai")]

def engineKeyFor (queryName : String) : Option String :=
  (paramMap.find? fun p => p.1 == queryName).map Prod.snd

/-- A malformed escape is kept as it stands. -/
def percentDecode : List Char → List Char
  | [] => []
  | '+' :: cs => ' ' :: percentDecode cs
  | '%' :: hi :: lo :: cs =>
    match Json.hexVal hi, Json.hexVal lo with
    | some h, some l => Char.ofNat (h * 16 + l) :: percentDecode cs
    | _, _ => '%' :: percentDecode (hi :: lo :: cs)
  | c :: cs => c :: percentDecode cs

/-- The two sides of the first `=`, if there is one. -/
def splitPair (pair : List Char) : Option (List Char × List Char) :=
  match pair.dropWhile (· != '=') with
  | _ :: value => some (pair.takeWhile (· != '='), value)
  | [] => none

/-- A value that is no JSON is added as a string. -/
def addParam (query : Json) (key : String) (value : List Char) : Run (Option Json) := do
  match ← allocated (String.ofList (Json.cutAtNul (percentDecode value))) with
  | none => return none
  | some decoded =>
    match ← Json.parse decoded with
    | some parsed =>
      let query ← query.addItemToObject key (some parsed)
      return some query
    | none =>
      let query ← query.addStringToObject key decoded
      return some query

def addPairs (query : Json) : List (List Char) → Run (Option Json)
  | [] => pure (some query)
  | pair :: pairs =>
    match splitPair pair with
    | none => addPairs query pairs
    | some (name, value) =>
      match engineKeyFor (String.ofList name) with
      | none => addPairs query pairs
      | some key => do
        match ← addParam query key value with
        | none => return none
        | some query => addPairs query pairs

def buildEngineQuery (rawQuery : Option String) : Run (Option Json) := do
  match ← Json.createObject with
  | none => return none
  | some query => addPairs query ((rawQuery.getD "").toList.splitOn '&')

def containsText (needle : List Char) : List Char → Bool
  | [] => needle.isEmpty
  | c :: cs => needle.isPrefixOf (c :: cs) || containsText needle cs

/-- The engine tells its own failures apart by their text only. -/
def isInternalError (err : String) : Bool :=
  containsText "OOM".toList err.toList || containsText "repository".toList err.toList

def answerSelection (selection : Selection) : Run (Response × Stores) :=
  match selection with
  | .failed err =>
    if isInternalError err then refuseWith req s .internalServerError (errDetail err)
    else refuseWith req s .notFoundNoAvailability (errDetail err)
  | .selected info _ => answerJson req (some info) s

def nsselectionGetHandle (seams : SelectionSeams) (rawQuery : Option String) :
    Run (Response × Stores) :=
  gated validate req s scopeNsselection (do
    match ← buildEngineQuery rawQuery with
    | none => refuseWith req s .internalServerError none
    | some query =>
      let selection ← select seams s.repo (some query)
      answerSelection req s selection)

end selection

end handlers

end Nssf
