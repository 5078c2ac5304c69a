import Nssf.Server.Handlers

/-! The dispatch of a request by path and method. The path is looked at first, so a known path
with another method is refused as such. -/

namespace Nssf

open Base Run

/-- What the part of the path before the query names. -/
inductive Resource where
  | sliceInformation
  | availability
  | subscriptions
  | subscription (id : String)
  | nf (nfId : String)
  | unknown
  deriving DecidableEq, Repr

/-- The one segment behind the prefix, which may not be empty. -/
def idBehind (pre route : List Char) : Option String :=
  if pre.isPrefixOf route then
    let seg := route.drop pre.length
    if seg.isEmpty || seg.contains '/' then none else some (String.ofList seg)
  else none

def resourceOf (route : List Char) : Resource :=
  if route = "/network-slice-information".toList then .sliceInformation
  else if route = "/nssai-availability".toList then .availability
  else if route = "/nssai-availability/subscriptions".toList then .subscriptions
  else
    match idBehind "/nssai-availability/subscriptions/".toList route with
    | some id => .subscription id
    | none =>
      match idBehind "/nssai-availability/".toList route with
      | some nfId => .nf nfId
      | none => .unknown

def routePart (path : String) : List Char := path.toList.takeWhile (· != '?')

def queryPart (path : String) : Option String :=
  match path.toList.dropWhile (· != '?') with
  | _ :: query => some (String.ofList query)
  | [] => none

/-- What the router is wired with. -/
structure RouterDeps where
  validate : BearerValidator
  seams : SelectionSeams

section dispatch

variable (deps : RouterDeps) (req : Request) (s : Stores)

def methodNotAllowed : Run (Response × Stores) := refuseWith req s .methodNotAllowed none

def dispatchSubscription (method id : String) : Run (Response × Stores) := do
  match ← allocated id with
  | none => refuseWith req s .internalServerError none
  | some id =>
    if method = "DELETE" then subscriptionUnsubscribeHandle deps.validate req s id
    else if method = "PATCH" then subscriptionPatchHandle deps.validate req s id
    else methodNotAllowed req s

/-- The router has no source for the tracking area of a patch. -/
def dispatchNf (method nfId : String) : Run (Response × Stores) := do
  match ← allocated nfId with
  | none => refuseWith req s .internalServerError none
  | some nfId =>
    if method = "PUT" then availabilityPutHandle deps.validate req s nfId
    else if method = "PATCH" then availabilityPatchHandle deps.validate req s nfId none
    else if method = "DELETE" then availabilityDeleteHandle deps.validate req s nfId
    else methodNotAllowed req s

def routerDispatch : Run (Response × Stores) :=
  match req.path, req.method with
  | some path, some method =>
    match resourceOf (routePart path) with
    | .sliceInformation =>
      if method = "GET" then
        nsselectionGetHandle deps.validate req s deps.seams (queryPart path)
      else methodNotAllowed req s
    | .availability =>
      if method = "OPTIONS" then availabilityOptionsHandle deps.validate req s
      else methodNotAllowed req s
    | .subscriptions =>
      if method = "POST" then subscriptionPostHandle deps.validate req s
      else methodNotAllowed req s
    | .subscription id => dispatchSubscription deps req s method id
    | .nf nfId => dispatchNf deps req s method nfId
    | .unknown =>
      refuseWith req s .notFoundNoAvailability (some "no resource at the requested path")
  | _, _ => refuseWith req s .internalServerError none

end dispatch

end Nssf
