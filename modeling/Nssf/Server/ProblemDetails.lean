import Nssf.Runtime.Env

/-! The causes of an error answer, and the body that is built from one. -/

namespace Nssf

open Base Run

inductive ProblemCause where
  | badRequestInvalidBody
  | badRequestInvalidParam
  | unauthorizedTokenMissing
  | unauthorizedTokenInvalid
  | forbiddenScopeMismatch
  | notFoundNoAvailability
  | notFoundSubscription
  | methodNotAllowed
  | requestTimeout
  | payloadLengthRequired
  | payloadTooLarge
  | uriTooLong
  | unsupportedMediaTypeJson
  | unsupportedMediaTypeJsonPatch
  | tooManyRequests
  | serviceUnavailableDb
  | serviceUnavailableUpstream
  | internalServerError
  deriving DecidableEq, Repr

structure ProblemMetadata where
  status : ℕ
  title : String
  typeUrn : String
  detailTemplate : String
  deriving DecidableEq, Repr

namespace ProblemCause

-- a brace inside a template is written as its code
def metadata : ProblemCause → ProblemMetadata
  | .badRequestInvalidBody =>
    ⟨400, "Bad Request", "urn:5gc:problem:bad-request",
      "Request body invalid: \x7breason\x7d"⟩
  | .badRequestInvalidParam =>
    ⟨400, "Bad Request", "urn:5gc:problem:bad-request",
      "Query parameter invalid: \x7bparam\x7d"⟩
  | .unauthorizedTokenMissing =>
    ⟨401, "Unauthorized", "urn:5gc:problem:unauthorized", "OAuth2 bearer token missing"⟩
  | .unauthorizedTokenInvalid =>
    ⟨401, "Unauthorized", "urn:5gc:problem:unauthorized",
      "OAuth2 bearer token invalid: \x7breason\x7d"⟩
  | .forbiddenScopeMismatch =>
    ⟨403, "Forbidden", "urn:5gc:problem:forbidden",
      "OAuth2 scope mismatch: required=\x7brequired\x7d actual=\x7bactual\x7d"⟩
  | .notFoundNoAvailability =>
    ⟨404, "Not Found", "urn:5gc:problem:not-found",
      "No availability for plmn=\x7bplmn\x7d tai=\x7btai\x7d"⟩
  | .notFoundSubscription =>
    ⟨404, "Not Found", "urn:5gc:problem:not-found",
      "Subscription not found: id=\x7bid\x7d"⟩
  | .methodNotAllowed =>
    ⟨405, "Method Not Allowed", "urn:5gc:problem:method-not-allowed",
      "Method \x7bmethod\x7d not allowed on \x7buri\x7d"⟩
  | .requestTimeout =>
    ⟨408, "Request Timeout", "urn:5gc:problem:request-timeout",
      "Request did not complete within \x7btimeout\x7ds"⟩
  | .payloadLengthRequired =>
    ⟨411, "Length Required", "urn:5gc:problem:length-required",
      "Content-Length header required"⟩
  | .payloadTooLarge =>
    ⟨413, "Payload Too Large", "urn:5gc:problem:payload-too-large",
      "Request body exceeds \x7bmax\x7d bytes"⟩
  | .uriTooLong =>
    ⟨414, "URI Too Long", "urn:5gc:problem:uri-too-long",
      "Request URI exceeds \x7bmax\x7d bytes"⟩
  | .unsupportedMediaTypeJson =>
    ⟨415, "Unsupported Media Type", "urn:5gc:problem:unsupported-media-type",
      "Content-Type must be application/json (got: \x7bactual\x7d)"⟩
  | .unsupportedMediaTypeJsonPatch =>
    ⟨415, "Unsupported Media Type", "urn:5gc:problem:unsupported-media-type",
      "Content-Type must be application/json-patch+json (got: \x7bactual\x7d)"⟩
  | .tooManyRequests =>
    ⟨429, "Too Many Requests", "urn:5gc:problem:too-many-requests", "Rate limit exceeded"⟩
  | .serviceUnavailableDb =>
    ⟨503, "Service Unavailable", "urn:5gc:problem:service-unavailable",
      "Database backend unavailable: \x7breason\x7d"⟩
  | .serviceUnavailableUpstream =>
    ⟨503, "Service Unavailable", "urn:5gc:problem:service-unavailable",
      "Upstream NF unavailable: \x7bnf\x7d"⟩
  | .internalServerError =>
    ⟨500, "Internal Server Error", "urn:5gc:problem:internal-server-error",
      "Internal error: \x7brequest_id\x7d"⟩

def name : ProblemCause → String
  | .badRequestInvalidBody => "BAD_REQUEST_INVALID_BODY"
  | .badRequestInvalidParam => "BAD_REQUEST_INVALID_PARAM"
  | .unauthorizedTokenMissing => "UNAUTHORIZED_TOKEN_MISSING"
  | .unauthorizedTokenInvalid => "UNAUTHORIZED_TOKEN_INVALID"
  | .forbiddenScopeMismatch => "FORBIDDEN_SCOPE_MISMATCH"
  | .notFoundNoAvailability => "NOT_FOUND_NO_AVAILABILITY"
  | .notFoundSubscription => "NOT_FOUND_SUBSCRIPTION"
  | .methodNotAllowed => "METHOD_NOT_ALLOWED"
  | .requestTimeout => "REQUEST_TIMEOUT"
  | .payloadLengthRequired => "PAYLOAD_LENGTH_REQUIRED"
  | .payloadTooLarge => "PAYLOAD_TOO_LARGE"
  | .uriTooLong => "URI_TOO_LONG"
  | .unsupportedMediaTypeJson => "UNSUPPORTED_MEDIA_TYPE_JSON"
  | .unsupportedMediaTypeJsonPatch => "UNSUPPORTED_MEDIA_TYPE_JSON_PATCH"
  | .tooManyRequests => "TOO_MANY_REQUESTS"
  | .serviceUnavailableDb => "SERVICE_UNAVAILABLE_DB"
  | .serviceUnavailableUpstream => "SERVICE_UNAVAILABLE_UPSTREAM"
  | .internalServerError => "INTERNAL_SERVER_ERROR"

end ProblemCause

structure ProblemDetails where
  type : String
  title : String
  status : ℕ
  detail : String
  instanceUri : Option String
  cause : String
  deriving DecidableEq, Repr

/-- The strings are copied before the record is made. -/
def makeByCause (cause : ProblemCause) (detail instanceUri : Option String) :
    Run (Option ProblemDetails) :=
  let m := cause.metadata
  allocated ⟨m.typeUrn, m.title, m.status, detail.getD m.detailTemplate, instanceUri, cause.name⟩

def ProblemDetails.members (pd : ProblemDetails) : List (String × Json) :=
  [("type", .string pd.type), ("title", .string pd.title),
    ("status", .number (Binary64.ofNat pd.status)), ("detail", .string pd.detail)] ++
  (pd.instanceUri.map fun u => ("instance", Json.string u)).toList ++
  [("cause", .string pd.cause)]

def ProblemDetails.convertToJson (pd : ProblemDetails) : Run (Option Json) :=
  allocated (.object pd.members)

/-- The answer to a request. `allow` and `location` are header values, empty where there is
none. -/
structure Response where
  status : ℕ
  contentType : Option String
  body : Option String
  allow : String
  location : String
  deriving DecidableEq, Repr

def problemContentType : String := "application/problem+json"

def emitProblem (pd : Option ProblemDetails) (fallbackStatus : ℕ) : Run Response :=
  match pd with
  | none => pure ⟨fallbackStatus, some problemContentType, none, "", ""⟩
  | some pd => do
    match ← pd.convertToJson with
    | none => return ⟨pd.status, some problemContentType, none, "", ""⟩
    | some json =>
      let body ← json.print
      return ⟨pd.status, some problemContentType, body, "", ""⟩

/-- Every caller gives the status of the cause as the fallback. -/
def problem (cause : ProblemCause) (detail instanceUri : Option String) : Run Response := do
  let pd ← makeByCause cause detail instanceUri
  emitProblem pd cause.metadata.status

end Nssf
