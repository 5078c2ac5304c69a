import Nssf.Dispatcher.UrlGate

/-! The outbound token cache: one token request per attempt, a bounded number of attempts with
doubling pauses, and the bearer line built from the token the cache holds at the end. The
response fields are read by a scanner of its own, not by the JSON parser. -/

namespace Nssf.OAuth

open Base Run

def clockSkewLeeway : ℤ := 60

inductive AuthMethod where
  | mtls
  | secretBasic
  | secretPost
  deriving DecidableEq, Repr

structure OwnedConfig where
  enabled : Bool
  tokenUrl : String
  nfInstanceId : String
  authMethod : AuthMethod
  secretRef : Option String
  defaultScope : String
  refreshBufferSeconds : ℕ
  maxTtlSeconds : ℕ
  maxAttempts : ℕ
  backoffBaseMs : ℕ
  backoffMaxMs : ℕ
  deriving DecidableEq, Repr

structure Outbound where
  cfg : OwnedConfig
  cachedToken : Option String
  cachedExpiry : ℤ
  deadLetterCb : Bool
  deadLetterCount : UInt32
  retryCount : UInt32
  deriving DecidableEq, Repr

/-- The delay before the retry after `n` retries, left at the first doubling that reaches the
ceiling. -/
def backoffDelayMs (cfg : OwnedConfig) : ℕ → ℕ → ℕ
  | 0, delay => min delay cfg.backoffMaxMs
  | n + 1, delay =>
    if cfg.backoffMaxMs ≤ delay * 2 then cfg.backoffMaxMs else backoffDelayMs cfg n (delay * 2)

def isBlank (c : Char) : Bool := c == ' ' || c == '\t' || c == '\n' || c == '\r'

/-- The value text behind a key whose opening quote was just read. -/
def afterKey (key rest : List Char) : Option (List Char) :=
  if (key ++ ['"']).isPrefixOf rest then
    match (rest.drop (key.length + 1)).dropWhile isBlank with
    | ':' :: q => some (q.dropWhile isBlank)
    | _ => none
  else none

def findKey (key : List Char) : List Char → Option (List Char)
  | [] => none
  | c :: rest =>
    if c = '"' then
      match afterKey key rest with
      | some v => some v
      | none => findKey key rest
    else findKey key rest

def rawLiteral : List Char → Option (List Char)
  | [] => none
  | '"' :: _ => some []
  | '\\' :: c :: rest => (rawLiteral rest).map fun r => '\\' :: c :: r
  | c :: rest => (rawLiteral rest).map (c :: ·)

def jsonGetString (body key : String) : Run (Option String) :=
  match findKey key.toList body.toList with
  | some ('"' :: q) =>
    match rawLiteral q with
    | some raw => allocated (String.ofList raw)
    | none => pure none
  | _ => pure none

def isSpace (c : Char) : Bool := isBlank c || c == '\x0b' || c == '\x0c'

/-- `strtoll` in base ten, saturated; nothing when no digit is read. -/
def strtoll (cs : List Char) : Option ℤ :=
  let (neg, body) := match cs.dropWhile isSpace with
    | '-' :: r => (true, r)
    | '+' :: r => (false, r)
    | r => (false, r)
  let ds := body.takeWhile Binary64.isDigit
  if ds.isEmpty then none
  else
    let v : ℤ := Binary64.digitsVal ds
    some (if neg then max (-v) (-2 ^ 63) else min v (2 ^ 63 - 1))

def jsonGetNumber (body key : List Char) : Option ℤ := (findKey key body).bind strtoll

def b64urlDecodeByte (c : Char) : Option ℕ :=
  if 'A' ≤ c ∧ c ≤ 'Z' then some (c.toNat - 'A'.toNat)
  else if 'a' ≤ c ∧ c ≤ 'z' then some (c.toNat - 'a'.toNat + 26)
  else if '0' ≤ c ∧ c ≤ '9' then some (c.toNat - '0'.toNat + 52)
  else if c = '-' then some 62
  else if c = '_' then some 63
  else none

/-- The loop over the text, with the 32-bit accumulator and the bits it still owes. -/
def b64urlLoop : List Char → ℕ → ℕ → Option (List Char)
  | [], _, _ => some []
  | c :: rest, acc, bits => do
    let v ← b64urlDecodeByte c
    let acc := (acc * 64 + v) % 2 ^ 32
    if 8 ≤ bits + 6 then
      let tail ← b64urlLoop rest acc (bits + 6 - 8)
      return Char.ofNat (acc / 2 ^ (bits + 6 - 8) % 256) :: tail
    else b64urlLoop rest acc (bits + 6)

def b64urlDecode (cs : List Char) : Run (Option (List Char)) := do
  if ← alloc then return b64urlLoop cs 0 0 else return none

def jwsPayload (token : List Char) : Option (List Char) :=
  match token.dropWhile (· != '.') with
  | '.' :: rest => if rest.contains '.' then some (rest.takeWhile (· != '.')) else none
  | _ => none

def jwsExp (token : String) : Run (Option ℤ) :=
  match jwsPayload token.toList with
  | none => pure none
  | some payload => do
    match ← b64urlDecode payload with
    | none => return none
    | some text => return jsonGetNumber (Json.cutAtNul text) "exp".toList

def resolveExpiry (cfg : OwnedConfig) (body token : String) (now : ℤ) : Run (Option ℤ) := do
  let fromTtl := match jsonGetNumber body.toList "expires_in".toList with
    | some e => if 0 < e then some (now + min e cfg.maxTtlSeconds) else none
    | none => none
  match ← jwsExp token with
  | none => return fromTtl
  | some exp =>
    if exp ≤ now - clockSkewLeeway then return none
    else
      let capped := min exp (now + cfg.maxTtlSeconds)
      return match fromTtl with
        | none => some capped
        | some t => some (min capped t)

def isUnreserved (c : Char) : Bool :=
  Binary64.isDigit c || decide ('a' ≤ c ∧ c ≤ 'z') || decide ('A' ≤ c ∧ c ≤ 'Z') ||
    c == '-' || c == '.' || c == '_' || c == '~'

def upperHex (n : ℕ) : Char := (Nat.digitChar n).toUpper

def curlEscape (s : String) : String :=
  String.ofList (s.toList.flatMap fun c =>
    if isUnreserved c then [c] else ['%', upperHex (c.toNat / 16), upperHex (c.toNat % 16)])

def formPart (name : String) (value : Option String) : String :=
  match value with
  | none => ""
  | some v => name ++ v

def escapedSecret (cfg : OwnedConfig) : Run (Option String) :=
  match cfg.authMethod, cfg.secretRef with
  | .secretPost, some s => allocated (curlEscape s)
  | _, _ => pure none

def buildFormBody (cfg : OwnedConfig) (scope : String) : Run (Option String) := do
  if ← alloc then
    let escScope ← allocated (curlEscape scope)
    let escId ← allocated (curlEscape cfg.nfInstanceId)
    let escSecret ← escapedSecret cfg
    allocated ("grant_type=client_credentials" ++ formPart "&scope=" escScope ++
      formPart "&nfInstanceId=" escId ++ formPart "&client_secret=" escSecret)
  else return none

def basicAuth (cfg : OwnedConfig) : Run (Option String) :=
  match cfg.authMethod, cfg.secretRef with
  | .secretBasic, some s => allocated (cfg.nfInstanceId ++ ":" ++ s)
  | _, _ => pure none

def cachedTokenFresh (ob : Outbound) (now : ℤ) : Bool :=
  ob.cachedToken.isSome && decide (now + ob.cfg.refreshBufferSeconds < ob.cachedExpiry)

inductive Refresh where
  | ok
  | retriable
  | deadLetter (status : ℤ) (oauthError : Option String)
  deriving DecidableEq, Repr

/-- A 200 answer: the grant is usable when it carries no error, a bearer token and a
lifetime. -/
def acceptGrant (ob : Outbound) (body : String) : Run (Refresh × Outbound) := do
  match ← jsonGetString body "error" with
  | some e =>
    if e ≠ "" then return (.deadLetter 200 (some e), ob) else acceptToken
  | none => acceptToken
where
  acceptToken : Run (Refresh × Outbound) := do
    let token ← jsonGetString body "access_token"
    let type ← jsonGetString body "token_type"
    match token, type with
    | some token, some type =>
      if token ≠ "" ∧ strcasecmpEq type "Bearer" = true then
        let now ← time
        match ← resolveExpiry ob.cfg body token now with
        | some expiry =>
          return (.ok, { ob with cachedToken := some token, cachedExpiry := expiry })
        | none => return (.deadLetter 200 none, ob)
      else return (.deadLetter 200 none, ob)
    | _, _ => return (.deadLetter 200 none, ob)

def retriableStatus (status : ℤ) : Bool :=
  status == 429 || decide (500 ≤ status ∧ status ≤ 599)

def refreshLocked (ob : Outbound) (scope : String) : Run (Refresh × Outbound) := do
  match ← buildFormBody ob.cfg scope with
  | none => return (.retriable, ob)
  | some form =>
    let auth ← basicAuth ob.cfg
    let answer ← askToken ob.cfg.tokenUrl form auth
    if answer.rc ≠ 0 then return (.retriable, ob)
    else match answer.body with
      | some body =>
        if answer.status = 200 then acceptGrant ob body
        else if retriableStatus answer.status then return (.retriable, ob)
        else
          let err ← jsonGetString body "error"
          return (.deadLetter answer.status err, ob)
      | none =>
        if retriableStatus answer.status then return (.retriable, ob)
        else return (.deadLetter answer.status none, ob)

def recordDeadLetterLocked (ob : Outbound) (status : ℤ) (err : Option String) :
    Run Outbound := do
  if ob.deadLetterCb then emit (.deadLetterSignal status err)
  return { ob with deadLetterCount := ob.deadLetterCount + 1 }

/-- The attempts that are left, counted down; the pause before the next attempt is skipped
after the last one. -/
def acquireLoop (scope : String) : ℕ → ℕ → Outbound → Run (Bool × Outbound)
  | 0, _, ob => pure (false, ob)
  | left + 1, attempt, ob => do
    let (outcome, ob) ← refreshLocked ob scope
    match outcome with
    | .ok => return (true, ob)
    | .deadLetter status err =>
      let ob ← recordDeadLetterLocked ob status err
      return (false, ob)
    | .retriable =>
      if 0 < left then
        emit (.backoffSleep (backoffDelayMs ob.cfg attempt ob.cfg.backoffBaseMs))
        acquireLoop scope left (attempt + 1) { ob with retryCount := ob.retryCount + 1 }
      else return (false, ob)

def ensureFresh (ob : Outbound) (scope : String) : Run (Bool × Outbound) := do
  let now ← time
  if cachedTokenFresh ob now then return (true, ob)
  else acquireLoop scope ob.cfg.maxAttempts 0 ob

def acquireOwnedCopyLocked (ob : Outbound) (scope : String) :
    Run (Option String × Outbound) := do
  let (got, ob) ← ensureFresh ob scope
  match got, ob.cachedToken with
  | true, some token => return (← allocated token, ob)
  | _, _ => return (none, ob)

inductive Attach where
  | ok (headers : List String)
  | noAttach
  | abort
  deriving DecidableEq, Repr

def bearerLine (token : String) : String := "Authorization: Bearer " ++ token

def attachBearer (ob : Outbound) (scopeOverride : Option String) (headers : List String) :
    Run (Attach × Outbound) := do
  if ob.cfg.enabled then
    let (owned, ob) ← acquireOwnedCopyLocked ob (scopeOverride.getD ob.cfg.defaultScope)
    match owned with
    | none => return (.abort, ob)
    | some token =>
      if ← alloc then
        if ← alloc then return (.ok (headers ++ [bearerLine token]), ob)
        else return (.abort, ob)
      else return (.abort, ob)
  else return (.noAttach, ob)

def acquire (ob : Outbound) (scopeOverride : Option String) :
    Run (Attach × Option String × Outbound) := do
  if ob.cfg.enabled then
    let (owned, ob) ← acquireOwnedCopyLocked ob (scopeOverride.getD ob.cfg.defaultScope)
    match owned with
    | none => return (.abort, none, ob)
    | some token => return (.ok [], some token, ob)
  else return (.noAttach, none, ob)

/-- The redirect settings are checked here and followed nowhere. -/
structure RedirectPolicy where
  followRedirect : Bool
  maxHops : UInt32
  allowHostChange : Bool
  hostChangeAllowlist : List String
  deriving DecidableEq, Repr

/-- The profile of the operator. A zero number asks for the default. -/
structure OutboundConfig where
  enabled : Bool
  tokenUrl : Option String
  nfInstanceId : Option String
  authMethod : AuthMethod
  secretRef : Option String
  allowSecretAuthInProduction : Bool
  clientCertPath : Option String
  clientKeyPath : Option String
  defaultScope : Option String
  refreshBufferSeconds : UInt32
  maxTtlSeconds : UInt32
  maxAttempts : UInt32
  backoffBaseMs : UInt32
  backoffMaxMs : UInt32
  redirect : RedirectPolicy
  deriving DecidableEq, Repr

def filled (s : Option String) : Bool := s.getD "" != ""

def methodUsesSecret : AuthMethod → Bool
  | .mtls => false
  | .secretBasic => true
  | .secretPost => true

def redirectPolicyAllowed (p : RedirectPolicy) : Bool :=
  !p.followRedirect || (decide (p.maxHops ≤ 1) &&
    !(p.allowHostChange && p.hostChangeAllowlist.isEmpty))

def configIsConsistent (cfg : OutboundConfig) (requireMtlsMaterial : Bool) : Bool :=
  let hasSecret := filled cfg.secretRef
  let hasCert := filled cfg.clientCertPath
  let hasKey := filled cfg.clientKeyPath
  let usesSecret := methodUsesSecret cfg.authMethod
  filled cfg.tokenUrl && filled cfg.nfInstanceId &&
    !(cfg.authMethod == .mtls && hasSecret) && !(usesSecret && (hasCert || hasKey)) &&
    !(cfg.authMethod == .mtls && requireMtlsMaterial && !(hasCert && hasKey)) &&
    !(usesSecret && !cfg.allowSecretAuthInProduction) && !(usesSecret && !hasSecret) &&
    redirectPolicyAllowed cfg.redirect

def tokenUrlAllowed (url : String) (allowInsecureLoopback : Bool) : Bool :=
  let cs := url.toList
  !urlHasUserinfoOrFragment cs &&
    if allowInsecureLoopback then hostIsLoopback cs else hasPrefixCi cs "https://".toList

def nz (v dflt : UInt32) : ℕ := if v = 0 then dflt.toNat else v.toNat

def dupOrNull (s : Option String) : Run (Option String) :=
  match s with
  | none => pure none
  | some s => allocated s

/-- A copy of the secret reference that fails goes unnoticed. The paths of the TLS material
are left to the transport. -/
def createWithSchemePolicy (cfg : OutboundConfig) (allowInsecureLoopback : Bool) :
    Run (Option Outbound) := do
  if tokenUrlAllowed (cfg.tokenUrl.getD "") allowInsecureLoopback &&
      configIsConsistent cfg !allowInsecureLoopback then
    if ← alloc then
      let tokenUrl ← dupOrNull cfg.tokenUrl
      let nfInstanceId ← dupOrNull cfg.nfInstanceId
      let secretRef ← dupOrNull cfg.secretRef
      let defaultScope ← dupOrNull (some (cfg.defaultScope.getD "nnrf-disc nnrf-nfm"))
      match tokenUrl, nfInstanceId, defaultScope with
      | some tokenUrl, some nfInstanceId, some defaultScope =>
        return some
          { cfg :=
              { enabled := cfg.enabled
                tokenUrl := tokenUrl
                nfInstanceId := nfInstanceId
                authMethod := cfg.authMethod
                secretRef := secretRef
                defaultScope := defaultScope
                refreshBufferSeconds := nz cfg.refreshBufferSeconds 60
                maxTtlSeconds := nz cfg.maxTtlSeconds 3600
                maxAttempts := nz cfg.maxAttempts 3
                backoffBaseMs := nz cfg.backoffBaseMs 200
                backoffMaxMs := nz cfg.backoffMaxMs 2000 }
            cachedToken := none
            cachedExpiry := 0
            deadLetterCb := false
            deadLetterCount := 0
            retryCount := 0 }
      | _, _, _ => return none
    else return none
  else return none

def outboundCreate (cfg : OutboundConfig) : Run (Option Outbound) :=
  createWithSchemePolicy cfg false

def outboundCreateInsecure (cfg : OutboundConfig) : Run (Option Outbound) :=
  createWithSchemePolicy cfg true

end Nssf.OAuth
