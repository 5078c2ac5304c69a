import Mathlib.Data.List.Count
import Mathlib.Data.List.Nodup
import Mathlib.Data.List.Perm.Basic
import Nssf.OAuth.Machine
import Nssf.OAuth.Jwks

/-! The process from its configuration to its exit: the parts it builds, each over the ones it
borrows, the server that runs over all of them, and the cleanup that every path ends in. A signal
may come in between any two steps once its handler is installed. -/

namespace Nssf

open Base

namespace Bootstrap

inductive Part where
  | tls
  | jwks
  | repo
  | engine
  | subStore
  | retryStore
  | oauth
  | dispatcher
  | availEngine
  | router
  | server
  deriving DecidableEq

/-- What a part takes from outside. -/
inductive Kind where
  | object
  | sslCtx
  | connection
  | loop
  deriving DecidableEq

def Part.kinds : Part → List Kind
  | .tls => [.object, .sslCtx]
  | .jwks => [.object]
  | .repo => [.object, .connection]
  | .engine => [.object]
  | .subStore => [.object, .connection]
  | .retryStore => [.object, .connection]
  | .oauth => [.object]
  | .dispatcher => [.object]
  | .availEngine => [.object]
  | .router => [.object]
  | .server => [.object, .loop]

/-- A local variable of the process. -/
inductive Slot where
  | null
  | live
  | freed
  deriving DecidableEq

inductive TlsVersion where
  | tls12
  | tls13
  deriving DecidableEq

structure TlsConfig where
  enabled : Bool
  serverCertPath : Option String
  serverKeyPath : Option String
  clientCaPath : Option String
  minVersion : Option String
  tls13Ciphersuites : Option String
  tls12CipherList : Option String

/-- The context of the TLS library. A setting that is absent is the library's own. -/
structure SslCtx where
  minProto : Option TlsVersion
  certificateChain : Option String
  privateKey : Option String
  verifyLocations : Option String
  verifyPeer : Bool
  failIfNoPeerCert : Bool
  ciphersuites : Option String
  cipherList : Option String

def SslCtx.new : SslCtx := ⟨none, none, none, none, false, false, none, none⟩

structure TlsContext where
  sslCtx : SslCtx
  enabled : Bool

/-- What is in force while requests are served. -/
structure Serving (S : Type) where
  tls : TlsContext
  jwks : Jwks.JwksCache S
  outbound : Option OAuth.Outbound
  bindAddress : Option String
  port : ℕ

structure Main (S : Type) where
  slot : Part → Slot
  held : Part × Kind → ℕ
  gServer : Bool
  signals : Stream' Bool
  stops : ℕ
  serving : Option (Serving S)

inductive Fault where
  | gone
  | notHeld
  deriving DecidableEq

abbrev Act (S : Type) := Prog (Main S) Fault

variable {S α : Type}

def Main.start (signals : Stream' Bool) : Main S :=
  ⟨fun _ => .null, fun _ => 0, false, signals, 0, none⟩

/-- Between two steps a signal may come, and its handler wakes the server it finds. -/
def onSignal : Act S Unit := fun s =>
  if s.signals.head && s.gServer then
    if s.slot .server = .live then
      .ok ((), { s with signals := s.signals.tail, stops := s.stops + 1 })
    else .error .gone
  else .ok ((), { s with signals := s.signals.tail })

def acquire (p : Part) (k : Kind) : Act S Unit := do
  onSignal
  fun s => .ok ((), { s with held := Function.update s.held (p, k) (s.held (p, k) + 1) })

def release (p : Part) (k : Kind) : Act S Unit := do
  onSignal
  fun s =>
    if s.held (p, k) = 0 then .error .notHeld
    else .ok ((), { s with held := Function.update s.held (p, k) (s.held (p, k) - 1) })

def place (p : Part) (v : Slot) : Act S Unit := do
  onSignal
  fun s => .ok ((), { s with slot := Function.update s.slot p v })

/-- The callbacks of the loop reach every part. -/
def runCallbacks : Act S Unit := do
  onSignal
  fun s =>
    if s.slot .tls = .freed ∨ s.slot .jwks = .freed ∨ s.slot .repo = .freed ∨
        s.slot .engine = .freed ∨ s.slot .subStore = .freed ∨ s.slot .retryStore = .freed ∨
        s.slot .oauth = .freed ∨ s.slot .dispatcher = .freed ∨ s.slot .availEngine = .freed ∨
        s.slot .router = .freed ∨ s.slot .server = .freed then .error .gone
    else .ok ((), s)

/-- The answers of the TLS library, in the order it is called. -/
structure OpenSsl where
  new : Bool
  minProtoVersion : Bool
  certificateChain : Bool
  privateKey : Bool
  checkPrivateKey : Bool
  verifyLocations : Bool
  ciphersuites : Bool
  cipherList : Bool
  calloc : Bool

def resolveMinVersion (minVersion : Option String) : Option TlsVersion :=
  match minVersion with
  | none => some .tls13
  | some v =>
    if v = "TLSv1.3" then some .tls13
    else if v = "TLSv1.2" then some .tls12
    else none

/-- A call on the context that fails ends in its release. -/
def orFree (ok : Bool) (k : Act S (Option α)) : Act S (Option α) :=
  if ok then k
  else do
    release .tls .sslCtx
    return none

def optionSet (v : Option String) (ok : Bool) : Bool := v.getD "" == "" || ok

def nonempty (v : Option String) : Option String := v.filter (· != "")

def tlsContextCreate (cfg : TlsConfig) (o : OpenSsl) : Act S (Option TlsContext) :=
  match cfg.serverCertPath, cfg.serverKeyPath, cfg.clientCaPath,
    resolveMinVersion cfg.minVersion with
  | some cert, some key, some ca, some minProto =>
    if !o.new then return none
    else do
      acquire .tls .sslCtx
      orFree o.minProtoVersion <| orFree o.certificateChain <| orFree o.privateKey <|
        orFree o.checkPrivateKey <| orFree o.verifyLocations <|
        orFree (optionSet cfg.tls13Ciphersuites o.ciphersuites) <|
        orFree (optionSet cfg.tls12CipherList o.cipherList) <| orFree o.calloc do
          acquire .tls .object
          return some
            { sslCtx :=
                { minProto := some minProto
                  certificateChain := some cert
                  privateKey := some key
                  verifyLocations := some ca
                  verifyPeer := true
                  failIfNoPeerCert := true
                  ciphersuites := nonempty cfg.tls13Ciphersuites
                  cipherList := nonempty cfg.tls12CipherList }
              enabled := cfg.enabled }
  | _, _, _, _ => return none

/-- What connecting to the database comes to. -/
structure PgTurn where
  calloc : Bool
  connection : Bool
  statusOk : Bool

/-- The three stores over the database are made alike; the retry store asks for a conninfo first,
which is there by then. -/
def storeNewPg (p : Part) (t : PgTurn) : Act S (Option Unit) :=
  if !t.calloc then return none
  else do
    acquire p .object
    if !t.connection then
      release p .object
      return none
    else
      acquire p .connection
      if !t.statusOk then
        release p .connection
        release p .object
        return none
      else return some ()

/-- A part that is no more than a record over what it borrows. -/
def recordNew (p : Part) (calloc : Bool) : Act S (Option Unit) :=
  if !calloc then return none
  else do
    acquire p .object
    return some ()

/-- A part whose maker gives back what it took when it fails. -/
def objectNew (p : Part) (made : Option α) : Act S (Option α) :=
  match made with
  | none => return none
  | some a => do
    acquire p .object
    return some a

/-- The answers to the making of the server. -/
structure ServerTurn where
  calloc : Bool
  loopInit : Bool
  tcpInit : Bool
  asyncInit : Bool
  address : Bool
  bind : Bool
  listen : Bool

/-- The loop is not closed while it has a handle that is open. -/
def uvLoopClose (openHandles : ℕ) : Act S Unit :=
  if openHandles = 0 then release .server .loop else pure ()

/-- The listener is not closed on the way out when it does not listen yet. -/
def serverCreate (t : ServerTurn) : Act S (Option Unit) :=
  if !t.calloc then return none
  else do
    acquire .server .object
    if !t.loopInit then
      release .server .object
      return none
    else
      acquire .server .loop
      if !t.tcpInit then
        uvLoopClose 0
        release .server .object
        return none
      else if !t.asyncInit then
        uvLoopClose 1
        release .server .object
        return none
      else if !(t.address && t.bind && t.listen) then
        runCallbacks
        uvLoopClose 1
        release .server .object
        return none
      else return some ()

/-- What the process finds outside. With `alive` the loop returns with something left in it. -/
structure World where
  getenv : String → Option String
  ssl : OpenSsl
  jwksCalloc : Bool
  jwksMutex : Bool
  jwksStrdup : Bool
  repo : PgTurn
  engineCalloc : Bool
  subStore : PgTurn
  retryStore : PgTurn
  outbound : Env
  dispatcherCalloc : Bool
  availEngineCalloc : Bool
  routerCalloc : Bool
  server : ServerTurn
  alive : Bool

def envRequired (w : World) (name : String) : Option String := (w.getenv name).filter (· != "")

def envPort (w : World) (name : String) (fallback : ℕ) : ℕ :=
  match (envRequired w name).bind fun v => OAuth.strtoll v.toList with
  | none => fallback
  | some p => if p ≤ 0 ∨ 65535 < p then fallback else p.toNat

def envFlag (w : World) (name : String) : Bool :=
  match (w.getenv name).bind fun v => v.toList.head? with
  | none => false
  | some c => c == '1' || c == 't' || c == 'T' || c == 'y' || c == 'Y'

structure Config where
  cert : String
  key : String
  ca : String
  jwksUrl : String
  conninfo : String
  bindAddress : Option String
  port : ℕ

def config (w : World) : Option Config := do
  let cert ← envRequired w "NSSF_TLS_SERVER_CERT"
  let key ← envRequired w "NSSF_TLS_SERVER_KEY"
  let ca ← envRequired w "NSSF_TLS_CLIENT_CA"
  let jwksUrl ← envRequired w "NSSF_OAUTH2_JWKS_URL"
  let conninfo ← envRequired w "NSSF_DB_CONNINFO"
  return ⟨cert, key, ca, jwksUrl, conninfo, w.getenv "NSSF_BIND_ADDRESS",
    envPort w "NSSF_BIND_PORT" 8443⟩

def tlsConfig (w : World) (c : Config) : TlsConfig where
  enabled := true
  serverCertPath := some c.cert
  serverKeyPath := some c.key
  clientCaPath := some c.ca
  minVersion := w.getenv "NSSF_TLS_MIN_VERSION"
  tls13Ciphersuites := w.getenv "NSSF_TLS13_CIPHERS"
  tls12CipherList := w.getenv "NSSF_TLS12_CIPHERS"

def outboundConfig (w : World) : Option OAuth.OutboundConfig := do
  let tokenUrl ← envRequired w "NSSF_OAUTH2_OUTBOUND_TOKEN_URL"
  let nfId ← envRequired w "NSSF_NF_INSTANCE_ID"
  let cert ← envRequired w "NSSF_OAUTH2_OUTBOUND_CLIENT_CERT"
  let key ← envRequired w "NSSF_OAUTH2_OUTBOUND_CLIENT_KEY"
  let _ ← envRequired w "NSSF_OAUTH2_OUTBOUND_CA"
  some
    { enabled := true
      tokenUrl := some tokenUrl
      nfInstanceId := some nfId
      authMethod := .mtls
      secretRef := none
      allowSecretAuthInProduction := false
      clientCertPath := some cert
      clientKeyPath := some key
      defaultScope := w.getenv "NSSF_OAUTH2_OUTBOUND_SCOPE"
      refreshBufferSeconds := 0
      maxTtlSeconds := 0
      maxAttempts := 0
      backoffBaseMs := 0
      backoffMaxMs := 0
      redirect := ⟨false, 0, false, []⟩ }

/-- A part that is made is kept in its variable. -/
def assign (p : Part) (make : Act S (Option α)) : Act S (Option α) := do
  match ← make with
  | none => return none
  | some a =>
    place p .live
    return some a

def madeOutbound (w : World) (cfg : OAuth.OutboundConfig) : Option OAuth.Outbound :=
  (Prog.result? (OAuth.outboundCreate cfg) w.outbound).join

/-- Without the flag there is no handle, and the dispatcher attaches nothing. -/
def outboundPart (w : World) : Act S (Option (Option OAuth.Outbound)) :=
  if envFlag w "NSSF_OAUTH2_OUTBOUND_ENABLED" then
    match outboundConfig w with
    | none => return none
    | some cfg => do
      match ← assign .oauth (objectNew .oauth (madeOutbound w cfg)) with
      | none => return none
      | some ob => return some (some ob)
  else return some none

def setServer (v : Bool) : Act S Unit := do
  onSignal
  fun s => .ok ((), { s with gServer := v })

/-- The process counts as a success when the loop ran dry. -/
def serve (w : World) (serving : Serving S) : Act S Bool := do
  setServer true
  runCallbacks
  fun s => .ok ((), { s with serving := some serving })
  runCallbacks
  return !w.alive

/-- The parts over the stores. -/
def bringUpServer (w : World) (c : Config) (tls : TlsContext) (jwks : Jwks.JwksCache S) :
    Act S Bool := do
  match ← outboundPart w with
  | none => return false
  | some outbound =>
  match ← assign .dispatcher (recordNew .dispatcher w.dispatcherCalloc) with
  | none => return false
  | some _ =>
  match ← assign .availEngine (recordNew .availEngine w.availEngineCalloc) with
  | none => return false
  | some _ =>
  match ← assign .router (recordNew .router w.routerCalloc) with
  | none => return false
  | some _ =>
  match ← assign .server (serverCreate w.server) with
  | none => return false
  | some _ => serve w ⟨tls, jwks, outbound, c.bindAddress, c.port⟩

def bringUp (w : World) (c : Config) : Act S Bool := do
  match ← assign .tls (tlsContextCreate (tlsConfig w c) w.ssl) with
  | none => return false
  | some tls =>
  match ← assign .jwks (objectNew .jwks (Jwks.createWithSchemePolicy (some c.jwksUrl) 0 false
      w.jwksCalloc w.jwksMutex w.jwksStrdup)) with
  | none => return false
  | some jwks =>
  match ← assign .repo (storeNewPg .repo w.repo) with
  | none => return false
  | some _ =>
  match ← assign .engine (recordNew .engine w.engineCalloc) with
  | none => return false
  | some _ =>
  match ← assign .subStore (storeNewPg .subStore w.subStore) with
  | none => return false
  | some _ =>
  match ← assign .retryStore (storeNewPg .retryStore w.retryStore) with
  | none => return false
  | some _ => bringUpServer w c tls jwks

/-- What goes with a part. A loop with something left in it stays. -/
def Part.destroyed (alive : Bool) : Part → List Kind
  | .server => if alive then [.object] else [.object, .loop]
  | p => p.kinds

def releaseAll (p : Part) : List Kind → Act S Unit
  | [] => pure ()
  | k :: ks => do
    release p k
    releaseAll p ks

/-- Freeing the server lets its loop turn once more. -/
def turn (p : Part) : Act S Unit := if p = .server then runCallbacks else pure ()

def freePart (alive : Bool) (p : Part) : Act S Unit := do
  onSignal
  match ← (fun s => .ok (s.slot p, s) : Act S Slot) with
  | .null => return
  | .freed => fun _ => .error .gone
  | .live =>
    turn p
    releaseAll p (p.destroyed alive)
    place p .freed

def freeParts (alive : Bool) : List Part → Act S Unit
  | [] => pure ()
  | p :: ps => do
    freePart alive p
    freeParts alive ps

def cleanup (alive : Bool) : Act S Unit := do
  setServer false
  freeParts alive [.server, .router, .availEngine, .dispatcher, .oauth, .retryStore, .subStore,
    .engine, .repo, .jwks, .tls]

/-- The exit code, as whether it is a success. -/
def main (w : World) : Act S Bool :=
  match config w with
  | none => return false
  | some c => do
    let code ← bringUp w c
    cleanup w.alive
    return code

def Part.resources (p : Part) : List (Part × Kind) := p.kinds.map fun k => (p, k)

/-- The loop of a server that is given up with its listener open. -/
def ServerTurn.lost (t : ServerTurn) : List (Part × Kind) :=
  if t.calloc && t.loopInit && t.tcpInit &&
      !(t.asyncInit && t.address && t.bind && t.listen) then [(.server, .loop)]
  else []

/-- What has to go well for each part. -/
def tlsGranted (cfg : TlsConfig) (o : OpenSsl) : Bool :=
  match cfg.serverCertPath, cfg.serverKeyPath, cfg.clientCaPath,
    resolveMinVersion cfg.minVersion with
  | some _, some _, some _, some _ =>
    o.new && (o.minProtoVersion && (o.certificateChain && (o.privateKey &&
      (o.checkPrivateKey && (o.verifyLocations &&
        (optionSet cfg.tls13Ciphersuites o.ciphersuites &&
          (optionSet cfg.tls12CipherList o.cipherList && o.calloc)))))))
  | _, _, _, _ => false

def PgTurn.granted (t : PgTurn) : Bool := t.calloc && t.connection && t.statusOk

def ServerTurn.granted (t : ServerTurn) : Bool :=
  t.calloc && t.loopInit && t.tcpInit && (t.asyncInit && t.address && t.bind && t.listen)

def jwksGranted (w : World) (c : Config) : Bool :=
  c.jwksUrl != "" && Jwks.schemeAllowed c.jwksUrl false && w.jwksCalloc && w.jwksMutex &&
    w.jwksStrdup

def outboundGranted (w : World) : Bool :=
  !envFlag w "NSSF_OAUTH2_OUTBOUND_ENABLED" || ((outboundConfig w).bind (madeOutbound w)).isSome

/-- Every part can be made. -/
def complete (w : World) (c : Config) : Bool :=
  tlsGranted (tlsConfig w c) w.ssl && jwksGranted w c && w.repo.granted && w.engineCalloc &&
    w.subStore.granted && w.retryStore.granted && outboundGranted w && w.dispatcherCalloc &&
    w.availEngineCalloc && w.routerCalloc && w.server.granted

/-- Nothing is freed yet, and the handler finds a server if it looks for one. -/
structure Ready (s : Main S) : Prop where
  signal : s.gServer = true → s.slot .server = .live
  kept : ∀ p, s.slot p ≠ .freed

/-- Between the two states `l` was taken, and the variables are as they were. -/
structure Took (l : List (Part × Kind)) (s s' : Main S) : Prop where
  slot : s'.slot = s.slot
  gServer : s'.gServer = s.gServer
  serving : s'.serving = s.serving
  held : ∀ r, s'.held r = s.held r + l.count r

section steps

variable {s s' : Main S} {l : List (Part × Kind)} {p : Part} {k : Kind}

theorem Took.refl (s : Main S) : Took [] s s :=
  ⟨rfl, rfl, rfl, fun _ => rfl⟩

theorem Took.ready (h : Took l s s') (hs : Ready s) : Ready s' := by
  refine ⟨fun hg => ?_, fun q => ?_⟩
  · rw [h.slot]
    rw [h.gServer] at hg
    exact hs.signal hg
  · rw [h.slot]
    exact hs.kept q

theorem Took.perm {l' : List (Part × Kind)} (h : Took l s s') (hl : l.Perm l') : Took l' s s' :=
  ⟨h.slot, h.gServer, h.serving, fun r => by rw [h.held, hl.count_eq]⟩

theorem Took.trans {l' : List (Part × Kind)} {s'' : Main S} (h : Took l s s')
    (h' : Took l' s' s'') : Took (l' ++ l) s s'' := by
  refine ⟨h'.slot.trans h.slot, h'.gServer.trans h.gServer, h'.serving.trans h.serving, ?_⟩
  intro r
  rw [h'.held, h.held, List.count_append]
  omega

theorem onSignal_ok (hs : s.gServer = true → s.slot .server = .live) :
    ∃ s', onSignal s = .ok ((), s') ∧ Took [] s s' := by
  rw [onSignal]
  by_cases hsignal : (s.signals.head && s.gServer) = true
  · rw [if_pos hsignal, if_pos (hs (Bool.and_eq_true_iff.1 hsignal).2)]
    exact ⟨_, rfl, rfl, rfl, rfl, fun _ => rfl⟩
  · rw [if_neg hsignal]
    exact ⟨_, rfl, rfl, rfl, rfl, fun _ => rfl⟩

theorem acquire_ok (hs : s.gServer = true → s.slot .server = .live) :
    ∃ s', acquire p k s = .ok ((), s') ∧ Took [(p, k)] s s' := by
  obtain ⟨s₁, hrun, htook⟩ := onSignal_ok hs
  rw [acquire, Prog.bind_of_ok hrun]
  refine ⟨_, rfl, htook.slot, htook.gServer, htook.serving, fun r => ?_⟩
  have hheld := htook.held r
  rw [List.count_nil, Nat.add_zero] at hheld
  by_cases hr : r = (p, k)
  · subst hr
    simp [hheld]
  · simp [Function.update_of_ne hr, hheld, List.count_cons_of_ne (Ne.symm hr)]

/-- What is held once more can be given back. -/
theorem release_ok (hs : s.gServer = true → s.slot .server = .live) (hheld : s.held (p, k) ≠ 0) :
    ∃ s', release p k s = .ok ((), s') ∧ Took [(p, k)] s' s := by
  obtain ⟨s₁, hrun, htook⟩ := onSignal_ok hs
  have hsame : ∀ r, s₁.held r = s.held r := fun r => by
    rw [htook.held, List.count_nil, Nat.add_zero]
  rw [release, Prog.bind_of_ok hrun, if_neg (by rwa [hsame])]
  refine ⟨_, rfl, htook.slot.symm, htook.gServer.symm, htook.serving.symm, fun r => ?_⟩
  by_cases hr : r = (p, k)
  · subst hr
    simp only [Function.update_self, List.count_cons_self, List.count_nil, hsame]
    omega
  · simp [Function.update_of_ne hr, hsame, List.count_cons_of_ne (Ne.symm hr)]

theorem place_ok (v : Slot) (hs : s.gServer = true → s.slot .server = .live) :
    ∃ s', place p v s = .ok ((), { s' with slot := Function.update s.slot p v }) ∧
      Took [] s s' := by
  obtain ⟨s₁, hrun, htook⟩ := onSignal_ok hs
  rw [place, Prog.bind_of_ok hrun, ← htook.slot]
  exact ⟨s₁, rfl, htook⟩

theorem runCallbacks_ok (hs : Ready s) :
    ∃ s', runCallbacks s = .ok ((), s') ∧ Took [] s s' := by
  obtain ⟨s₁, hrun, htook⟩ := onSignal_ok hs.signal
  have hready := htook.ready hs
  rw [runCallbacks, Prog.bind_of_ok hrun, if_neg (by simp [hready.kept])]
  exact ⟨s₁, rfl, htook⟩

end steps

section makers

/-- From what was taken so far the maker goes on to its part, with all that belongs to it, or, when
it is not granted, to nothing but what it leaves behind. -/
def Finishes (s : Main S) (l : List (Part × Kind)) (p : Part) (lost : List (Part × Kind))
    (granted : Bool) (make : Act S (Option α)) : Prop :=
  ∀ s₁, Took l s s₁ → ∃ x s', make s₁ = .ok (x, s') ∧ x.isSome = granted ∧
    Took (if granted then p.resources else lost) s s'

variable {s : Main S} {l lost : List (Part × Kind)} {p q : Part} {k : Kind} {granted : Bool}
  {make : Act S (Option α)}

theorem finishes_none : Finishes s lost p lost false (pure none : Act S (Option α)) :=
  fun s₁ h => ⟨none, s₁, rfl, rfl, h⟩

theorem finishes_some {a : α} (h : l.Perm p.resources) :
    Finishes s l p lost true (pure (some a) : Act S (Option α)) :=
  fun s₁ htook => ⟨some a, s₁, rfl, rfl, htook.perm h⟩

theorem finishes_acquire (hs : Ready s) (h : Finishes s ((q, k) :: l) p lost granted make) :
    Finishes s l p lost granted (do acquire q k; make) := by
  intro s₁ htook
  obtain ⟨s₂, hrun, hacquire⟩ := acquire_ok (htook.ready hs).signal
  rw [Prog.bind_of_ok hrun]
  exact h s₂ (htook.trans hacquire)

theorem finishes_release (hs : Ready s) (h : Finishes s l p lost granted make) :
    Finishes s ((q, k) :: l) p lost granted (do release q k; make) := by
  intro s₁ htook
  have hheld : s₁.held (q, k) ≠ 0 := by
    rw [htook.held, List.count_cons_self]
    omega
  obtain ⟨s₂, hrun, hback⟩ := release_ok (htook.ready hs).signal hheld
  rw [Prog.bind_of_ok hrun]
  refine h s₂ ⟨hback.slot.symm.trans htook.slot, hback.gServer.symm.trans htook.gServer,
    hback.serving.symm.trans htook.serving, fun r => ?_⟩
  have hfirst := htook.held r
  have hsecond := hback.held r
  rw [List.count_cons] at hfirst hsecond
  rw [List.count_nil] at hsecond
  omega

theorem finishes_callbacks (hs : Ready s) (h : Finishes s l p lost granted make) :
    Finishes s l p lost granted (do runCallbacks; make) := by
  intro s₁ htook
  obtain ⟨s₂, hrun, hsame⟩ := runCallbacks_ok (htook.ready hs)
  rw [Prog.bind_of_ok hrun]
  exact h s₂ (htook.trans hsame)

theorem finishes_orFree (hs : Ready s) {ok : Bool}
    (h : Finishes s [(.tls, .sslCtx)] .tls [] granted make) :
    Finishes s [(.tls, .sslCtx)] .tls [] (ok && granted) (orFree ok make) := by
  cases ok with
  | true => exact h
  | false => exact finishes_release hs finishes_none

theorem Finishes.perm {l' : List (Part × Kind)} (h : Finishes s l' p lost granted make)
    (hl : l.Perm l') : Finishes s l p lost granted make :=
  fun s₁ htook => h s₁ (htook.perm hl)

theorem tlsContextCreate_finishes (hs : Ready s) (cfg : TlsConfig) (o : OpenSsl) :
    Finishes s [] .tls [] (tlsGranted cfg o) (tlsContextCreate cfg o) := by
  rw [tlsContextCreate, tlsGranted]
  split
  · cases o.new with
    | false => exact finishes_none
    | true =>
      rw [Bool.true_and]
      refine finishes_acquire hs ?_
      iterate 7 refine finishes_orFree hs ?_
      cases o.calloc with
      | false => exact finishes_release hs finishes_none
      | true => exact finishes_acquire hs (finishes_some (List.Perm.refl _))
  · exact finishes_none

theorem storeNewPg_finishes (hs : Ready s) (t : PgTurn) (hp : p.kinds = [.object, .connection]) :
    Finishes s [] p [] t.granted (storeNewPg p t) := by
  rw [storeNewPg, PgTurn.granted]
  cases t.calloc with
  | false => exact finishes_none
  | true =>
    refine finishes_acquire hs ?_
    cases t.connection with
    | false => exact finishes_release hs finishes_none
    | true =>
      refine finishes_acquire hs ?_
      cases t.statusOk with
      | false => exact finishes_release hs (finishes_release hs finishes_none)
      | true =>
        refine finishes_some ?_
        rw [Part.resources, hp]
        exact List.Perm.swap _ _ _

theorem objectNew_finishes (hs : Ready s) (made : Option α) (hp : p.kinds = [.object]) :
    Finishes s [] p [] made.isSome (objectNew p made) := by
  cases made with
  | none => exact finishes_none
  | some a =>
    refine finishes_acquire hs (finishes_some ?_)
    rw [Part.resources, hp]
    exact List.Perm.refl _

theorem recordNew_finishes (hs : Ready s) (calloc : Bool) (hp : p.kinds = [.object]) :
    Finishes s [] p [] calloc (recordNew p calloc) := by
  cases calloc with
  | false => exact finishes_none
  | true => exact objectNew_finishes hs (some ()) hp

theorem serverCreate_finishes (hs : Ready s) (t : ServerTurn) :
    Finishes s [] .server t.lost t.granted (serverCreate t) := by
  have hswap : List.Perm [((.server, .loop) : Part × Kind), (.server, .object)]
      [(.server, .object), (.server, .loop)] := List.Perm.swap _ _ _
  rw [serverCreate, ServerTurn.lost, ServerTurn.granted]
  cases t.calloc with
  | false => exact finishes_none
  | true =>
    refine finishes_acquire hs ?_
    cases t.loopInit with
    | false => exact finishes_release hs finishes_none
    | true =>
      refine finishes_acquire hs ?_
      cases t.tcpInit with
      | false => exact finishes_release hs (finishes_release hs finishes_none)
      | true =>
        have hgiven : Finishes s [((.server, .loop) : Part × Kind), (.server, .object)] .server
            [(.server, .loop)] false (do
              uvLoopClose 1
              release .server .object
              return none : Act S (Option Unit)) :=
          (finishes_release hs finishes_none).perm hswap
        cases t.asyncInit with
        | false => exact hgiven
        | true =>
          cases hlisten : t.address && t.bind && t.listen with
          | false =>
            simp only [Bool.true_and, hlisten]
            exact finishes_callbacks hs hgiven
          | true =>
            simp only [Bool.true_and, hlisten]
            exact finishes_some hswap

end makers

/-- What the live parts account for. -/
def Main.due (s : Main S) (r : Part × Kind) : ℕ :=
  if s.slot r.1 = .live ∧ r.2 ∈ r.1.kinds then 1 else 0

/-- What is held belongs to the live parts, up to what was left behind. -/
def Balanced (lost : List (Part × Kind)) (s : Main S) : Prop :=
  ∀ r, s.held r = s.due r + lost.count r

/-- On the way up: the parts that are still to be made are not there. -/
structure Stage (todo : List Part) (lost : List (Part × Kind)) (s : Main S) : Prop where
  ready : Ready s
  balanced : Balanced lost s
  todo : ∀ p ∈ todo, s.slot p = .null

/-- The handler looks for no server and nothing was served. -/
structure Idle (s : Main S) : Prop where
  gServer : s.gServer = false
  serving : s.serving = none

section stages

variable {s s' : Main S} {l lost : List (Part × Kind)} {p : Part} {todo : List Part}
  {granted : Bool} {make : Act S (Option α)}

theorem kinds_nodup (p : Part) : p.kinds.Nodup := by
  cases p <;> decide

theorem count_resources (p : Part) (r : Part × Kind) :
    p.resources.count r = if r.1 = p ∧ r.2 ∈ p.kinds then 1 else 0 := by
  have hnodup : p.resources.Nodup :=
    List.Nodup.map (Prod.mk_right_injective p) (kinds_nodup p)
  rw [hnodup.count]
  have hmem : r ∈ p.resources ↔ r.1 = p ∧ r.2 ∈ p.kinds := by
    obtain ⟨q, k⟩ := r
    simp only [Part.resources, List.mem_map, Prod.mk.injEq]
    constructor
    · rintro ⟨k', hk, rfl, rfl⟩
      exact ⟨rfl, hk⟩
    · rintro ⟨rfl, hk⟩
      exact ⟨k, hk, rfl, rfl⟩
  simp only [hmem]

theorem Took.idle (h : Took l s s') (hi : Idle s) : Idle s' :=
  ⟨h.gServer.trans hi.gServer, h.serving.trans hi.serving⟩

/-- What a maker that failed left behind is lost. -/
theorem Stage.lose (h : Stage todo lost s) (ht : Took l s s') : Stage todo (l ++ lost) s' := by
  refine ⟨ht.ready h.ready, fun r => ?_, fun q hq => ?_⟩
  · have hdue : s'.due r = s.due r := by simp only [Main.due, ht.slot]
    rw [ht.held, h.balanced, List.count_append, hdue]
    omega
  · rw [ht.slot]
    exact h.todo q hq

theorem Stage.only {q : Part} (h : Stage todo lost s) (hq : q ∈ todo) : Stage [q] lost s := by
  refine ⟨h.ready, h.balanced, fun q' hq' => ?_⟩
  rw [List.mem_singleton.1 hq']
  exact h.todo q hq

theorem Stage.gain (h : Stage (p :: todo) [] s) (hp : p ∉ todo) (ht : Took p.resources s s')
    (hi : Idle s) : Stage todo [] { s' with slot := Function.update s'.slot p .live } := by
  have hnull : s.slot p = .null := h.todo p List.mem_cons_self
  refine ⟨⟨fun hg => ?_, fun q => ?_⟩, fun r => ?_, fun q hq => ?_⟩
  · rw [(ht.idle hi).gServer] at hg
    cases hg
  · by_cases hq : q = p
    · subst hq
      simp
    · simp only [Function.update_of_ne hq]
      exact (ht.ready h.ready).kept q
  · have hbalanced := h.balanced r
    simp only [Main.due, List.count_nil, Nat.add_zero] at hbalanced ⊢
    rw [ht.held, hbalanced, count_resources]
    by_cases hq : r.1 = p
    · simp [hq, hnull]
    · simp [hq, ht.slot]
  · have hne : q ≠ p := by
      rintro rfl
      exact hp hq
    simp only [Function.update_of_ne hne, ht.slot]
    exact h.todo q (List.mem_cons_of_mem _ hq)

/-- A part is made and kept, or the way up ends here. -/
theorem assign_stage (h : Stage (p :: todo) [] s) (hi : Idle s) (hp : p ∉ todo)
    (hmake : Finishes s [] p lost granted make) :
    (granted = false ∧ ∃ s', assign p make s = .ok (none, s') ∧ Stage (p :: todo) lost s' ∧
        Idle s') ∨
      granted = true ∧ ∃ a s', assign p make s = .ok (some a, s') ∧ Stage todo [] s' ∧ Idle s' ∧
        s'.slot p = .live ∧ ∃ s₁, make s = .ok (some a, s₁) := by
  obtain ⟨x, s₁, hrun, rfl, htook⟩ := hmake s (Took.refl s)
  rw [assign, Prog.bind_of_ok hrun]
  cases x with
  | none =>
    refine .inl ⟨rfl, s₁, rfl, ?_, htook.idle hi⟩
    have hstage := h.lose htook
    rwa [List.append_nil] at hstage
  | some a =>
    obtain ⟨s₂, hplace, hsame⟩ := @place_ok _ s₁ p .live (htook.ready h.ready).signal
    have htook₂ : Took p.resources s s₂ := htook.trans hsame
    have hidle := htook₂.idle hi
    have hslot : s₁.slot = s₂.slot := htook.slot.trans htook₂.slot.symm
    rw [hslot] at hplace
    refine .inr ⟨rfl, a, _, ?_, h.gain hp htook₂ hi, ⟨hidle.gServer, hidle.serving⟩, ?_, s₁, hrun⟩
    · simp only
      rw [Prog.bind_of_ok hplace]
      rfl
    · simp

end stages

/-- The handle for the outgoing tokens is a production one. -/
structure OutboundGuarded (w : World) (ob : OAuth.Outbound) : Prop where
  enabled : ob.cfg.enabled = true
  method : ob.cfg.authMethod = .mtls
  noSecret : ob.cfg.secretRef = none
  url : envRequired w "NSSF_OAUTH2_OUTBOUND_TOKEN_URL" = some ob.cfg.tokenUrl
  https : hasPrefixCi ob.cfg.tokenUrl.toList "https://".toList = true
  identity : envRequired w "NSSF_NF_INSTANCE_ID" = some ob.cfg.nfInstanceId
  cert : (envRequired w "NSSF_OAUTH2_OUTBOUND_CLIENT_CERT").isSome
  key : (envRequired w "NSSF_OAUTH2_OUTBOUND_CLIENT_KEY").isSome
  ca : (envRequired w "NSSF_OAUTH2_OUTBOUND_CA").isSome

/-- What the process never serves without. -/
structure Guarded (w : World) (serving : Serving S) : Prop where
  enabled : serving.tls.enabled = true
  verifyPeer : serving.tls.sslCtx.verifyPeer = true
  failIfNoPeerCert : serving.tls.sslCtx.failIfNoPeerCert = true
  chain : envRequired w "NSSF_TLS_SERVER_CERT" = serving.tls.sslCtx.certificateChain
  key : envRequired w "NSSF_TLS_SERVER_KEY" = serving.tls.sslCtx.privateKey
  trust : envRequired w "NSSF_TLS_CLIENT_CA" = serving.tls.sslCtx.verifyLocations
  material : serving.tls.sslCtx.certificateChain.isSome ∧ serving.tls.sslCtx.privateKey.isSome ∧
    serving.tls.sslCtx.verifyLocations.isSome
  minProto : serving.tls.sslCtx.minProto = some .tls13 ∨
    serving.tls.sslCtx.minProto = some .tls12 ∧ w.getenv "NSSF_TLS_MIN_VERSION" = some "TLSv1.2"
  jwks : ∃ url, envRequired w "NSSF_OAUTH2_JWKS_URL" = some url ∧
    serving.jwks.jwksUrl = some url ∧ hasPrefixCi url.toList "https://".toList = true ∧
    serving.jwks.refreshEnabled = true
  outbound : (serving.outbound = none ↔ envFlag w "NSSF_OAUTH2_OUTBOUND_ENABLED" = false) ∧
    ∀ ob, serving.outbound = some ob → OutboundGuarded w ob
  port : 0 < serving.port ∧ serving.port ≤ 65535

section guards

variable {s s' : Main S} {w : World} {c : Config}

theorem orFree_some {ok : Bool} {make : Act S (Option α)} {a : α}
    (h : orFree ok make s = .ok (some a, s')) : make s = .ok (some a, s') := by
  cases ok with
  | true => exact h
  | false =>
    obtain ⟨u, s₁, -, hnone⟩ := Prog.bind_eq_ok.1 h
    cases hnone

theorem tlsContextCreate_some {cfg : TlsConfig} {o : OpenSsl} {tls : TlsContext}
    (h : tlsContextCreate cfg o s = .ok (some tls, s')) :
    ∃ cert key ca minProto, cfg.serverCertPath = some cert ∧ cfg.serverKeyPath = some key ∧
      cfg.clientCaPath = some ca ∧ resolveMinVersion cfg.minVersion = some minProto ∧
      tls = ⟨⟨some minProto, some cert, some key, some ca, true, true,
        nonempty cfg.tls13Ciphersuites, nonempty cfg.tls12CipherList⟩, cfg.enabled⟩ := by
  cases hcert : cfg.serverCertPath with
  | none =>
    rw [tlsContextCreate, hcert] at h
    cases h
  | some cert =>
  cases hkey : cfg.serverKeyPath with
  | none =>
    rw [tlsContextCreate, hcert, hkey] at h
    cases h
  | some key =>
  cases hca : cfg.clientCaPath with
  | none =>
    rw [tlsContextCreate, hcert, hkey, hca] at h
    cases h
  | some ca =>
  cases hmin : resolveMinVersion cfg.minVersion with
  | none =>
    rw [tlsContextCreate, hcert, hkey, hca, hmin] at h
    cases h
  | some minProto =>
    rw [tlsContextCreate, hcert, hkey, hca, hmin] at h
    cases hnew : o.new with
    | false =>
      simp only [hnew] at h
      cases h
    | true =>
      simp only [hnew] at h
      obtain ⟨u, s₁, -, h⟩ := Prog.bind_eq_ok.1 h
      iterate 8 replace h := orFree_some h
      obtain ⟨u, s₂, -, h⟩ := Prog.bind_eq_ok.1 h
      cases h
      exact ⟨cert, key, ca, minProto, rfl, rfl, rfl, rfl, rfl⟩

theorem objectNew_some {p : Part} {made : Option α} {a : α}
    (h : objectNew p made s = .ok (some a, s')) : made = some a := by
  cases made with
  | none => cases h
  | some b =>
    obtain ⟨u, s₁, -, h⟩ := Prog.bind_eq_ok.1 h
    cases h
    rfl

theorem jwksCreate_some {url : String} {calloc mutex strdup : Bool} {cache : Jwks.JwksCache S}
    (h : Jwks.createWithSchemePolicy (some url) 0 false calloc mutex strdup = some cache) :
    cache.jwksUrl = some url ∧ hasPrefixCi url.toList "https://".toList = true ∧
      cache.refreshEnabled = true := by
  simp only [Jwks.createWithSchemePolicy] at h
  split at h
  · rename_i hallowed
    split at h
    · cases h
    · split at h
      · cases h
        rw [Bool.and_eq_true_iff] at hallowed
        exact ⟨rfl, hallowed.2, rfl⟩
      · cases h
  · cases h

theorem isSome_jwksCreate : (Jwks.createWithSchemePolicy (some c.jwksUrl) 0 false w.jwksCalloc
    w.jwksMutex w.jwksStrdup : Option (Jwks.JwksCache S)).isSome = jwksGranted w c := by
  simp only [Jwks.createWithSchemePolicy, Jwks.cacheAlloc, jwksGranted]
  split
  · rename_i hallowed
    rw [hallowed]
    cases w.jwksCalloc <;> cases w.jwksMutex <;> cases w.jwksStrdup <;> rfl
  · rename_i hrefused
    rw [Bool.eq_false_iff.2 hrefused]
    rfl

theorem dupOrNull_some {v : Option String} {x : String} {e e' : Env}
    (h : OAuth.dupOrNull v e = .ok (some x, e')) : v = some x := by
  cases v with
  | none => cases h
  | some y =>
    simp only [OAuth.dupOrNull, Run.allocated_apply] at h
    split at h <;> cases h
    rfl

theorem dupOrNull_none {x : Option String} {e e' : Env}
    (h : OAuth.dupOrNull none e = .ok (x, e')) : x = none := by
  cases h
  rfl

theorem outboundCreate_some {cfg : OAuth.OutboundConfig} {e e' : Env} {ob : OAuth.Outbound}
    (h : OAuth.outboundCreate cfg e = .ok (some ob, e')) :
    ob.cfg.enabled = cfg.enabled ∧ ob.cfg.authMethod = cfg.authMethod ∧
      cfg.tokenUrl = some ob.cfg.tokenUrl ∧ cfg.nfInstanceId = some ob.cfg.nfInstanceId ∧
      (cfg.secretRef = none → ob.cfg.secretRef = none) ∧
      hasPrefixCi ob.cfg.tokenUrl.toList "https://".toList = true := by
  unfold OAuth.outboundCreate OAuth.createWithSchemePolicy at h
  split_ifs at h with hallowed
  · obtain ⟨granted, e₁, -, h⟩ := Prog.bind_eq_ok.1 h
    cases granted with
    | false => cases h
    | true =>
      obtain ⟨tokenUrl, e₂, htoken, h⟩ := Prog.bind_eq_ok.1 h
      obtain ⟨nfInstanceId, e₃, hnf, h⟩ := Prog.bind_eq_ok.1 h
      obtain ⟨secretRef, e₄, hsecret, h⟩ := Prog.bind_eq_ok.1 h
      obtain ⟨defaultScope, e₅, -, h⟩ := Prog.bind_eq_ok.1 h
      split at h
      · cases h
        rename_i url nf scope
        have hurl := dupOrNull_some htoken
        refine ⟨rfl, rfl, hurl, dupOrNull_some hnf, fun hnone => ?_, ?_⟩
        · rw [hnone] at hsecret
          exact dupOrNull_none hsecret
        · rw [hurl, Bool.and_eq_true_iff] at hallowed
          exact (Bool.and_eq_true_iff.1 hallowed.1).2
      · cases h
  · cases h

theorem envPort_range (w : World) (name : String) {fallback : ℕ} (h : 0 < fallback)
    (h' : fallback ≤ 65535) : 0 < envPort w name fallback ∧ envPort w name fallback ≤ 65535 := by
  rw [envPort]
  split
  · exact ⟨h, h'⟩
  · split
    · exact ⟨h, h'⟩
    · omega

theorem tls_guarded {tls : TlsContext} {o : OpenSsl}
    (h : tlsContextCreate (tlsConfig w c) o s = .ok (some tls, s')) :
    tls.enabled = true ∧ tls.sslCtx.verifyPeer = true ∧ tls.sslCtx.failIfNoPeerCert = true ∧
      tls.sslCtx.certificateChain = some c.cert ∧ tls.sslCtx.privateKey = some c.key ∧
      tls.sslCtx.verifyLocations = some c.ca ∧
      (tls.sslCtx.minProto = some .tls13 ∨ tls.sslCtx.minProto = some .tls12 ∧
        w.getenv "NSSF_TLS_MIN_VERSION" = some "TLSv1.2") := by
  obtain ⟨cert, key, ca, minProto, hcert, hkey, hca, hmin, rfl⟩ := tlsContextCreate_some h
  refine ⟨rfl, rfl, rfl, hcert.symm, hkey.symm, hca.symm, ?_⟩
  simp only [tlsConfig, resolveMinVersion] at hmin
  split at hmin
  · exact .inl hmin.symm
  · rename_i v hv
    split at hmin
    · exact .inl hmin.symm
    · split at hmin
      · rename_i hv'
        rw [hv'] at hv
        exact .inr ⟨hmin.symm, hv⟩
      · cases hmin

theorem outbound_guarded {cfg : OAuth.OutboundConfig} {ob : OAuth.Outbound}
    (hcfg : outboundConfig w = some cfg)
    (h : (Prog.result? (OAuth.outboundCreate cfg) w.outbound).join = some ob) :
    OutboundGuarded w ob := by
  rw [Option.join_eq_some_iff] at h
  obtain ⟨e', hrun⟩ := Prog.exists_of_result? h
  obtain ⟨henabled, hmethod, hurl, hnf, hsecret, hhttps⟩ := outboundCreate_some hrun
  simp only [outboundConfig, Option.bind_eq_bind, Option.bind_eq_some_iff] at hcfg
  obtain ⟨tokenUrl, htoken, nfId, hid, cert, hcert, key, hkey, ca, hca, hcfg⟩ := hcfg
  cases hcfg
  refine ⟨henabled, hmethod, hsecret rfl, ?_, hhttps, ?_, ?_, ?_, ?_⟩
  · rw [htoken]
    exact hurl
  · rw [hid]
    exact hnf
  · rw [hcert]
    rfl
  · rw [hkey]
    rfl
  · rw [hca]
    rfl

end guards

/-- How the way up ends: some part could not be made, and nothing is lost but what the maker of the
server may lose, or all are there and were served. -/
inductive Ended (w : World) (c : Config) : Bool → Main S → Prop
  | failed {s : Main S} {lost : List (Part × Kind)} (h : Stage [.server] lost s) (hi : Idle s)
      (hlost : lost = [] ∨ lost = w.server.lost) (hnot : complete w c = false) :
      Ended w c false s
  | served {s : Main S} {serving : Serving S} (h : Stage [] [] s)
      (hserving : s.serving = some serving) (hg : Guarded w serving)
      (hall : complete w c = true) : Ended w c (!w.alive) s

section bringUp

variable {s s' : Main S} {w : World} {c : Config} {lost : List (Part × Kind)} {p : Part}
  {todo : List Part} {granted : Bool} {make : Act S (Option α)}

/-- The way up goes on with the part that is made, or ends. -/
theorem then_assign {k : Option α → Act S Bool} (h : Stage (p :: todo) [] s) (hi : Idle s)
    (hmake : Finishes s [] p lost granted make) (hnone : k none = pure false)
    (hp : p ∉ todo ∧ .server ∈ p :: todo) (hlost : lost = [] ∨ lost = w.server.lost)
    (hnot : granted = false → complete w c = false)
    (hk : granted = true → ∀ a s', Stage todo [] s' → Idle s' → s'.slot p = .live →
      (∃ s₁, make s = .ok (some a, s₁)) → Prog.wp (k (some a)) (Ended w c) s') :
    Prog.wp (assign p make >>= k) (Ended w c) s := by
  rcases assign_stage h hi hp.1 hmake with ⟨hgranted, s', hrun, hstage, hidle⟩ |
    ⟨hgranted, a, s', hrun, hstage, hidle, hlive, hmade⟩
  · rw [Prog.wp_bind_of_ok hrun, hnone, Prog.wp_pure]
    exact .failed (hstage.only hp.2) hidle hlost (hnot hgranted)
  · rw [Prog.wp_bind_of_ok hrun]
    exact hk hgranted a s' hstage hidle hlive hmade

theorem setServer_ok (v : Bool) (hs : s.gServer = true → s.slot .server = .live) :
    ∃ s', setServer v s = .ok ((), { s' with gServer := v }) ∧ Took [] s s' := by
  obtain ⟨s₁, hrun, htook⟩ := onSignal_ok hs
  rw [setServer, Prog.bind_of_ok hrun]
  exact ⟨s₁, rfl, htook⟩

theorem serve_ended {serving : Serving S} (h : Stage [] [] s)
    (hlive : s.slot .server = .live) (hg : Guarded w serving) (hall : complete w c = true) :
    Prog.wp (serve w serving) (Ended w c) s := by
  obtain ⟨s₁, hset, htook₁⟩ := setServer_ok true h.ready.signal
  have hstage₁ : Stage [] [] { s₁ with gServer := true } := by
    have hlose := h.lose htook₁
    refine ⟨⟨fun _ => ?_, hlose.ready.kept⟩, hlose.balanced, hlose.todo⟩
    simp only [htook₁.slot]
    exact hlive
  obtain ⟨s₂, hrun₂, htook₂⟩ := runCallbacks_ok hstage₁.ready
  have hstage₂ : Stage [] [] { s₂ with serving := some serving } := by
    have hlose := hstage₁.lose htook₂
    exact ⟨⟨hlose.ready.signal, hlose.ready.kept⟩, hlose.balanced, hlose.todo⟩
  obtain ⟨s₃, hrun₃, htook₃⟩ := runCallbacks_ok hstage₂.ready
  have hstep : (fun s => .ok ((), { s with serving := some serving }) : Act S Unit) s₂ =
      .ok ((), { s₂ with serving := some serving }) := rfl
  rw [serve, Prog.wp_bind_of_ok hset, Prog.wp_bind_of_ok hrun₂, Prog.wp_bind_of_ok hstep,
    Prog.wp_bind_of_ok hrun₃, Prog.wp_pure]
  exact .served (hstage₂.lose htook₃) htook₃.serving hg hall

/-- What the handle for outgoing tokens is, if there is one. -/
def OutboundPosture (w : World) (outbound : Option OAuth.Outbound) : Prop :=
  (outbound = none ↔ envFlag w "NSSF_OAUTH2_OUTBOUND_ENABLED" = false) ∧
    ∀ ob, outbound = some ob → OutboundGuarded w ob

theorem then_outbound {k : Option (Option OAuth.Outbound) → Act S Bool}
    (h : Stage (.oauth :: todo) [] s) (hi : Idle s) (hnone : k none = pure false)
    (hp : .oauth ∉ todo ∧ .server ∈ Part.oauth :: todo)
    (hnot : outboundGranted w = false → complete w c = false)
    (hk : outboundGranted w = true → ∀ outbound s', Stage todo [] s' → Idle s' →
      OutboundPosture w outbound → Prog.wp (k (some outbound)) (Ended w c) s') :
    Prog.wp (outboundPart w >>= k) (Ended w c) s := by
  rw [outboundPart]
  cases hflag : envFlag w "NSSF_OAUTH2_OUTBOUND_ENABLED" with
  | false =>
    have hgranted : outboundGranted w = true := by simp [outboundGranted, hflag]
    have hskip : Stage todo [] s :=
      ⟨h.ready, h.balanced, fun q hq => h.todo q (List.mem_cons_of_mem _ hq)⟩
    refine hk hgranted none s hskip hi ⟨iff_of_true rfl hflag, fun ob hob => ?_⟩
    cases hob
  | true =>
    cases hcfg : outboundConfig w with
    | none =>
      have hgranted : outboundGranted w = false := by simp [outboundGranted, hflag, hcfg]
      have hfail : Prog.wp (k none) (Ended w c) s := by
        rw [hnone, Prog.wp_pure]
        exact .failed (h.only hp.2) hi (.inl rfl) (hnot hgranted)
      exact hfail
    | some cfg =>
      have hmade : outboundGranted w = (madeOutbound w cfg).isSome := by
        simp [outboundGranted, hflag, hcfg]
      rw [hmade] at hnot hk
      simp only [if_true, bind_assoc]
      refine then_assign h hi (objectNew_finishes h.ready _ rfl) ?_ hp (.inl rfl) hnot ?_
      · rw [pure_bind, hnone]
      · intro hgranted ob s' hstage hidle hlive hmade
        obtain ⟨s₁, hmade⟩ := hmade
        rw [pure_bind]
        refine hk hgranted (some ob) s' hstage hidle ⟨iff_of_false (by simp) (by simp [hflag]), ?_⟩
        intro ob' hob
        cases hob
        exact outbound_guarded hcfg (objectNew_some hmade)

theorem bringUpServer_ended {tls : TlsContext} {jwks : Jwks.JwksCache S}
    (h : Stage [.oauth, .dispatcher, .availEngine, .router, .server] [] s) (hi : Idle s)
    (hg : ∀ outbound, OutboundPosture w outbound →
      Guarded w ⟨tls, jwks, outbound, c.bindAddress, c.port⟩)
    (hc : complete w c = (outboundGranted w && w.dispatcherCalloc && w.availEngineCalloc &&
      w.routerCalloc && w.server.granted)) :
    Prog.wp (bringUpServer w c tls jwks) (Ended w c) s := by
  rw [bringUpServer]
  refine then_outbound h hi rfl (by decide) (fun g => by rw [hc, g]; rfl)
    fun g₁ outbound s₁ h₁ i₁ hposture => ?_
  refine then_assign h₁ i₁ (recordNew_finishes h₁.ready _ rfl) rfl (by decide) (.inl rfl)
    (fun g => by simp [hc, g]) fun g₂ _ s₂ h₂ i₂ _ _ => ?_
  refine then_assign h₂ i₂ (recordNew_finishes h₂.ready _ rfl) rfl (by decide) (.inl rfl)
    (fun g => by simp [hc, g]) fun g₃ _ s₃ h₃ i₃ _ _ => ?_
  refine then_assign h₃ i₃ (recordNew_finishes h₃.ready _ rfl) rfl (by decide) (.inl rfl)
    (fun g => by simp [hc, g]) fun g₄ _ s₄ h₄ i₄ _ _ => ?_
  refine then_assign h₄ i₄ (serverCreate_finishes h₄.ready _) rfl (by decide) (.inr rfl)
    (fun g => by simp [hc, g]) fun g₅ _ s₅ h₅ _ hlive _ => ?_
  refine serve_ended h₅ hlive (hg outbound hposture) ?_
  rw [hc, g₁, g₂, g₃, g₄, g₅]
  rfl

theorem bringUp_ended (hc : config w = some c)
    (h : Stage [.tls, .jwks, .repo, .engine, .subStore, .retryStore, .oauth, .dispatcher,
      .availEngine, .router, .server] [] s) (hi : Idle s) :
    Prog.wp (bringUp w c) (Ended w c) s := by
  rw [bringUp]
  refine then_assign h hi (tlsContextCreate_finishes h.ready _ _) rfl (by decide) (.inl rfl)
    (fun g => by simp [complete, g]) fun g₁ tls s₁ h₁ i₁ _ htls => ?_
  refine then_assign h₁ i₁ (objectNew_finishes h₁.ready _ rfl) rfl (by decide) (.inl rfl)
    (fun g => by rw [isSome_jwksCreate] at g; simp [complete, g]) fun g₂ jwks s₂ h₂ i₂ _ hjwks => ?_
  refine then_assign h₂ i₂ (storeNewPg_finishes h₂.ready _ rfl) rfl (by decide) (.inl rfl)
    (fun g => by simp [complete, g]) fun g₃ _ s₃ h₃ i₃ _ _ => ?_
  refine then_assign h₃ i₃ (recordNew_finishes h₃.ready _ rfl) rfl (by decide) (.inl rfl)
    (fun g => by simp [complete, g]) fun g₄ _ s₄ h₄ i₄ _ _ => ?_
  refine then_assign h₄ i₄ (storeNewPg_finishes h₄.ready _ rfl) rfl (by decide) (.inl rfl)
    (fun g => by simp [complete, g]) fun g₅ _ s₅ h₅ i₅ _ _ => ?_
  refine then_assign h₅ i₅ (storeNewPg_finishes h₅.ready _ rfl) rfl (by decide) (.inl rfl)
    (fun g => by simp [complete, g]) fun g₆ _ s₆ h₆ i₆ _ _ => ?_
  rw [isSome_jwksCreate] at g₂
  refine bringUpServer_ended h₆ i₆ (fun outbound hposture => ?_) ?_
  · obtain ⟨t, htls⟩ := htls
    obtain ⟨t', hjwks⟩ := hjwks
    obtain ⟨henabled, hverify, hfail, hcert, hkey, hca, hmin⟩ := tls_guarded htls
    obtain ⟨hurl, hhttps, hrefresh⟩ := jwksCreate_some (objectNew_some hjwks)
    simp only [config, Option.bind_eq_bind, Option.bind_eq_some_iff] at hc
    obtain ⟨cert, hcert', key, hkey', ca, hca', url, hurl', conninfo, -, hc⟩ := hc
    cases hc
    exact
      { enabled := henabled
        verifyPeer := hverify
        failIfNoPeerCert := hfail
        chain := hcert'.trans hcert.symm
        key := hkey'.trans hkey.symm
        trust := hca'.trans hca.symm
        material := by simp [hcert, hkey, hca]
        minProto := hmin
        jwks := ⟨url, hurl', hurl, hhttps, hrefresh⟩
        outbound := hposture
        port := envPort_range w _ (by decide) (by decide) }
  · simp [complete, g₁, g₂, g₃, g₄, g₅, g₆]

end bringUp

/-- On the way down: what is held belongs to the live parts. Only the server, which goes first,
looks at the others. -/
structure Down (todo : List Part) (lost : List (Part × Kind)) (s : Main S) : Prop where
  gServer : s.gServer = false
  balanced : Balanced lost s
  done : ∀ p ∉ todo, s.slot p ≠ .live
  kept : ∀ p ∈ todo, s.slot p ≠ .freed

section cleanup

variable {s s' : Main S} {lost : List (Part × Kind)} {p : Part} {todo : List Part}

theorem releaseAll_ok (hg : s.gServer = false) (ks : List Kind)
    (hheld : ∀ k, ks.count k ≤ s.held (p, k)) :
    ∃ s', releaseAll p ks s = .ok ((), s') ∧ Took (ks.map fun k => (p, k)) s' s := by
  induction ks generalizing s with
  | nil => exact ⟨s, rfl, Took.refl s⟩
  | cons k ks ih =>
    have hk := hheld k
    rw [List.count_cons_self] at hk
    obtain ⟨s₁, hrun, htook⟩ := @release_ok _ s p k (by simp [hg]) (by omega)
    have hg₁ : s₁.gServer = false := htook.gServer.symm.trans hg
    obtain ⟨s', hrun', htook'⟩ := ih hg₁ fun k' => by
      have hfirst := hheld k'
      have hsecond := htook.held (p, k')
      rw [List.count_cons] at hfirst hsecond
      rw [List.count_nil] at hsecond
      by_cases hkk : k = k'
      · subst hkk
        simp at hfirst hsecond
        omega
      · have hne : ¬(p, k) = (p, k') := fun h => hkk (Prod.mk.inj h).2
        simp [hkk, hne] at hfirst hsecond
        omega
    refine ⟨s', ?_, ?_⟩
    · rw [releaseAll, Prog.bind_of_ok hrun, hrun']
    · have hboth := htook'.trans htook
      rw [List.map_cons]
      exact hboth

theorem count_kinds (p : Part) (k : Kind) : p.kinds.count k = if k ∈ p.kinds then 1 else 0 :=
  (kinds_nodup p).count

theorem count_pairs (p q : Part) (k : Kind) (ks : List Kind) :
    (ks.map fun k => (p, k)).count (q, k) = if q = p then ks.count k else 0 := by
  by_cases hq : q = p
  · subst hq
    rw [if_pos rfl]
    exact List.count_map_of_injective ks _ (Prod.mk_right_injective q) k
  · rw [if_neg hq, List.count_eq_zero]
    intro hin
    obtain ⟨k', -, heq⟩ := List.mem_map.1 hin
    exact hq (Prod.mk.inj heq).1.symm

/-- A live part goes; what is not released of it is lost. -/
theorem release_place (hg : s.gServer = false) (hb : Balanced lost s) (hlive : s.slot p = .live)
    {ks rest : List Kind} (hks : (ks ++ rest).Perm p.kinds) :
    ∃ s', (do releaseAll p ks; place p .freed : Act S Unit) s = .ok ((), s') ∧
      s'.slot = Function.update s.slot p .freed ∧ s'.gServer = false ∧
      s'.serving = s.serving ∧ Balanced (rest.map (fun k => (p, k)) ++ lost) s' := by
  have hcount : ∀ k, ks.count k + rest.count k = if k ∈ p.kinds then 1 else 0 := by
    intro k
    rw [← List.count_append, hks.count_eq, count_kinds]
  have hdue : ∀ k, s.due (p, k) = if k ∈ p.kinds then 1 else 0 := by
    intro k
    simp [Main.due, hlive]
  obtain ⟨s₁, hrun, htook⟩ := @releaseAll_ok _ s p hg ks fun k => by
    have hfirst := hcount k
    have hsecond := hb (p, k)
    rw [hdue] at hsecond
    omega
  have hg₁ : s₁.gServer = false := htook.gServer.symm.trans hg
  obtain ⟨s₂, hplace, hsame⟩ := @place_ok _ s₁ p .freed (by simp [hg₁])
  rw [← htook.slot] at hplace
  refine ⟨{ s₂ with slot := Function.update s.slot p .freed }, ?_, rfl, hsame.gServer.trans hg₁,
    hsame.serving.trans htook.serving.symm, fun r => ?_⟩
  · rw [Prog.bind_of_ok hrun]
    exact hplace
  · obtain ⟨q, k⟩ := r
    have hheld := htook.held (q, k)
    have hbefore := hb (q, k)
    have hkinds := hcount k
    have hafter : s₂.held (q, k) = s₁.held (q, k) := by
      rw [hsame.held, List.count_nil, Nat.add_zero]
    rw [count_pairs] at hheld
    rw [List.count_append, count_pairs]
    by_cases hq : q = p
    · subst hq
      rw [hdue] at hbefore
      simp only [Main.due, Function.update_self, hafter, if_true] at hheld ⊢
      simp only [reduceCtorEq, false_and, if_false]
      omega
    · simp only [Main.due, Function.update_of_ne hq, if_neg hq] at hheld hbefore ⊢
      omega

def Part.stays (alive : Bool) : Part → List Kind
  | .server => if alive then [.loop] else []
  | _ => []

theorem destroyed_stays (alive : Bool) (p : Part) :
    (p.destroyed alive ++ p.stays alive).Perm p.kinds := by
  cases p <;> cases alive <;> decide

/-- What a part leaves behind when it goes. -/
def Main.left (s : Main S) (alive : Bool) (p : Part) : List (Part × Kind) :=
  if s.slot p = .live then (p.stays alive).map fun k => (p, k) else []

theorem down_place (h : Down (p :: todo) lost s) (hp : p ∉ todo) {left : List (Part × Kind)}
    (hslot : s'.slot = Function.update s.slot p .freed) (hg : s'.gServer = false)
    (hb : Balanced left s') : Down todo left s' := by
  refine ⟨hg, hb, fun q hq => ?_, fun q hq => ?_⟩
  · rw [hslot]
    by_cases hqp : q = p
    · simp [hqp]
    · rw [Function.update_of_ne hqp]
      refine h.done q fun hin => ?_
      rcases List.mem_cons.1 hin with hin | hin
      · exact hqp hin
      · exact hq hin
  · have hne : q ≠ p := by
      rintro rfl
      exact hp hq
    rw [hslot, Function.update_of_ne hne]
    exact h.kept q (List.mem_cons_of_mem _ hq)

theorem Down.took (h : Down todo lost s) (ht : Took [] s s') : Down todo lost s' := by
  refine ⟨ht.gServer.trans h.gServer, fun r => ?_, fun q hq => ?_, fun q hq => ?_⟩
  · rw [ht.held, List.count_nil, Nat.add_zero, h.balanced]
    simp only [Main.due, ht.slot]
  · rw [ht.slot]
    exact h.done q hq
  · rw [ht.slot]
    exact h.kept q hq

/-- The server's loop turns once more before it goes, over parts that are all there. -/
theorem turn_ok (hg : s.gServer = false) (h : p = .server → ∀ q, s.slot q ≠ .freed) :
    ∃ s', turn p s = .ok ((), s') ∧ Took [] s s' := by
  rw [turn]
  by_cases hp : p = .server
  · rw [if_pos hp]
    exact runCallbacks_ok ⟨by simp [hg], h hp⟩
  · rw [if_neg hp]
    exact ⟨s, rfl, Took.refl s⟩

theorem freePart_ok (alive : Bool) (h : Down (p :: todo) lost s) (hp : p ∉ todo)
    (hserver : p = .server → ∀ q, s.slot q ≠ .freed) :
    ∃ s', freePart alive p s = .ok ((), s') ∧ Down todo (s.left alive p ++ lost) s' ∧
      s'.serving = s.serving := by
  obtain ⟨s₁, hrun, htook⟩ := @onSignal_ok _ s (by simp [h.gServer])
  have hdown := h.took htook
  have hread : (fun s => .ok (s.slot p, s) : Act S Slot) s₁ = .ok (s.slot p, s₁) := by
    rw [← htook.slot]
  have hkept := h.kept p List.mem_cons_self
  rw [freePart, Prog.bind_of_ok hrun, Prog.bind_of_ok hread]
  cases hslot : s.slot p with
  | freed => exact absurd hslot hkept
  | null =>
    have hleft : s.left alive p = [] := by simp [Main.left, hslot]
    rw [hleft]
    refine ⟨s₁, rfl, ⟨hdown.gServer, hdown.balanced, fun q hq => ?_, fun q hq => ?_⟩,
      htook.serving⟩
    · by_cases hqp : q = p
      · rw [htook.slot, hqp, hslot]
        decide
      · exact hdown.done q fun hin => (List.mem_cons.1 hin).elim hqp hq
    · exact hdown.kept q (List.mem_cons_of_mem _ hq)
  | live =>
    have hleft : s.left alive p = (p.stays alive).map fun k => (p, k) := by
      simp [Main.left, hslot]
    obtain ⟨s₂, hturn, htook₂⟩ := @turn_ok _ s₁ p hdown.gServer (by rw [htook.slot]; exact hserver)
    have hdown₂ := hdown.took htook₂
    have hlive : s₂.slot p = .live := by rw [htook₂.slot, htook.slot, hslot]
    obtain ⟨s₃, hgo, hslot₃, hg₃, hserving₃, hb₃⟩ := release_place hdown₂.gServer hdown₂.balanced
      hlive (destroyed_stays alive p)
    rw [hleft]
    refine ⟨s₃, ?_, down_place hdown₂ hp hslot₃ hg₃ hb₃,
      hserving₃.trans (htook₂.serving.trans htook.serving)⟩
    simp only
    rw [Prog.bind_of_ok hturn, hgo]

theorem freeParts_ok (alive : Bool) (h : Down todo lost s) (hnodup : todo.Nodup)
    (hserver : .server ∉ todo) :
    ∃ s', freeParts alive todo s = .ok ((), s') ∧ Down [] lost s' ∧ s'.serving = s.serving := by
  induction todo generalizing s with
  | nil => exact ⟨s, rfl, h, rfl⟩
  | cons p todo ih =>
    obtain ⟨hp, hrest⟩ := List.nodup_cons.1 hnodup
    have hne : p ≠ .server := fun heq => hserver (heq ▸ List.mem_cons_self)
    obtain ⟨s₁, hrun, hdown, hserving⟩ := freePart_ok alive h hp fun heq => absurd heq hne
    have hleft : s.left alive p = [] := by
      have hstays : p.stays alive = [] := by
        cases p <;> first | rfl | exact absurd rfl hne
      simp [Main.left, hstays]
    rw [hleft, List.nil_append] at hdown
    obtain ⟨s', hrun', hdown', hserving'⟩ := ih hdown hrest fun hin =>
      hserver (List.mem_cons_of_mem _ hin)
    refine ⟨s', ?_, hdown', hserving'.trans hserving⟩
    rw [freeParts, Prog.bind_of_ok hrun, hrun']

theorem cleanup_ok (alive : Bool) (h : Stage todo lost s) :
    ∃ s', cleanup alive s = .ok ((), s') ∧ Down [] (s.left alive .server ++ lost) s' ∧
      s'.serving = s.serving := by
  obtain ⟨s₁, hset, htook⟩ := setServer_ok false h.ready.signal
  have hstage := h.lose htook
  have hdown : Down [.server, .router, .availEngine, .dispatcher, .oauth, .retryStore, .subStore,
      .engine, .repo, .jwks, .tls] lost { s₁ with gServer := false } := by
    refine ⟨rfl, hstage.balanced, fun q hq => ?_, fun q _ => hstage.ready.kept q⟩
    cases q <;> exact absurd (by decide) hq
  obtain ⟨s₂, hserver, hdown₂, hserving₂⟩ := freePart_ok alive hdown (by decide)
    fun _ => hstage.ready.kept
  obtain ⟨s₃, hrest, hdown₃, hserving₃⟩ := freeParts_ok alive hdown₂ (by decide) (by decide)
  have hleft : ({ s₁ with gServer := false } : Main S).left alive .server =
      s.left alive .server := by
    simp only [Main.left, htook.slot]
  rw [hleft] at hdown₃
  refine ⟨s₃, ?_, hdown₃, hserving₃.trans (hserving₂.trans htook.serving)⟩
  rw [cleanup, Prog.bind_of_ok hset, freeParts, Prog.bind_of_ok hserver, hrest]

end cleanup

section runs

variable {w : World} {signals : Stream' Bool}

theorem stage_start : Stage [.tls, .jwks, .repo, .engine, .subStore, .retryStore, .oauth,
    .dispatcher, .availEngine, .router, .server] [] (Main.start signals : Main S) := by
  refine ⟨⟨fun h => ?_, fun p h => ?_⟩, fun r => ?_, fun p _ => rfl⟩
  · cases h
  · cases h
  · simp [Main.start, Main.due]

/-- What may be left over: the loop of a server that could not be made, or one that returned with
something left in it. -/
def leftOver (w : World) (served : Bool) : List (Part × Kind) :=
  if served then if w.alive then [(.server, .loop)] else [] else w.server.lost

/-- Whatever the environment, the constructors and the signals do, the process comes to its end
without touching what is gone; each part that was made is freed, once, and what was taken for it is
given back; it serves only behind verified clients, keys fetched over https and, where tokens are
asked for, a production handle; and it exits with success just when it served and the loop ran
dry. -/
theorem main_safe (w : World) (signals : Stream' Bool) :
    ∃ code, ∃ s : Main S, main w (.start signals) = .ok (code, s) ∧
      (∀ p, s.slot p ≠ .live) ∧
      (∀ r, s.held r ≤ (leftOver w s.serving.isSome).count r) ∧
      (s.serving.isSome = true ↔ ∃ c, config w = some c ∧ complete w c = true) ∧
      (code = true ↔ s.serving.isSome = true ∧ w.alive = false) ∧
      ∀ serving, s.serving = some serving → Guarded w serving := by
  rw [main]
  cases hc : config w with
  | none =>
    refine ⟨false, .start signals, rfl, fun p h => ?_, fun r => Nat.zero_le _, ?_, ?_,
      fun serving h => ?_⟩
    · cases h
    · refine iff_of_false Bool.noConfusion fun h => ?_
      obtain ⟨c, h, -⟩ := h
      cases h
    · exact iff_of_false Bool.noConfusion fun h => Bool.noConfusion h.1
    · cases h
  | some c =>
    have hstart : Idle (Main.start signals : Main S) := ⟨rfl, rfl⟩
    obtain ⟨code, s₁, hrun, hended⟩ := bringUp_ended hc stage_start hstart
    have hmain : ∀ {s₂ : Main S}, cleanup w.alive s₁ = .ok ((), s₂) →
        (do
          let code ← bringUp w c
          cleanup w.alive
          return code : Act S Bool) (.start signals) = .ok (code, s₂) := by
      intro s₂ hclean
      rw [Prog.bind_of_ok hrun, Prog.bind_of_ok hclean]
      rfl
    cases hended with
    | @failed _ lost h hi hlost hnot =>
      obtain ⟨s₂, hclean, hdown, hsame⟩ := cleanup_ok w.alive h
      have hnull := h.todo .server List.mem_cons_self
      rw [hi.serving] at hsame
      refine ⟨_, s₂, hmain hclean, fun p => hdown.done p List.not_mem_nil, fun r => ?_, ?_, ?_, ?_⟩
      · have hbalanced := hdown.balanced r
        simp only [Main.due, hdown.done r.1 List.not_mem_nil, Main.left, hnull] at hbalanced
        rw [hsame]
        rcases hlost with rfl | rfl <;> simp [hbalanced, leftOver]
      · rw [hsame]
        refine iff_of_false Bool.noConfusion fun hall => ?_
        obtain ⟨c', hc', hall⟩ := hall
        cases hc'
        rw [hnot] at hall
        cases hall
      · simp [hsame]
      · intro serving h'
        rw [hsame] at h'
        cases h'
    | served h hserving hg hall =>
      obtain ⟨s₂, hclean, hdown, hsame⟩ := cleanup_ok w.alive h
      rw [hserving] at hsame
      refine ⟨_, s₂, hmain hclean, fun p => hdown.done p List.not_mem_nil, fun r => ?_, ?_, ?_, ?_⟩
      · have hbalanced : s₂.held r = (s₁.left w.alive .server).count r := by
          simpa [Main.due, hdown.done r.1 List.not_mem_nil] using hdown.balanced r
        rw [hsame, hbalanced, Main.left]
        cases halive : w.alive with
        | false => simp [Part.stays]
        | true =>
          simp only [Part.stays, leftOver, halive, Option.isSome_some, if_true]
          split
          · exact le_refl _
          · exact Nat.zero_le _
      · rw [hsame]
        exact iff_of_true rfl ⟨c, rfl, hall⟩
      · simp [hsame]
      · intro serving' h'
        rw [hsame] at h'
        cases h'
        exact hg

end runs

end Bootstrap

end Nssf
