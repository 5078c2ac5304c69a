import Nssf.Base.Faulting

/-! The connections of the server and what they own. The event loop calls back, a callback asks
libuv, the TLS library and the session for what they are ready to do, and what it is answered
is part of the event. A call on something that is not there is a fault. -/

namespace Nssf

open Base

namespace Connections

/-- What a pointer leads to. -/
inductive Res where
  | null
  | live
  | freed
  deriving DecidableEq

/-- A handle of the loop. Only an active one is reported on, only an active or closing one keeps
the loop alive. -/
inductive Handle where
  | none
  | idle
  | active
  | closing
  | closed
  deriving DecidableEq

inductive Fault where
  | null
  | freed
  | handle
  | notAllocated
  deriving DecidableEq

/-- The record of a connection. `memory` is the record itself, `biosSet` says that the TLS object
owns the two buffers. `blocks` counts what was allocated on the way and is not freed, `writes` what
libuv has accepted to write and not reported. -/
structure Conn where
  memory : Res
  handle : Handle
  ssl : Res
  readBio : Res
  writeBio : Res
  biosSet : Bool
  session : Res
  handshakeDone : Bool
  closing : Bool
  blocks : ℕ
  writes : ℕ
  deriving DecidableEq

def Conn.fresh : Conn := ⟨.live, .none, .null, .null, .null, false, .null, false, false, 0, 0⟩

abbrev Act := Prog Conn Fault

def deref : Res → Act Unit
  | .live => pure ()
  | .null => fun _ => .error .null
  | .freed => fun _ => .error .freed

def load {α : Type} (f : Conn → α) : Act α := do
  deref (← fun c => .ok (c.memory, c))
  fun c => .ok (f c, c)

def store (f : Conn → Conn) : Act Unit := do
  deref (← fun c => .ok (c.memory, c))
  fun c => .ok ((), f c)

/-- A call of a library on what a field of the record points to. -/
def use (f : Conn → Res) : Act Unit := do
  deref (← load f)

def malloc (granted : Bool) : Act Bool := fun c =>
  .ok (granted, if granted then { c with blocks := c.blocks + 1 } else c)

def free : Act Unit := fun c =>
  if c.blocks = 0 then .error .notAllocated else .ok ((), { c with blocks := c.blocks - 1 })

/-- The record may go only when the loop is done with its handle. -/
def freeConn : Act Unit := do
  match ← load Conn.handle with
  | .none => store fun c => { c with memory := .freed }
  | .closed => store fun c => { c with memory := .freed }
  | _ => fun _ => .error .handle

def uvIsClosing : Act Bool := load fun c => c.handle == .closing || c.handle == .closed

def uvClose : Act Unit := do
  match ← load Conn.handle with
  | .idle => store fun c => { c with handle := .closing }
  | .active => store fun c => { c with handle := .closing }
  | _ => fun _ => .error .handle

def uvWrite (accepted : Bool) : Act Bool := do
  store fun c => if accepted then { c with writes := c.writes + 1 } else c
  return accepted

def connClose : Act Unit := do
  if ← load Conn.closing then return
  store fun c => { c with closing := true }
  if ← uvIsClosing then return
  uvClose

/-- A round of the loop that finds something pending. -/
structure FlushTurn where
  buffer : Bool
  read : Bool
  request : Bool
  accepted : Bool

/-- The rounds are those that find something pending. -/
def flushWriteBio : List FlushTurn → Act Unit
  | [] => use Conn.writeBio
  | t :: turns => do
    use Conn.writeBio
    if !(← malloc t.buffer) then connClose
    else
      use Conn.writeBio
      if !t.read then free
      else if !(← malloc t.request) then
        free
        connClose
      else if !(← uvWrite t.accepted) then
        free
        free
        connClose
      else flushWriteBio turns

inductive SslWrite where
  | done
  | wants
  | failed
  deriving DecidableEq

inductive Sent where
  | done
  | wouldBlock
  | failure
  deriving DecidableEq

def sendCb (w : SslWrite) : Act Sent := do
  if !(← load Conn.handshakeDone) then return .wouldBlock
  use Conn.ssl
  match w with
  | .done => return .done
  | .wants => return .wouldBlock
  | .failed => return .failure

/-- The session sends until nothing is left, the callback would block, or it fails. `ok` is
whether the session itself is well at the end. -/
def sessionSend (ok : Bool) : List SslWrite → Act Bool
  | [] => do
    use Conn.session
    return ok
  | w :: writes => do
    use Conn.session
    match ← sendCb w with
    | .done => sessionSend ok writes
    | .wouldBlock => return ok
    | .failure => return false

structure SendTurn where
  writes : List SslWrite
  sessionOk : Bool
  flush : List FlushTurn
  wantRead : Bool
  wantWrite : Bool

/-- The second half: what the session has written goes out, and a session that is through
closes the connection. -/
def flushSent (t : SendTurn) : Act Unit := do
  flushWriteBio t.flush
  if (← load Conn.session) = .null then return
  use Conn.session
  if t.wantRead then return
  use Conn.session
  if t.wantWrite then return
  connClose

def trySend (t : SendTurn) : Act Unit := do
  if (← load Conn.session) = .null then flushSent t
  else if ← sessionSend t.sessionOk t.writes then flushSent t
  else connClose

/-- How a call of the TLS library ends that brings nothing. -/
inductive SslError where
  | wants
  | zeroReturn
  | other
  deriving DecidableEq

/-- `chunks` are the reads that bring something, each with whether the session takes it. -/
def pumpSslRead (last : SslError) : List Bool → Act Unit
  | [] => do
    use Conn.ssl
    if last = .zeroReturn then connClose
  | taken :: chunks => do
    use Conn.ssl
    use Conn.session
    if taken then pumpSslRead last chunks else connClose

inductive Accept where
  | done
  | wants
  | failed
  deriving DecidableEq

structure HandshakeTurn where
  accept : Accept
  callbacks : Bool
  created : Bool
  made : Bool
  settings : Bool
  send : SendTurn
  flush : List FlushTurn

/-- A session that was made gets its settings out. -/
def sendSettings (t : HandshakeTurn) : Act Unit := do
  if !t.created || (← load Conn.session) = .null then connClose
  else
    use Conn.session
    if !t.settings then connClose else trySend t.send

/-- The handshake is through. The callbacks are an object of their own until the session has
them. -/
def startSession (t : HandshakeTurn) : Act Unit := do
  store fun c => { c with handshakeDone := true }
  if !(← malloc t.callbacks) then connClose
  else
    store fun c => { c with session := if t.made then .live else c.session }
    free
    sendSettings t

def driveHandshake (t : HandshakeTurn) : Act Unit := do
  use Conn.ssl
  match t.accept with
  | .done => startSession t
  | .wants => flushWriteBio t.flush
  | .failed => connClose

structure ReadTurn where
  granted : Bool
  nread : ℤ
  handshake : HandshakeTurn
  chunks : List Bool
  last : SslError
  send : SendTurn

def freeBase (t : ReadTurn) : Act Unit := if t.granted then free else pure ()

/-- What came in goes through the TLS object to the session. -/
def takeIn (t : ReadTurn) : Act Unit := do
  use Conn.readBio
  if !t.granted then fun _ => .error .null
  else if !(← load Conn.handshakeDone) then driveHandshake t.handshake
  else
    pumpSslRead t.last t.chunks
    trySend t.send

/-- The loop asks for a buffer first. -/
def onRead (t : ReadTurn) : Act Unit := do
  let _ ← malloc t.granted
  if t.nread < 0 then
    freeBase t
    connClose
  else
    if 0 < t.nread then takeIn t
    freeBase t

def onWriteDone : Act Unit := do
  free
  free

def delSession : Act Unit := do
  if (← load Conn.session) = .null then return
  use Conn.session
  store fun c => { c with session := .freed }

/-- The buffers go with the TLS object when it owns them. -/
def freeSsl : Act Unit := do
  if (← load Conn.ssl) = .null then return
  use Conn.ssl
  store fun c =>
    if c.biosSet then { c with ssl := .freed, readBio := .freed, writeBio := .freed }
    else { c with ssl := .freed }

def onConnClosed : Act Unit := do
  delSession
  freeSsl
  freeConn

structure AcceptTurn where
  tcpInit : Bool
  accepted : Bool
  ssl : Bool
  readBio : Bool
  writeBio : Bool
  readStart : Bool

def Res.made (granted : Bool) : Res := if granted then .live else .null

/-- The TLS object is there: it gets its buffers, and reading starts. -/
def startTls (t : AcceptTurn) : Act Unit := do
  store fun c => { c with readBio := .made t.readBio }
  store fun c => { c with writeBio := .made t.writeBio }
  if (← load Conn.readBio) = .null then connClose
  else if (← load Conn.writeBio) = .null then connClose
  else
    use Conn.ssl
    store fun c => { c with biosSet := true }
    use Conn.ssl
    if t.readStart then store fun c => { c with handle := .active } else connClose

/-- On a record that was just allocated. -/
def onNewConnection (t : AcceptTurn) : Act Unit := do
  if !t.tcpInit then freeConn
  else
    store fun c => { c with handle := .idle }
    if !t.accepted then uvClose
    else
      store fun c => { c with ssl := .made t.ssl }
      if (← load Conn.ssl) = .null then connClose else startTls t

section calls

variable {α : Type} {c : Conn} {f : Conn → Res} {Q : Unit → Conn → Prop}

theorem load_live (h : c.memory = .live) (g : Conn → α) : load g c = .ok (g c, c) := by
  rw [load, Prog.bind_of_ok rfl, h]
  rfl

theorem store_live (h : c.memory = .live) (g : Conn → Conn) : store g c = .ok ((), g c) := by
  rw [store, Prog.bind_of_ok rfl, h]
  rfl

theorem store_bind {m : Act α} {Q : α → Conn → Prop} {g : Conn → Conn} (h : c.memory = .live)
    (hm : ∀ d, d = g c → Prog.wp m Q d) : Prog.wp (store g >>= fun _ => m) Q c := by
  rw [Prog.wp_bind_of_ok (store_live h g)]
  exact hm _ rfl

theorem use_live (h : c.memory = .live) (hf : f c = .live) : use f c = .ok ((), c) := by
  rw [use, Prog.bind_of_ok (load_live h f), hf]
  rfl

theorem malloc_true (c : Conn) :
    malloc true c = .ok (true, { c with blocks := c.blocks + 1 }) := rfl

theorem malloc_false (c : Conn) : malloc false c = .ok (false, c) := rfl

theorem free_some {n : ℕ} (h : c.blocks = n + 1) : free c = .ok ((), { c with blocks := n }) := by
  simp [free, h]

theorem uvWrite_live (h : c.memory = .live) (accepted : Bool) : uvWrite accepted c =
    .ok (accepted, if accepted then { c with writes := c.writes + 1 } else c) := by
  rw [uvWrite, Prog.bind_of_ok (store_live h _)]
  rfl

theorem uvClose_open (h : c.memory = .live) (ho : c.handle = .idle ∨ c.handle = .active) :
    uvClose c = .ok ((), { c with handle := .closing }) := by
  rw [uvClose, Prog.bind_of_ok (load_live h Conn.handle)]
  rcases ho with ho | ho
  · rw [ho]
    exact store_live h _
  · rw [ho]
    exact store_live h _

/-- The record is there, and its flag says whether the handle was given up. -/
structure Held (c : Conn) : Prop where
  memory : c.memory = .live
  handle : c.closing = false ∧ (c.handle = .idle ∨ c.handle = .active) ∨
    c.closing = true ∧ c.handle = .closing

theorem connClose_held (h : Held c) :
    connClose c = .ok ((), { c with closing := true, handle := .closing }) := by
  rw [connClose, Prog.bind_of_ok (load_live h.memory Conn.closing)]
  rcases h.handle with ⟨hclosing, hopen⟩ | ⟨hclosing, hhandle⟩
  · rw [hclosing]
    have hmem : Conn.memory { c with closing := true } = .live := h.memory
    have hnot : ¬(c.handle == .closing || c.handle == .closed) = true := by
      rcases hopen with hopen | hopen <;> simp [hopen]
    rw [if_neg (by simp), Prog.bind_of_ok (store_live h.memory _), uvIsClosing,
      Prog.bind_of_ok (load_live hmem _), if_neg hnot]
    exact uvClose_open hmem hopen
  · rw [hclosing, if_pos rfl, ← hclosing, ← hhandle]
    rfl

end calls

/-- A connection on which the TLS object is at work. The callback has `k` blocks in its hands. -/
structure Busy (k : ℕ) (c : Conn) : Prop extends Held c where
  ssl : c.ssl = .live
  readBio : c.readBio = .live
  writeBio : c.writeBio = .live
  biosSet : c.biosSet = true
  session : c.session ≠ .freed
  blocks : c.blocks = 2 * c.writes + k

/-- What the sending side of a callback may have done. -/
structure Goes (k : ℕ) (c c' : Conn) : Prop where
  busy : Busy k c'
  session : c'.session = c.session
  handshakeDone : c'.handshakeDone = c.handshakeDone
  handle : c'.handle = c.handle ∨ c'.handle = .closing

section sending

variable {α β : Type} {j k : ℕ} {c c' c'' : Conn}

theorem Busy.goes (h : Busy k c) : Goes k c c := ⟨h, rfl, rfl, .inl rfl⟩

theorem Goes.trans (h : Goes j c c') (h' : Goes k c' c'') : Goes k c c'' where
  busy := h'.busy
  session := h'.session.trans h.session
  handshakeDone := h'.handshakeDone.trans h.handshakeDone
  handle := by
    rcases h'.handle with heq | hclosing
    · rw [heq]
      exact h.handle
    · exact .inr hclosing

theorem Goes.next {m : Act α} (h : Goes j c c') (hm : Prog.wp m (fun _ => Goes k c') c') :
    Prog.wp m (fun _ => Goes k c) c' :=
  Prog.wp_mono hm fun _ _ => h.trans

theorem goes_bind {m : Act α} {f : α → Act β} (hm : Prog.wp m (fun _ => Goes j c) c)
    (hf : ∀ a d, Goes j c d → Prog.wp (f a) (fun _ => Goes k d) d) :
    Prog.wp (m >>= f) (fun _ => Goes k c) c := by
  rw [Prog.wp_bind]
  exact Prog.wp_mono hm fun a d hd => hd.next (hf a d hd)

theorem Busy.goes_blocks (h : Busy k c) {n w : ℕ} (hn : n = 2 * w + j) :
    Goes j c { c with blocks := n, writes := w } where
  busy := { h with toHeld := ⟨h.memory, h.handle⟩, blocks := hn }
  session := rfl
  handshakeDone := rfl
  handle := .inl rfl

theorem malloc_goes (h : Busy k c) : Goes (k + 1) c { c with blocks := c.blocks + 1 } :=
  h.goes_blocks (by rw [h.blocks, Nat.add_assoc])

theorem free_goes (h : Busy (k + 1) c) : Prog.wp free (fun _ => Goes k c) c :=
  Prog.wp_of_ok (free_some (by rw [h.blocks, Nat.add_assoc])) (h.goes_blocks rfl)

theorem uvWrite_goes (h : Busy (k + 2) c) : Goes k c { c with writes := c.writes + 1 } :=
  h.goes_blocks (by rw [h.blocks]; omega)

theorem connClose_goes (h : Busy k c) : Prog.wp connClose (fun _ => Goes k c) c :=
  Prog.wp_of_ok (connClose_held h.toHeld)
    ⟨{ h with toHeld := ⟨h.memory, .inr ⟨rfl, rfl⟩⟩ }, rfl, rfl, .inr rfl⟩

theorem flushWriteBio_goes (turns : List FlushTurn) (h : Busy k c) :
    Prog.wp (flushWriteBio turns) (fun _ => Goes k c) c := by
  induction turns generalizing c with
  | nil => exact Prog.wp_of_ok (use_live h.memory h.writeBio) h.goes
  | cons t turns ih =>
    rw [flushWriteBio, Prog.wp_bind_of_ok (use_live h.memory h.writeBio), Prog.wp_bind_of_ok rfl]
    cases t.buffer with
    | false => exact connClose_goes h
    | true =>
      have hgot := malloc_goes h
      refine hgot.next ?_
      have hbuf := hgot.busy
      rw [if_neg (by simp), Prog.wp_bind_of_ok (use_live hbuf.memory hbuf.writeBio)]
      cases t.read with
      | false => exact free_goes hbuf
      | true =>
        rw [if_neg (by simp), Prog.wp_bind_of_ok rfl]
        cases t.request with
        | false => exact goes_bind (free_goes hbuf) fun _ d hd => connClose_goes hd.busy
        | true =>
          have hgot := malloc_goes hbuf
          refine hgot.next ?_
          have hreq := hgot.busy
          rw [if_neg (by simp), Prog.wp_bind_of_ok (uvWrite_live hreq.memory t.accepted)]
          cases t.accepted with
          | false =>
            refine goes_bind (free_goes hreq) fun _ d hd => ?_
            exact goes_bind (free_goes hd.busy) fun _ d hd => connClose_goes hd.busy
          | true =>
            have hgiven := uvWrite_goes hreq
            rw [if_neg (by simp)]
            exact hgiven.next (ih hgiven.busy)

theorem sendCb_live (h : Busy k c) (w : SslWrite) : ∃ sent, sendCb w c = .ok (sent, c) := by
  unfold sendCb
  rw [Prog.bind_of_ok (load_live h.memory _)]
  cases c.handshakeDone with
  | false => exact ⟨.wouldBlock, rfl⟩
  | true =>
    rw [if_neg (by simp), Prog.bind_of_ok (use_live h.memory h.ssl)]
    cases w with
    | done => exact ⟨.done, rfl⟩
    | wants => exact ⟨.wouldBlock, rfl⟩
    | failed => exact ⟨.failure, rfl⟩

theorem sessionSend_live (h : Busy k c) (hs : c.session = .live) (ok : Bool)
    (writes : List SslWrite) : ∃ done, sessionSend ok writes c = .ok (done, c) := by
  induction writes with
  | nil =>
    rw [sessionSend, Prog.bind_of_ok (use_live h.memory hs)]
    exact ⟨ok, rfl⟩
  | cons w writes ih =>
    obtain ⟨sent, hsent⟩ := sendCb_live h w
    rw [sessionSend, Prog.bind_of_ok (use_live h.memory hs), Prog.bind_of_ok hsent]
    cases sent with
    | done => exact ih
    | wouldBlock => exact ⟨ok, rfl⟩
    | failure => exact ⟨false, rfl⟩

theorem Busy.session_live (h : Busy k c) (hs : c.session ≠ .null) : c.session = .live := by
  have hfreed := h.session
  cases hc : c.session with
  | null => exact absurd hc hs
  | live => rfl
  | freed => exact absurd hc hfreed

theorem flushSent_goes (t : SendTurn) (h : Busy k c) :
    Prog.wp (flushSent t) (fun _ => Goes k c) c := by
  rw [flushSent]
  refine goes_bind (flushWriteBio_goes t.flush h) fun _ d hd => ?_
  have hbusy := hd.busy
  rw [Prog.wp_bind_of_ok (load_live hbusy.memory _)]
  by_cases hs : d.session = .null
  · rw [if_pos hs]
    exact Prog.wp_of_ok rfl hbusy.goes
  · have huse := use_live hbusy.memory (hbusy.session_live hs)
    rw [if_neg hs, Prog.wp_bind_of_ok huse]
    cases t.wantRead with
    | true => exact Prog.wp_of_ok rfl hbusy.goes
    | false =>
      rw [if_neg (by simp), Prog.wp_bind_of_ok huse]
      cases t.wantWrite with
      | true => exact Prog.wp_of_ok rfl hbusy.goes
      | false => exact connClose_goes hbusy

theorem trySend_goes (t : SendTurn) (h : Busy k c) :
    Prog.wp (trySend t) (fun _ => Goes k c) c := by
  rw [trySend, Prog.wp_bind_of_ok (load_live h.memory _)]
  by_cases hs : c.session = .null
  · rw [if_pos hs]
    exact flushSent_goes t h
  · obtain ⟨done, hsend⟩ := sessionSend_live h (h.session_live hs) t.sessionOk t.writes
    rw [if_neg hs, Prog.wp_bind_of_ok hsend]
    cases done with
    | true => exact flushSent_goes t h
    | false => exact connClose_goes h

theorem pumpSslRead_goes (last : SslError) (chunks : List Bool) (h : Busy k c)
    (hs : c.session = .live) : Prog.wp (pumpSslRead last chunks) (fun _ => Goes k c) c := by
  induction chunks with
  | nil =>
    rw [pumpSslRead, Prog.wp_bind_of_ok (use_live h.memory h.ssl)]
    by_cases hlast : last = .zeroReturn
    · rw [if_pos hlast]
      exact connClose_goes h
    · rw [if_neg hlast]
      exact Prog.wp_of_ok rfl h.goes
  | cons taken chunks ih =>
    rw [pumpSslRead, Prog.wp_bind_of_ok (use_live h.memory h.ssl),
      Prog.wp_bind_of_ok (use_live h.memory hs)]
    cases taken with
    | true => exact ih
    | false => exact connClose_goes h

end sending

/-- Behind the handshake there is a session, or the connection is on its way out. -/
structure Ready (k : ℕ) (c c' : Conn) : Prop where
  busy : Busy k c'
  handle : c'.handle = c.handle ∨ c'.handle = .closing
  session : c'.handle = .closing ∨ (c'.handshakeDone = true → c'.session = .live)

section reading

variable {α : Type} {j k : ℕ} {c c' : Conn}

theorem Goes.ready (h : Goes k c c') (hs : c.handshakeDone = true → c.session = .live) :
    Ready k c c' where
  busy := h.busy
  handle := h.handle
  session := .inr fun hdone => by
    rw [h.session]
    exact hs (h.handshakeDone ▸ hdone)

theorem connClose_ready (h : Busy k c) : Prog.wp connClose (fun _ => Ready k c) c :=
  Prog.wp_of_ok (connClose_held h.toHeld)
    ⟨{ h with toHeld := ⟨h.memory, .inr ⟨rfl, rfl⟩⟩ }, .inr rfl, .inl rfl⟩

theorem ready_of_goes {m : Act α} (hs : c.handshakeDone = true → c.session = .live)
    (hm : Prog.wp m (fun _ => Goes k c) c) : Prog.wp m (fun _ => Ready k c) c :=
  Prog.wp_mono hm fun _ _ h => h.ready hs

theorem ready_from {m : Act α} (hhandle : c'.handle = c.handle) {d : Conn}
    (hm : Prog.wp m (fun _ => Ready k c') d) : Prog.wp m (fun _ => Ready k c) d := by
  refine Prog.wp_mono hm fun _ e he => ⟨he.busy, ?_, he.session⟩
  rw [← hhandle]
  exact he.handle

theorem Goes.then_ready {m : Act α} {d : Conn} (h : Goes j c d)
    (hm : Prog.wp m (fun _ => Ready k d) d) : Prog.wp m (fun _ => Ready k c) d := by
  refine Prog.wp_mono hm fun _ e he => ⟨he.busy, ?_, he.session⟩
  rcases he.handle with heq | hclosing
  · rw [heq]
    exact h.handle
  · exact .inr hclosing

theorem sendSettings_ready (t : HandshakeTurn) (h : Busy k c) :
    Prog.wp (sendSettings t) (fun _ => Ready k c) c := by
  rw [sendSettings, Prog.wp_bind_of_ok (load_live h.memory _)]
  by_cases hs : (!t.created || c.session = .null) = true
  · rw [if_pos hs]
    exact connClose_ready h
  · have hlive : c.session = .live := h.session_live fun hnull => hs (by simp [hnull])
    rw [if_neg hs, Prog.wp_bind_of_ok (use_live h.memory hlive)]
    refine ready_of_goes (fun _ => hlive) ?_
    cases t.settings with
    | false => exact connClose_goes h
    | true => exact trySend_goes t.send h

theorem startSession_ready (t : HandshakeTurn) (h : Busy k c) :
    Prog.wp (startSession t) (fun _ => Ready k c) c := by
  rw [startSession]
  refine store_bind h.memory fun d hd => ?_
  have hdone : Busy k d := by
    rw [hd]
    exact { h with toHeld := ⟨h.memory, h.handle⟩ }
  have hhandle : d.handle = c.handle := by rw [hd]
  refine ready_from hhandle ?_
  cases t.callbacks with
  | false =>
    rw [Prog.wp_bind_of_ok (malloc_false d)]
    exact connClose_ready hdone
  | true =>
    rw [Prog.wp_bind_of_ok (malloc_true d), if_neg (by simp)]
    have hgot := (malloc_goes hdone).busy
    refine store_bind hgot.memory fun e he => ?_
    have hmade : (if t.made then Res.live else d.session) ≠ .freed := by
      split
      · simp
      · exact hdone.session
    have hset : Busy (k + 1) e := by
      rw [he]
      exact { hgot with toHeld := ⟨hgot.memory, hgot.handle⟩, session := hmade }
    rw [Prog.wp_bind]
    refine Prog.wp_mono (free_goes hset) fun _ x hx => ?_
    exact ready_from (by rw [he]) (hx.then_ready (sendSettings_ready t hx.busy))

theorem driveHandshake_ready (t : HandshakeTurn) (h : Busy k c)
    (hs : c.handshakeDone = true → c.session = .live) :
    Prog.wp (driveHandshake t) (fun _ => Ready k c) c := by
  rw [driveHandshake, Prog.wp_bind_of_ok (use_live h.memory h.ssl)]
  cases t.accept with
  | done => exact startSession_ready t h
  | wants => exact ready_of_goes hs (flushWriteBio_goes t.flush h)
  | failed => exact connClose_ready h

theorem Ready.trans_goes {d : Conn} (h : Ready k c c') (h' : Goes j c' d) : Ready j c d where
  busy := h'.busy
  handle := by
    rcases h'.handle with heq | hclosing
    · rw [heq]
      exact h.handle
    · exact .inr hclosing
  session := by
    rcases h'.handle with heq | hclosing
    · rw [heq, h'.handshakeDone, h'.session]
      exact h.session
    · exact .inl hclosing

end reading

/-- A connection the loop reads from. -/
structure Open (c : Conn) : Prop extends Busy 0 c where
  active : c.handle = .active
  established : c.handshakeDone = true → c.session = .live

/-- A connection that was given up and is still with the loop. -/
structure Leaving (c : Conn) : Prop where
  memory : c.memory = .live
  handle : c.handle = .closing
  ssl : c.ssl ≠ .freed
  session : c.session ≠ .freed
  owned : c.biosSet = true → c.ssl = .live
  single : c.biosSet = false → c.readBio = .null ∨ c.writeBio = .null
  blocks : c.blocks = 2 * c.writes

/-- A connection that is over. A buffer that is left is the only one there was. -/
structure Gone (c : Conn) : Prop where
  memory : c.memory = .freed
  handle : c.handle = .none ∨ c.handle = .closed
  ssl : c.ssl ≠ .live
  session : c.session ≠ .live
  readBio : c.readBio = .live → c.writeBio = .null
  writeBio : c.writeBio = .live → c.readBio = .null
  blocks : c.blocks = 0
  writes : c.writes = 0

section callbacks

variable {c c' : Conn}

theorem Ready.after (h : Ready 0 c c') (hactive : c.handle = .active) : Open c' ∨ Leaving c' := by
  have hbusy := h.busy
  by_cases hclosing : c'.handle = .closing
  · refine .inr { hbusy with
      handle := hclosing, ssl := ?_, owned := fun _ => hbusy.ssl, single := ?_ }
    · rw [hbusy.ssl]
      simp
    · intro hset
      rw [hbusy.biosSet] at hset
      cases hset
  · have hopen : c'.handle = .active := (h.handle.resolve_right hclosing).trans hactive
    exact .inl { hbusy with active := hopen, established := h.session.resolve_left hclosing }

theorem takeIn_ready {k : ℕ} (t : ReadTurn) (h : Busy k c) (hgranted : t.granted = true)
    (hs : c.handshakeDone = true → c.session = .live) :
    Prog.wp (takeIn t) (fun _ => Ready k c) c := by
  rw [takeIn, Prog.wp_bind_of_ok (use_live h.memory h.readBio), hgranted, if_neg (by simp),
    Prog.wp_bind_of_ok (load_live h.memory _)]
  cases hdone : c.handshakeDone with
  | false => exact driveHandshake_ready t.handshake h hs
  | true =>
    rw [if_neg (by simp)]
    refine ready_of_goes hs (goes_bind (pumpSslRead_goes t.last t.chunks h (hs hdone)) ?_)
    exact fun _ d hd => trySend_goes t.send hd.busy

theorem onRead_ready (t : ReadTurn) (h : Open c) (hbuf : t.granted = false → t.nread < 0) :
    Prog.wp (onRead t) (fun _ => Ready 0 c) c := by
  rw [onRead]
  cases hgranted : t.granted with
  | false =>
    rw [Prog.wp_bind_of_ok (malloc_false c), if_pos (hbuf hgranted), freeBase, hgranted]
    exact connClose_ready h.toBusy
  | true =>
    have hgot := malloc_goes h.toBusy
    have hbuf := hgot.busy
    rw [Prog.wp_bind_of_ok (malloc_true c)]
    refine hgot.then_ready ?_
    have hfree : freeBase t = free := by rw [freeBase, hgranted, if_pos rfl]
    rw [hfree]
    by_cases hneg : t.nread < 0
    · rw [if_pos hneg, Prog.wp_bind]
      exact Prog.wp_mono (free_goes hbuf) fun _ d hd => hd.then_ready (connClose_ready hd.busy)
    · rw [if_neg hneg]
      by_cases hpos : 0 < t.nread
      · rw [if_pos hpos, Prog.wp_bind]
        refine Prog.wp_mono (takeIn_ready t hbuf hgranted h.established) fun _ d hd => ?_
        exact Prog.wp_mono (free_goes hd.busy) fun _ e he => hd.trans_goes he
      · rw [if_neg hpos]
        exact ready_of_goes h.established (free_goes hbuf)

theorem freeConn_closed (h : c.memory = .live) (hhandle : c.handle = .none ∨ c.handle = .closed) :
    freeConn c = .ok ((), { c with memory := .freed }) := by
  have hstore := store_live h fun c => { c with memory := .freed }
  rw [freeConn, Prog.bind_of_ok (load_live h Conn.handle), ← hstore]
  rcases hhandle with hhandle | hhandle <;> rw [hhandle]

theorem delSession_live (h : c.memory = .live) (hs : c.session ≠ .freed) : ∃ session ≠ Res.live,
    delSession c = .ok ((), { c with session := session }) := by
  rw [delSession, Prog.bind_of_ok (load_live h Conn.session)]
  cases hsession : c.session with
  | null =>
    refine ⟨.null, by simp, ?_⟩
    rw [if_pos rfl, ← hsession]
    rfl
  | live =>
    refine ⟨.freed, by simp, ?_⟩
    rw [if_neg (by simp), Prog.bind_of_ok (use_live h hsession)]
    exact store_live h _
  | freed => exact absurd hsession hs

theorem freeSsl_live (h : c.memory = .live) (hs : c.ssl ≠ .freed)
    (howned : c.biosSet = true → c.ssl = .live)
    (hsingle : c.biosSet = false → c.readBio = .null ∨ c.writeBio = .null) :
    ∃ ssl ≠ Res.live, ∃ readBio writeBio, freeSsl c =
        .ok ((), { c with ssl := ssl, readBio := readBio, writeBio := writeBio }) ∧
      (readBio = .live → writeBio = .null) ∧ (writeBio = .live → readBio = .null) := by
  rw [freeSsl, Prog.bind_of_ok (load_live h Conn.ssl)]
  have hleft : c.biosSet = false → (c.readBio = .live → c.writeBio = .null) ∧
      (c.writeBio = .live → c.readBio = .null) := by
    intro hset
    rcases hsingle hset with hnull | hnull
    · simp [hnull]
    · simp [hnull]
  cases hssl : c.ssl with
  | null =>
    have hset : c.biosSet = false := by
      cases hset : c.biosSet with
      | false => rfl
      | true =>
        rw [howned hset] at hssl
        cases hssl
    refine ⟨.null, by simp, c.readBio, c.writeBio, ?_, hleft hset⟩
    rw [if_pos rfl, ← hssl]
    rfl
  | live =>
    rw [if_neg (by simp), Prog.bind_of_ok (use_live h hssl), store_live h]
    cases hset : c.biosSet with
    | true => exact ⟨.freed, by simp, .freed, .freed, rfl, by simp, by simp⟩
    | false => exact ⟨.freed, by simp, c.readBio, c.writeBio, by simp, hleft hset⟩
  | freed => exact absurd hssl hs

/-- The loop is done with the handle and has reported every write. -/
theorem onConnClosed_gone (h : Leaving c) (hw : c.writes = 0) :
    Prog.wp onConnClosed (fun _ => Gone) { c with handle := .closed } := by
  obtain ⟨session, hsession, hdel⟩ :=
    @delSession_live { c with handle := .closed } h.memory h.session
  obtain ⟨ssl, hssl, readBio, writeBio, hfree, hread, hwrite⟩ :=
    @freeSsl_live { c with handle := .closed, session := session } h.memory h.ssl h.owned h.single
  rw [onConnClosed, Prog.wp_bind_of_ok hdel, Prog.wp_bind_of_ok hfree]
  refine Prog.wp_of_ok (freeConn_closed h.memory (.inr rfl)) ?_
  have hblocks := h.blocks
  rw [hw] at hblocks
  exact ⟨rfl, .inr rfl, hssl, hsession, hread, hwrite, hblocks, hw⟩

theorem onWriteDone_blocks (hw : 0 < c.writes) (hb : c.blocks = 2 * c.writes) :
    onWriteDone { c with writes := c.writes - 1 } =
      .ok ((), { c with writes := c.writes - 1, blocks := 2 * (c.writes - 1) }) := by
  have hfirst : c.blocks = 2 * (c.writes - 1) + 1 + 1 := by omega
  rw [onWriteDone, Prog.bind_of_ok (@free_some { c with writes := c.writes - 1 } _ hfirst)]
  exact free_some rfl

/-- Whatever fails on the way, the loop has the record in its charge or it is gone. -/
theorem onNewConnection_fresh (t : AcceptTurn) : Prog.wp (onNewConnection t)
    (fun _ c => Open c ∨ Leaving c ∨ Gone c) .fresh := by
  obtain ⟨tcpInit, accepted, ssl, readBio, writeBio, readStart⟩ := t
  cases tcpInit with
  | false => exact Prog.wp_of_ok rfl (.inr (.inr (by constructor <;> simp [Conn.fresh])))
  | true =>
    cases accepted with
    | false => exact Prog.wp_of_ok rfl (.inr (.inl (by constructor <;> simp [Conn.fresh])))
    | true =>
      cases ssl with
      | false =>
        exact Prog.wp_of_ok rfl (.inr (.inl (by constructor <;> simp [Conn.fresh, Res.made])))
      | true =>
        cases readBio with
        | false =>
          exact Prog.wp_of_ok rfl (.inr (.inl (by constructor <;> simp [Conn.fresh, Res.made])))
        | true =>
          cases writeBio with
          | false =>
            exact Prog.wp_of_ok rfl (.inr (.inl (by constructor <;> simp [Conn.fresh, Res.made])))
          | true =>
            cases readStart with
            | false =>
              exact Prog.wp_of_ok rfl (.inr (.inl (by constructor <;> simp [Conn.fresh, Res.made])))
            | true =>
              refine Prog.wp_of_ok rfl (.inl ⟨⟨⟨rfl, .inl ⟨rfl, .inr rfl⟩⟩, rfl, rfl, rfl, rfl, ?_,
                rfl⟩, rfl, ?_⟩)
              · simp [Conn.fresh]
              · simp [Conn.fresh]

end callbacks

/-- The server at work: the listener, the handle that stops it, and the connections it has
allocated, in the order they came. -/
structure Server where
  conns : List Conn
  listener : Handle
  stopAsync : Handle
  listenerActive : Bool
  stopping : Bool
  deriving DecidableEq

/-- The server as it is handed out to be run. -/
def Server.start : Server := ⟨[], .active, .active, true, false⟩

/-- What the loop calls back for. The callbacks of the last two are empty. -/
inductive Event where
  | newConnection (status : ℤ) (granted : Bool) (t : AcceptTurn)
  | read (i : ℕ) (t : ReadTurn)
  | writeDone (i : ℕ)
  | connClosed (i : ℕ)
  | stop
  | listenerClosed
  | asyncClosed

def Handle.isClosing (h : Handle) : Bool := h == .closing || h == .closed

def Handle.close : Handle → Except Fault Handle
  | .idle => .ok .closing
  | .active => .ok .closing
  | _ => .error .handle

def closeListener (s : Server) : Except Fault Server :=
  if s.listenerActive && !s.listener.isClosing then
    s.listener.close.map fun h => { s with listener := h, listenerActive := false }
  else .ok s

def onStopAsync (s : Server) : Except Fault Server := do
  let s ← closeListener { s with stopping := true }
  if s.stopAsync.isClosing then return s
  return { s with stopAsync := ← s.stopAsync.close }

/-- A callback on the record of a connection. -/
def Server.onConn (s : Server) (i : ℕ) (seen : Conn → Conn) (m : Act Unit) :
    Except Fault Server :=
  match s.conns[i]? with
  | none => .ok s
  | some c => (m (seen c)).map fun r => { s with conns := s.conns.set i r.2 }

def Server.accept (s : Server) (status : ℤ) (granted : Bool) (t : AcceptTurn) :
    Except Fault Server :=
  if status ≠ 0 then .ok s
  else if s.stopping then .ok s
  else if !granted then .ok s
  else (onNewConnection t .fresh).map fun r => { s with conns := s.conns ++ [r.2] }

/-- The loop takes note before it calls back. -/
def Server.handle (s : Server) : Event → Except Fault Server
  | .newConnection status granted t => s.accept status granted t
  | .read i t => s.onConn i id (onRead t)
  | .writeDone i => s.onConn i (fun c => { c with writes := c.writes - 1 }) onWriteDone
  | .connClosed i => s.onConn i (fun c => { c with handle := .closed }) onConnClosed
  | .stop => onStopAsync s
  | .listenerClosed => .ok { s with listener := .closed }
  | .asyncClosed => .ok { s with stopAsync := .closed }

def Conn.readable (c : Conn) (t : ReadTurn) : Bool :=
  c.handle == .active && (t.granted || decide (t.nread < 0))

/-- What libuv promises: nothing is reported of a handle that was given up but the writes it had
accepted, each once, and then, once, that it is closed. A read without a buffer fails. -/
def Server.enabled (s : Server) : Event → Bool
  | .newConnection _ _ _ => s.listener == .active
  | .read i t => s.conns[i]?.any fun c => c.readable t
  | .writeDone i => s.conns[i]?.any fun c => 0 < c.writes
  | .connClosed i => s.conns[i]?.any fun c => c.handle == .closing && c.writes == 0
  | .stop => s.stopAsync == .active
  | .listenerClosed => s.listener == .closing
  | .asyncClosed => s.stopAsync == .closing

inductive Reachable : Server → Prop where
  | start : Reachable .start
  | step {s s' : Server} {e : Event} (h : Reachable s) (he : s.enabled e = true)
      (hs : s.handle e = .ok s') : Reachable s'

def Handle.quiet (h : Handle) : Bool := h != .active && h != .closing

/-- Nothing is left that keeps the loop running. -/
def Server.Quiet (s : Server) : Prop :=
  s.listener.quiet = true ∧ s.stopAsync.quiet = true ∧ ∀ c ∈ s.conns, c.handle.quiet = true

def InCharge (c : Conn) : Prop := Open c ∨ Leaving c ∨ Gone c

/-- Every record is with the loop or gone, and the server listens until it is stopped. -/
structure Safe (s : Server) : Prop where
  conns : ∀ c ∈ s.conns, InCharge c
  phase : s.stopping = false ∧ s.listener = .active ∧ s.stopAsync = .active ∧
      s.listenerActive = true ∨
    s.stopping = true ∧ (s.listener = .closing ∨ s.listener = .closed) ∧
      (s.stopAsync = .closing ∨ s.stopAsync = .closed)

section server

variable {s : Server} {c : Conn} {i : ℕ} {m : Act Unit} {seen : Conn → Conn}

/-- A callback that the loop makes for one connection. -/
theorem onConn_safe {p : Conn → Bool} (h : Safe s) (he : s.conns[i]?.any p = true)
    (hm : ∀ c, InCharge c → p c = true → Prog.wp m (fun _ => InCharge) (seen c)) :
    ∃ s', s.onConn i seen m = .ok s' ∧ Safe s' ∧
      (s.stopping = true → s'.conns.length = s.conns.length) := by
  obtain ⟨c, hi, hp⟩ := (Option.any_eq_true p _).1 he
  obtain ⟨_, c', hrun, hin⟩ := hm c (h.conns c (List.mem_of_getElem? hi)) hp
  refine ⟨{ s with conns := s.conns.set i c' }, ?_, ⟨fun d hd => ?_, h.phase⟩,
    fun _ => List.length_set⟩
  · rw [Server.onConn, hi]
    exact congrArg (Except.map _) hrun
  · rcases List.mem_or_eq_of_mem_set hd with hd | rfl
    · exact h.conns d hd
    · exact hin

theorem accept_safe (h : Safe s) (status : ℤ) (granted : Bool) (t : AcceptTurn) :
    ∃ s', s.accept status granted t = .ok s' ∧ Safe s' ∧
      (s.stopping = true → s'.conns.length = s.conns.length) := by
  rw [Server.accept]
  split
  · exact ⟨s, rfl, h, fun _ => rfl⟩
  · split
    · exact ⟨s, rfl, h, fun _ => rfl⟩
    · rename_i hstop
      split
      · exact ⟨s, rfl, h, fun _ => rfl⟩
      · obtain ⟨_, c', hrun, hin⟩ := onNewConnection_fresh t
        refine ⟨{ s with conns := s.conns ++ [c'] }, ?_, ⟨fun d hd => ?_, h.phase⟩,
          fun hs => absurd hs hstop⟩
        · exact congrArg (Except.map _) hrun
        · rcases List.mem_append.1 hd with hd | hd
          · exact h.conns d hd
          · rw [List.mem_singleton.1 hd]
            exact hin

theorem onStopAsync_safe (h : Safe s) (ha : s.stopAsync = .active) :
    ∃ s', onStopAsync s = .ok s' ∧ Safe s' ∧ s'.conns.length = s.conns.length := by
  rcases h.phase with ⟨_, hlistener, _, hactive⟩ | ⟨_, _, hasync⟩
  · refine ⟨⟨s.conns, .closing, .closing, false, true⟩, ?_,
      ⟨h.conns, .inr ⟨rfl, .inl rfl, .inl rfl⟩⟩, rfl⟩
    have hclose : closeListener { s with stopping := true } =
        .ok ⟨s.conns, .closing, .active, false, true⟩ := by
      simp [closeListener, hactive, hlistener, ha, Handle.isClosing, Handle.close, Except.map]
    rw [onStopAsync, hclose]
    rfl
  · rw [ha] at hasync
    rcases hasync with hasync | hasync <;> cases hasync

theorem onRead_inCharge (t : ReadTurn) (hc : InCharge c) (hread : c.readable t = true) :
    Prog.wp (onRead t) (fun _ => InCharge) c := by
  simp only [Conn.readable, Bool.and_eq_true, beq_iff_eq, Bool.or_eq_true,
    decide_eq_true_eq] at hread
  have hactive := hread.1
  have hbuf : t.granted = false → t.nread < 0 := fun hg =>
    hread.2.resolve_left (by rw [hg]; simp)
  rcases hc with hopen | hleaving | hgone
  · refine Prog.wp_mono (onRead_ready t hopen hbuf) fun _ d hd => ?_
    exact (hd.after hactive).imp_right .inl
  · rw [hleaving.handle] at hactive
    cases hactive
  · rcases hgone.handle with hnone | hclosed
    · rw [hnone] at hactive
      cases hactive
    · rw [hclosed] at hactive
      cases hactive

theorem onWriteDone_inCharge (hc : InCharge c) (hw : 0 < c.writes) :
    Prog.wp onWriteDone (fun _ => InCharge) { c with writes := c.writes - 1 } := by
  rcases hc with hopen | hleaving | hgone
  · refine Prog.wp_of_ok (onWriteDone_blocks hw hopen.blocks) (.inl ?_)
    exact { hopen with toBusy := { hopen.toBusy with
      toHeld := ⟨hopen.memory, hopen.toHeld.handle⟩, blocks := rfl } }
  · refine Prog.wp_of_ok (onWriteDone_blocks hw hleaving.blocks) (.inr (.inl ?_))
    exact { hleaving with blocks := rfl }
  · rw [hgone.writes] at hw
    exact absurd hw (Nat.lt_irrefl 0)

theorem onConnClosed_inCharge (hc : InCharge c) (hclosing : c.handle = .closing)
    (hw : c.writes = 0) :
    Prog.wp onConnClosed (fun _ => InCharge) { c with handle := .closed } := by
  rcases hc with hopen | hleaving | hgone
  · rw [hopen.active] at hclosing
    cases hclosing
  · exact Prog.wp_mono (onConnClosed_gone hleaving hw) fun _ d hd => .inr (.inr hd)
  · rcases hgone.handle with hnone | hclosed
    · rw [hnone] at hclosing
      cases hclosing
    · rw [hclosed] at hclosing
      cases hclosing

/-- A callback the loop may make finds everything in place and leaves it so. -/
theorem handle_safe (h : Safe s) {e : Event} (he : s.enabled e = true) :
    ∃ s', s.handle e = .ok s' ∧ Safe s' ∧
      (s.stopping = true → s'.conns.length = s.conns.length) := by
  cases e with
  | newConnection status granted t => exact accept_safe h status granted t
  | read i t => exact onConn_safe h he fun c hc hread => onRead_inCharge t hc hread
  | writeDone i =>
    exact onConn_safe h he fun c hc hw => onWriteDone_inCharge hc (of_decide_eq_true hw)
  | connClosed i =>
    refine onConn_safe h he fun c hc hclosing => ?_
    rw [Bool.and_eq_true, beq_iff_eq, beq_iff_eq] at hclosing
    exact onConnClosed_inCharge hc hclosing.1 hclosing.2
  | stop =>
    obtain ⟨s', hs, hsafe, hlen⟩ := onStopAsync_safe h (eq_of_beq he)
    exact ⟨s', hs, hsafe, fun _ => hlen⟩
  | listenerClosed =>
    refine ⟨_, rfl, ⟨h.conns, ?_⟩, fun _ => rfl⟩
    rcases h.phase with ⟨_, hlistener, _⟩ | ⟨hstop, _, hasync⟩
    · have hclosing := eq_of_beq he
      rw [hlistener] at hclosing
      cases hclosing
    · exact .inr ⟨hstop, .inr rfl, hasync⟩
  | asyncClosed =>
    refine ⟨_, rfl, ⟨h.conns, ?_⟩, fun _ => rfl⟩
    rcases h.phase with ⟨_, _, hasync, _⟩ | ⟨hstop, hlistener, _⟩
    · have hclosing := eq_of_beq he
      rw [hasync] at hclosing
      cases hclosing
    · exact .inr ⟨hstop, hlistener, .inr rfl⟩

theorem reachable_safe (h : Reachable s) : Safe s := by
  induction h with
  | start => exact ⟨List.forall_mem_nil _, .inl ⟨rfl, rfl, rfl, rfl⟩⟩
  | step h he hs ih =>
    obtain ⟨s', hs', hsafe, -⟩ := handle_safe ih he
    rw [hs] at hs'
    cases hs'
    exact hsafe

theorem Safe.of_quiet (h : Safe s) (hq : s.Quiet) :
    s.stopping = true ∧ s.listener = .closed ∧ s.stopAsync = .closed ∧ ∀ c ∈ s.conns, Gone c := by
  obtain ⟨hlistener, hasync, hconns⟩ := hq
  rcases h.phase with ⟨_, hactive, _⟩ | ⟨hstop, hl, ha⟩
  · rw [hactive] at hlistener
    cases hlistener
  · refine ⟨hstop, hl.resolve_left fun hc => ?_, ha.resolve_left fun hc => ?_, fun c hc => ?_⟩
    · rw [hc] at hlistener
      cases hlistener
    · rw [hc] at hasync
      cases hasync
    · have hquiet := hconns c hc
      rcases h.conns c hc with hopen | hleaving | hgone
      · rw [hopen.active] at hquiet
        cases hquiet
      · rw [hleaving.handle] at hquiet
        cases hquiet
      · exact hgone

end server

/-- In every run of the loop no callback touches what is not there, gives anything up twice or
takes a connection behind the stop, and the loop runs out only when the server was stopped and every
connection is gone with all it owned. -/
theorem run_leaves_nothing {s : Server} (h : Reachable s) :
    (∀ e, s.enabled e = true → ∃ s', s.handle e = .ok s' ∧
      (s.stopping = true → s'.conns.length = s.conns.length)) ∧
    (s.Quiet → s.stopping = true ∧ s.listener = .closed ∧ s.stopAsync = .closed ∧
      ∀ c ∈ s.conns, Gone c) := by
  have hsafe := reachable_safe h
  refine ⟨fun e he => ?_, hsafe.of_quiet⟩
  obtain ⟨s', hs, -, hlen⟩ := handle_safe hsafe he
  exact ⟨s', hs, hlen⟩


/-- A run with one connection: a handshake whose answer is still being written when the server is
stopped and the client goes. -/
theorem run_leaves_nothing_sample : ∃ s : Server, s.conns.length = 1 ∧ s.stopping = true ∧
    ∀ c ∈ s.conns, Gone c := by
  have hopen : Reachable ⟨[⟨.live, .active, .live, .live, .live, true, .null, false, false, 0, 0⟩],
      .active, .active, true, false⟩ :=
    .step (e := .newConnection 0 true ⟨true, true, true, true, true, true⟩) .start rfl rfl
  have hdone : Reachable ⟨[⟨.live, .active, .live, .live, .live, true, .live, true, false, 2, 1⟩],
      .active, .active, true, false⟩ :=
    .step (e := .read 0 ⟨true, 517, ⟨.done, true, true, true, true,
      ⟨[.done], true, [⟨true, true, true, true⟩], true, false⟩, []⟩, [], .wants,
      ⟨[], true, [], true, false⟩⟩) hopen rfl rfl
  have hstop : Reachable ⟨[⟨.live, .active, .live, .live, .live, true, .live, true, false, 2, 1⟩],
      .closing, .closing, false, true⟩ :=
    .step (e := .stop) hdone rfl rfl
  have hleft : Reachable ⟨[⟨.live, .closing, .live, .live, .live, true, .live, true, true, 2, 1⟩],
      .closing, .closing, false, true⟩ :=
    .step (e := .read 0 ⟨false, -1, ⟨.wants, true, true, true, true,
      ⟨[], true, [], true, false⟩, []⟩, [], .wants, ⟨[], true, [], true, false⟩⟩) hstop rfl rfl
  have hwritten : Reachable
      ⟨[⟨.live, .closing, .live, .live, .live, true, .live, true, true, 0, 0⟩],
        .closing, .closing, false, true⟩ :=
    .step (e := .writeDone 0) hleft rfl rfl
  have hgone : Reachable
      ⟨[⟨.freed, .closed, .freed, .freed, .freed, true, .freed, true, true, 0, 0⟩],
        .closing, .closing, false, true⟩ :=
    .step (e := .connClosed 0) hwritten rfl rfl
  have hunbound := hgone.step (e := .listenerClosed) rfl rfl
  have hdown := hunbound.step (e := .asyncClosed) rfl rfl
  have hquiet := (run_leaves_nothing hdown).2 ⟨rfl, rfl, by simp [Handle.quiet]⟩
  exact ⟨_, rfl, hquiet.1, hquiet.2.2.2⟩

end Connections

end Nssf
