import Mathlib
import Nssf.Server.Handlers

/-! The streams of a connection. The session hands each frame to its callbacks, whatever the
streams it comes from, and what the callbacks keep of a request is put to the router when the
stream is closed from the other side. -/

namespace Nssf

namespace Streams

/-- What is kept of a stream: the request, and the answer on its way out. -/
structure StreamCtx where
  method : Option String
  path : Option String
  authorization : Option String
  respBody : List Char
  respOff : ℕ

def StreamCtx.fresh : StreamCtx := ⟨none, none, none, [], 0⟩

inductive FrameType where
  | headers
  | data
  | other
  deriving DecidableEq

/-- What the session reports. `granted` is the answer to the allocations of the callback; with
`isRequest` the frame opens the stream. -/
inductive Event where
  | beginHeaders (id : ℕ) (isRequest granted : Bool)
  | header (id : ℕ) (isRequest : Bool) (name value : String) (granted : Bool)
  | frame (id : ℕ) (type : FrameType) (endStream granted : Bool)
  | dataChunk (id : ℕ) (bytes : List Char)
  | read (id length : ℕ)
  | close (id : ℕ)

def Event.stream : Event → ℕ
  | .beginHeaders id _ _ => id
  | .header id _ _ _ _ => id
  | .frame id _ _ _ => id
  | .dataChunk id _ => id
  | .read id _ => id
  | .close id => id

def Event.granted : Event → Bool
  | .beginHeaders _ _ granted => granted
  | .header _ _ _ _ granted => granted
  | .frame _ _ _ granted => granted
  | .dataChunk _ _ => true
  | .read _ _ => true
  | .close _ => true

/-- A call of the router. -/
structure Call where
  stream : ℕ
  request : Request
  answer : Response

/-- What was given to the session for a DATA frame of the answer. -/
structure Chunk where
  stream : ℕ
  bytes : List Char
  eof : Bool

/-- A connection with the router behind it. Both lists have the oldest entry first. -/
structure Conn (ρ : Type) where
  ctx : ℕ → Option StreamCtx
  router : ρ
  closing : Bool
  calls : List Call
  sent : List Chunk

variable {ρ : Type}

def Conn.start (router : ρ) : Conn ρ := ⟨fun _ => none, router, false, [], []⟩

def Conn.setCtx (c : Conn ρ) (id : ℕ) (sc : Option StreamCtx) : Conn ρ :=
  { c with ctx := Function.update c.ctx id sc }

/-- The session is given up when a callback fails. -/
def Conn.fail (c : Conn ρ) : Conn ρ := { c with closing := true }

def onBeginHeaders (c : Conn ρ) (id : ℕ) (isRequest granted : Bool) : Conn ρ :=
  if !isRequest then c
  else if granted then c.setCtx id (some .fresh)
  else c.fail

def onHeader (c : Conn ρ) (id : ℕ) (isRequest : Bool) (name value : String) (granted : Bool) :
    Conn ρ :=
  if !isRequest then c
  else
    match c.ctx id with
    | none => c
    | some sc =>
      if name = ":method" then
        if sc.method.isSome then c
        else if granted then c.setCtx id (some { sc with method := some value }) else c.fail
      else if name = ":path" then
        if sc.path.isSome then c
        else if granted then c.setCtx id (some { sc with path := some value }) else c.fail
      else if name = "authorization" then
        if sc.authorization.isSome then c
        else if granted then c.setCtx id (some { sc with authorization := some value })
        else c.fail
      else c

/-- The request as it is put to the router; what is not set is absent or zero. -/
def routerRequest (sc : StreamCtx) : Request where
  method := some (sc.method.getD "")
  path := some (sc.path.getD "")
  authorization := sc.authorization
  maxUriLen := 0
  contentType := none
  body := none
  contentLength := 0
  hasContentLength := false
  maxBodyLen := 0

variable (dispatch : Request → ρ → Response × ρ)

def submitResponse (c : Conn ρ) (id : ℕ) (sc : StreamCtx) (granted : Bool) : Conn ρ :=
  let (answer, router) := dispatch (routerRequest sc) c.router
  let c := { c with router := router, calls := c.calls ++ [Call.mk id (routerRequest sc) answer] }
  let c := c.setCtx id (some { sc with respBody := (answer.body.getD "").toList, respOff := 0 })
  if granted then c else c.fail

def onFrameRecv (c : Conn ρ) (id : ℕ) (type : FrameType) (endStream granted : Bool) : Conn ρ :=
  if endStream && (type == .headers || type == .data) then
    match c.ctx id with
    | none => c
    | some sc => submitResponse dispatch c id sc granted
  else c

/-- What is left of the answer, as far as the buffer goes. -/
def respRead (sc : StreamCtx) (length : ℕ) : List Char × Bool × StreamCtx :=
  let bytes := (sc.respBody.drop sc.respOff).take length
  let off := sc.respOff + bytes.length
  (bytes, decide (sc.respBody.length ≤ off), { sc with respOff := off })

def respReadCb (c : Conn ρ) (id length : ℕ) : Conn ρ :=
  match c.ctx id with
  | none => c
  | some sc =>
    let (bytes, eof, sc) := respRead sc length
    { c.setCtx id (some sc) with sent := c.sent ++ [Chunk.mk id bytes eof] }

/-- No callback is registered for the bytes of a DATA frame. -/
def step (c : Conn ρ) (ev : Event) : Conn ρ :=
  if c.closing then c
  else
    match ev with
    | .beginHeaders id isRequest granted => onBeginHeaders c id isRequest granted
    | .header id isRequest name value granted => onHeader c id isRequest name value granted
    | .frame id type endStream granted => onFrameRecv dispatch c id type endStream granted
    | .dataChunk _ _ => c
    | .read id length => respReadCb c id length
    | .close id => c.setCtx id none

def run (c : Conn ρ) (events : List Event) : Conn ρ := events.foldl (step dispatch) c

section part

/-- What of a connection belongs to one stream. -/
structure Part where
  ctx : Option StreamCtx
  calls : List Call
  sent : List Chunk

def Conn.part (c : Conn ρ) (id : ℕ) : Part :=
  ⟨c.ctx id, c.calls.filter fun call => call.stream = id,
    c.sent.filter fun chunk => chunk.stream = id⟩

theorem part_setCtx_of_ne (c : Conn ρ) {id other : ℕ} (h : other ≠ id) (sc : Option StreamCtx) :
    (c.setCtx other sc).part id = c.part id := by
  simp [Conn.part, Conn.setCtx, Function.update_of_ne h.symm]

theorem part_setCtx (c : Conn ρ) (id : ℕ) (sc : Option StreamCtx) :
    (c.setCtx id sc).part id = { c.part id with ctx := sc } := by
  simp [Conn.part, Conn.setCtx]

variable {dispatch}

theorem closing_step {c : Conn ρ} {ev : Event} (hc : c.closing = false)
    (hev : ev.granted = true) : (step dispatch c ev).closing = false := by
  have hset : ∀ id sc, (c.setCtx id sc).closing = false := fun _ _ => hc
  simp only [step, hc, Bool.false_eq_true, if_false]
  cases ev with
  | beginHeaders id isRequest granted =>
    obtain rfl : granted = true := hev
    simp only [onBeginHeaders, if_true]
    split_ifs
    · exact hc
    · exact hset id _
  | header id isRequest name value granted =>
    obtain rfl : granted = true := hev
    simp only [onHeader, if_true]
    cases c.ctx id with
    | none => split_ifs <;> exact hc
    | some sc =>
      simp only
      split_ifs
      all_goals exact hc
  | frame id type endStream granted =>
    obtain rfl : granted = true := hev
    simp only [onFrameRecv]
    cases c.ctx id with
    | none => split_ifs <;> exact hc
    | some sc =>
      simp only [submitResponse, if_true]
      split_ifs
      · exact hc
      · exact hc
  | dataChunk id bytes => exact hc
  | read id length =>
    simp only [respReadCb]
    cases c.ctx id with
    | none => exact hc
    | some sc => exact hc
  | close id => exact hset id none

/-- An event of another stream leaves a stream's part as it is. -/
theorem part_step_of_ne {c : Conn ρ} {ev : Event} {id : ℕ} (hc : c.closing = false)
    (hne : ev.stream ≠ id) : (step dispatch c ev).part id = c.part id := by
  have hset := fun sc => part_setCtx_of_ne c hne sc
  have hfail : c.fail.part id = c.part id := rfl
  simp only [step, hc, Bool.false_eq_true, if_false]
  cases ev with
  | beginHeaders other isRequest granted =>
    simp only [onBeginHeaders]
    split_ifs
    · rfl
    · exact hset _
    · exact hfail
  | header other isRequest name value granted =>
    simp only [onHeader]
    cases c.ctx other with
    | none => split_ifs <;> rfl
    | some sc =>
      simp only
      split_ifs
      all_goals first | rfl | exact hset _
  | frame other type endStream granted =>
    simp only [onFrameRecv]
    have hother : other ≠ id := hne
    cases c.ctx other with
    | none => split_ifs <;> rfl
    | some sc =>
      simp only [submitResponse]
      split_ifs
      · simp [Conn.part, Conn.setCtx, Function.update_of_ne hother.symm, hother]
      · simp [Conn.part, Conn.setCtx, Conn.fail, Function.update_of_ne hother.symm, hother]
      · rfl
  | dataChunk other bytes => rfl
  | read other length =>
    have hother : other ≠ id := hne
    simp only [respReadCb]
    cases c.ctx other with
    | none => rfl
    | some sc => simp [Conn.part, Conn.setCtx, Function.update_of_ne hother.symm, hother]
  | close other => exact hset none

variable (dispatch) in
/-- What an event of its own can make of a stream's part. -/
def PartStep (id : ℕ) (p : Part) (ev : Event) (p' : Part) : Prop :=
  ∃ c : Conn ρ, c.closing = false ∧ c.part id = p ∧ (step dispatch c ev).part id = p'

variable (dispatch) in
inductive Moves (id : ℕ) : Part → List Event → Part → Prop
  | done (p : Part) : Moves id p [] p
  | step {p p' p'' : Part} {ev : Event} {evs : List Event} (h : PartStep dispatch id p ev p')
      (hrest : Moves id p' evs p'') : Moves id p (ev :: evs) p''

/-- The part of a stream moves by the events of the stream alone. -/
theorem moves_run {c : Conn ρ} {events : List Event} (id : ℕ) (hc : c.closing = false)
    (hgranted : ∀ ev ∈ events, ev.granted = true) :
    Moves dispatch id (c.part id) (events.filter fun ev => ev.stream = id)
      ((run dispatch c events).part id) := by
  induction events generalizing c with
  | nil => exact .done _
  | cons ev events ih =>
    have hnext := @closing_step ρ dispatch c ev hc (hgranted ev List.mem_cons_self)
    have hrest := ih hnext fun ev' hev' => hgranted ev' (List.mem_cons_of_mem _ hev')
    by_cases hid : ev.stream = id
    · rw [List.filter_cons_of_pos (by simpa using hid)]
      exact .step ⟨c, hc, rfl, rfl⟩ hrest
    · rw [List.filter_cons_of_neg (by simpa using hid)]
      rw [part_step_of_ne hc hid] at hrest
      exact hrest

theorem Moves.append {id : ℕ} {p p'' : Part} {evs evs' : List Event}
    (h : Moves dispatch id p (evs ++ evs') p'') :
    ∃ p', Moves dispatch id p evs p' ∧ Moves dispatch id p' evs' p'' := by
  induction evs generalizing p with
  | nil => exact ⟨p, .done p, h⟩
  | cons ev evs ih =>
    cases h with
    | step hstep hrest =>
      obtain ⟨p', hfirst, hsecond⟩ := ih hrest
      exact ⟨p', .step hstep hfirst, hsecond⟩

theorem Moves.head {id : ℕ} {p p'' : Part} {ev : Event} {evs : List Event}
    (h : Moves dispatch id p (ev :: evs) p'') :
    ∃ p', PartStep dispatch id p ev p' ∧ Moves dispatch id p' evs p'' := by
  cases h with
  | step hstep hrest => exact ⟨_, hstep, hrest⟩

theorem Moves.nil_eq {id : ℕ} {p p' : Part} (h : Moves dispatch id p [] p') : p' = p := by
  cases h
  rfl

end part

section steps

variable {dispatch} {id : ℕ} {p p' : Part} {sc : StreamCtx}

/-- A header fills its slot if that is empty. -/
def StreamCtx.put (sc : StreamCtx) (name value : String) : StreamCtx :=
  if name = ":method" then { sc with method := some (sc.method.getD value) }
  else if name = ":path" then { sc with path := some (sc.path.getD value) }
  else if name = "authorization" then
    { sc with authorization := some (sc.authorization.getD value) }
  else sc

theorem partStep_beginHeaders (h : PartStep dispatch id p (.beginHeaders id true true) p') :
    p' = { p with ctx := some .fresh } := by
  obtain ⟨c, hc, rfl, rfl⟩ := h
  simp only [step, hc, onBeginHeaders]
  exact part_setCtx c id _

theorem partStep_header {name value : String} (hsc : p.ctx = some sc)
    (h : PartStep dispatch id p (.header id true name value true) p') :
    p' = { p with ctx := some (sc.put name value) } := by
  obtain ⟨c, hc, rfl, rfl⟩ := h
  have hctx : c.ctx id = some sc := hsc
  have hstay : c.part id = { c.part id with ctx := some sc } := by rw [← hsc]
  have hset : ∀ sc', (c.setCtx id sc').part id = { c.part id with ctx := sc' } := part_setCtx c id
  simp only [step, hc, onHeader, hctx, StreamCtx.put, Bool.false_eq_true, Bool.not_true, if_false,
    if_true]
  split_ifs with hm hsome hp hsome ha hsome
  · obtain ⟨v, hv⟩ := Option.isSome_iff_exists.1 hsome
    have hsame : { sc with method := some (sc.method.getD value) } = sc := by
      rw [hv, Option.getD_some, ← hv]
    rw [hsame]
    exact hstay
  · have hnone : sc.method = none := by simpa using hsome
    rw [hset, hnone]
    rfl
  · obtain ⟨v, hv⟩ := Option.isSome_iff_exists.1 hsome
    have hsame : { sc with path := some (sc.path.getD value) } = sc := by
      rw [hv, Option.getD_some, ← hv]
    rw [hsame]
    exact hstay
  · have hnone : sc.path = none := by simpa using hsome
    rw [hset, hnone]
    rfl
  · obtain ⟨v, hv⟩ := Option.isSome_iff_exists.1 hsome
    have hsame : { sc with authorization := some (sc.authorization.getD value) } = sc := by
      rw [hv, Option.getD_some, ← hv]
    rw [hsame]
    exact hstay
  · have hnone : sc.authorization = none := by simpa using hsome
    rw [hset, hnone]
    rfl
  · exact hstay

/-- The end of a stream puts its request to the router. -/
theorem partStep_last {type : FrameType} (htype : type = .headers ∨ type = .data)
    (hsc : p.ctx = some sc) (h : PartStep dispatch id p (.frame id type true true) p') :
    ∃ answer : Response, p' =
      { ctx := some { sc with respBody := (answer.body.getD "").toList, respOff := 0 }
        calls := p.calls ++ [Call.mk id (routerRequest sc) answer]
        sent := p.sent } := by
  obtain ⟨c, hc, rfl, rfl⟩ := h
  have hctx : c.ctx id = some sc := hsc
  refine ⟨(dispatch (routerRequest sc) c.router).1, ?_⟩
  rcases htype with rfl | rfl
  · simp [step, hc, onFrameRecv, hctx, submitResponse, Conn.part, Conn.setCtx]
  · simp [step, hc, onFrameRecv, hctx, submitResponse, Conn.part, Conn.setCtx]

theorem partStep_frame {type : FrameType} {granted : Bool}
    (h : PartStep dispatch id p (.frame id type false granted) p') : p' = p := by
  obtain ⟨c, hc, rfl, rfl⟩ := h
  simp only [step, hc, onFrameRecv]
  rfl

theorem partStep_dataChunk {bytes : List Char}
    (h : PartStep dispatch id p (.dataChunk id bytes) p') : p' = p := by
  obtain ⟨c, hc, rfl, rfl⟩ := h
  simp only [step, hc]
  rfl

theorem partStep_close (h : PartStep dispatch id p (.close id) p') :
    p' = { p with ctx := none } := by
  obtain ⟨c, hc, rfl, rfl⟩ := h
  simp only [step, hc]
  exact part_setCtx c id none

theorem partStep_read {length : ℕ} (hsc : p.ctx = some sc)
    (h : PartStep dispatch id p (.read id length) p') :
    p' =
      { p with
        ctx := some (respRead sc length).2.2
        sent := p.sent ++ [Chunk.mk id (respRead sc length).1 (respRead sc length).2.1] } := by
  obtain ⟨c, hc, rfl, rfl⟩ := h
  have hctx : c.ctx id = some sc := hsc
  simp [step, hc, respReadCb, hctx, Conn.part, Conn.setCtx]

end steps

section requests

variable {dispatch} {id : ℕ} {p p' : Part} {sc : StreamCtx}

/-- The DATA frames of a request, the last of which ends the stream. -/
def dataEvents (id : ℕ) : List (List Char) → List Event
  | [] => []
  | bytes :: rest =>
    .dataChunk id bytes :: .frame id .data rest.isEmpty true :: dataEvents id rest

/-- A header block and the frames of a body. -/
def requestEvents (id : ℕ) (headers : List (String × String)) (frames : List (List Char)) :
    List Event :=
  .beginHeaders id true true :: ((headers.map fun h => Event.header id true h.1 h.2 true) ++
    .frame id .headers frames.isEmpty true :: dataEvents id frames)

/-- The first value of a header. -/
def valueOf (headers : List (String × String)) (name : String) : Option String :=
  (headers.find? fun h => h.1 = name).map Prod.snd

def fill (sc : StreamCtx) (headers : List (String × String)) : StreamCtx :=
  headers.foldl (fun sc h => sc.put h.1 h.2) sc

theorem slot_fill {slot : StreamCtx → Option String} {name : String}
    (hput : ∀ sc n v, slot (sc.put n v) = if n = name then some ((slot sc).getD v) else slot sc)
    (sc : StreamCtx) (headers : List (String × String)) :
    slot (fill sc headers) = (slot sc).or (valueOf headers name) := by
  induction headers generalizing sc with
  | nil => simp [fill, valueOf]
  | cons h headers ih =>
    have hcons : slot (fill sc (h :: headers)) =
        (slot (sc.put h.1 h.2)).or (valueOf headers name) := ih _
    rw [hcons, hput]
    by_cases hname : h.1 = name
    · cases hslot : slot sc with
      | none => simp [valueOf, hname]
      | some v => simp [hname]
    · simp [valueOf, hname]

theorem fill_method (headers : List (String × String)) :
    (fill .fresh headers).method = valueOf headers ":method" := by
  refine (slot_fill (fun sc n v => ?_) .fresh headers).trans (Option.none_or)
  simp only [StreamCtx.put]
  split_ifs <;> rfl

theorem fill_path (headers : List (String × String)) :
    (fill .fresh headers).path = valueOf headers ":path" := by
  refine (slot_fill (fun sc n v => ?_) .fresh headers).trans (Option.none_or)
  simp only [StreamCtx.put]
  split_ifs with hm hp
  · exact absurd (hm.symm.trans hp) (by decide)
  all_goals rfl

theorem fill_authorization (headers : List (String × String)) :
    (fill .fresh headers).authorization = valueOf headers "authorization" := by
  refine (slot_fill (fun sc n v => ?_) .fresh headers).trans (Option.none_or)
  simp only [StreamCtx.put]
  split_ifs with hm ha hp ha
  · exact absurd (hm.symm.trans ha) (by decide)
  · rfl
  · exact absurd (hp.symm.trans ha) (by decide)
  all_goals rfl

theorem moves_headers {headers : List (String × String)} (hsc : p.ctx = some sc)
    (h : Moves dispatch id p (headers.map fun h => Event.header id true h.1 h.2 true) p') :
    p' = { p with ctx := some (fill sc headers) } := by
  induction headers generalizing p sc with
  | nil =>
    rw [h.nil_eq, fill, List.foldl_nil, ← hsc]
  | cons header headers ih =>
    obtain ⟨q, hstep, hrest⟩ := h.head
    have hq := partStep_header hsc hstep
    have hctx : q.ctx = some (sc.put header.1 header.2) := by rw [hq]
    rw [ih hctx hrest, hq]
    rfl

/-- The part of a stream whose request was put to the router. -/
def Part.dispatched (p : Part) (id : ℕ) (sc : StreamCtx) (answer : Response) : Part where
  ctx := some { sc with respBody := (answer.body.getD "").toList, respOff := 0 }
  calls := p.calls ++ [Call.mk id (routerRequest sc) answer]
  sent := p.sent

theorem moves_data {frames : List (List Char)} (hframes : frames ≠ []) (hsc : p.ctx = some sc)
    (h : Moves dispatch id p (dataEvents id frames) p') :
    ∃ answer, p' = p.dispatched id sc answer := by
  induction frames generalizing p with
  | nil => exact absurd rfl hframes
  | cons bytes rest ih =>
    obtain ⟨q, hchunk, hafter⟩ := h.head
    rw [partStep_dataChunk hchunk] at hafter
    obtain ⟨q', hframe, hrest⟩ := hafter.head
    cases rest with
    | nil =>
      obtain ⟨answer, hq⟩ := partStep_last (Or.inr rfl) hsc hframe
      exact ⟨answer, hrest.nil_eq.trans hq⟩
    | cons bytes' rest =>
      rw [partStep_frame hframe] at hrest
      exact ih (List.cons_ne_nil _ _) hsc hrest

theorem moves_request {headers : List (String × String)} {frames : List (List Char)}
    (h : Moves dispatch id p (requestEvents id headers frames) p') :
    ∃ answer, p' = p.dispatched id (fill .fresh headers) answer := by
  obtain ⟨q, hbegin, hrest⟩ := h.head
  have hq := partStep_beginHeaders hbegin
  obtain ⟨q', hheaders, hrest⟩ := hrest.append
  have hq' := moves_headers (by rw [hq]) hheaders
  obtain ⟨q'', hframe, hdata⟩ := hrest.head
  have hctx : q'.ctx = some (fill .fresh headers) := by rw [hq']
  cases frames with
  | nil =>
    obtain ⟨answer, hlast⟩ := partStep_last (Or.inl rfl) hctx hframe
    refine ⟨answer, ?_⟩
    rw [hdata.nil_eq, hlast, hq', hq]
    rfl
  | cons bytes rest =>
    rw [partStep_frame hframe] at hdata
    obtain ⟨answer, hlast⟩ := moves_data (List.cons_ne_nil _ _) hctx hdata
    refine ⟨answer, ?_⟩
    rw [hlast, hq', hq]
    rfl

end requests

section reads

variable {dispatch} {id : ℕ} {p p' : Part} {sc : StreamCtx}

/-- What was sent of a body for buffers of these sizes: as much as goes in, and the end is
told with the last of it. -/
structure ReadOut (body : List Char) (lengths : List ℕ) (sent : List Chunk) : Prop where
  bytes : (sent.map Chunk.bytes).flatten = body.take lengths.sum
  eof : ∀ before chunk after, sent = before ++ chunk :: after →
    (chunk.eof = true ↔ ((before ++ [chunk]).map Chunk.bytes).flatten = body)

theorem ReadOut.read {body : List Char} {lengths : List ℕ} {sent : List Chunk}
    (h : ReadOut body lengths sent) (hbody : sc.respBody = body)
    (hoff : sc.respOff = min lengths.sum body.length) (length : ℕ) :
    ReadOut body (lengths ++ [length])
      (sent ++ [Chunk.mk id (respRead sc length).1 (respRead sc length).2.1]) ∧
      (respRead sc length).2.2.respOff = min (lengths ++ [length]).sum body.length := by
  have hcount : (respRead sc length).1.length =
      min length (body.length - min lengths.sum body.length) := by
    simp [respRead, hbody, hoff]
  have hnext : (respRead sc length).2.2.respOff = min (lengths ++ [length]).sum body.length := by
    have hadd : (respRead sc length).2.2.respOff = sc.respOff + (respRead sc length).1.length := rfl
    rw [hadd, hcount, hoff, List.sum_append, List.sum_singleton]
    omega
  have htake : body.take lengths.sum ++ (respRead sc length).1 =
      body.take (lengths ++ [length]).sum := by
    have hfirst : body.take lengths.sum = body.take sc.respOff := by
      rw [hoff, List.take_eq_take_iff]
      omega
    have hread : (respRead sc length).1 = (body.drop sc.respOff).take length := by
      rw [← hbody]
      rfl
    rw [hfirst, hread, ← List.take_add, List.take_eq_take_iff, hoff, List.sum_append,
      List.sum_singleton]
    omega
  refine ⟨⟨?_, fun before chunk after heq => ?_⟩, hnext⟩
  · rw [List.map_append, List.flatten_append, h.bytes, ← htake]
    simp
  · rcases List.eq_nil_or_concat after with rfl | ⟨after', z, rfl⟩
    · obtain ⟨rfl, hlast⟩ := List.append_inj' heq rfl
      obtain rfl := List.singleton_inj.1 hlast
      rw [List.map_append, List.flatten_append, h.bytes]
      have hall : body.take lengths.sum ++ (respRead sc length).1 = body ↔
          body.length ≤ (lengths ++ [length]).sum := by
        rw [htake]
        refine ⟨fun h => ?_, List.take_of_length_le⟩
        have hlength := congrArg List.length h
        rw [List.length_take] at hlength
        omega
      have hend : (respRead sc length).2.1 = true ↔
          body.length ≤ (respRead sc length).2.2.respOff := by
        rw [← hbody]
        exact decide_eq_true_iff
      simp only [List.map_cons, List.map_nil, List.flatten_cons, List.flatten_nil,
        List.append_nil]
      rw [hall, hend, hnext]
      omega
    · have heq' : sent ++ [Chunk.mk id (respRead sc length).1 (respRead sc length).2.1] =
          (before ++ chunk :: after') ++ [z] := by simpa using heq
      exact h.eof before chunk after' (List.append_inj' heq' rfl).1

theorem moves_reads {body : List Char} {before lengths : List ℕ} (hsc : p.ctx = some sc)
    (hbody : sc.respBody = body) (hoff : sc.respOff = min before.sum body.length)
    (hread : ReadOut body before p.sent)
    (h : Moves dispatch id p (lengths.map fun length => Event.read id length) p') :
    ReadOut body (before ++ lengths) p'.sent ∧ p'.calls = p.calls := by
  induction lengths generalizing p sc before with
  | nil =>
    rw [h.nil_eq, List.append_nil]
    exact ⟨hread, rfl⟩
  | cons length lengths ih =>
    obtain ⟨q, hstep, hrest⟩ := h.head
    have hq := partStep_read hsc hstep
    obtain ⟨hread', hoff'⟩ := @ReadOut.read id sc body before p.sent hread hbody hoff length
    have hctx : q.ctx = some (respRead sc length).2.2 := by rw [hq]
    have hsent : q.sent =
        p.sent ++ [Chunk.mk id (respRead sc length).1 (respRead sc length).2.1] := by rw [hq]
    have hcalls : q.calls = p.calls := by rw [hq]
    rw [← hsent] at hread'
    obtain ⟨hout, hsame⟩ := ih hctx hbody hoff' hread' hrest
    rw [List.append_assoc] at hout
    exact ⟨hout, hsame.trans hcalls⟩

end reads

section delivery

variable {dispatch} {id : ℕ} {headers : List (String × String)} {frames : List (List Char)}
variable {lengths : List ℕ} {lengthOf : String → ℕ}

/-- The request that was received, its length header read by `lengthOf`. -/
def received (lengthOf : String → ℕ) (headers : List (String × String))
    (frames : List (List Char)) : Request where
  method := some ((valueOf headers ":method").getD "")
  path := some ((valueOf headers ":path").getD "")
  authorization := valueOf headers "authorization"
  maxUriLen := 0
  contentType := valueOf headers "content-type"
  body := if frames.flatten = [] then none else some (String.ofList frames.flatten)
  contentLength := (valueOf headers "content-length").elim 0 lengthOf
  hasContentLength := (valueOf headers "content-length").isSome
  maxBodyLen := 0

/-- The router was called once for the stream, with the request that was received, and what
was sent is its answer. -/
def Delivered (lengthOf : String → ℕ) (id : ℕ) (headers : List (String × String))
    (frames : List (List Char)) (lengths : List ℕ) (c : Conn ρ) : Prop :=
  ∃ answer : Response,
    (c.calls.filter fun call => call.stream = id) =
      [Call.mk id (received lengthOf headers frames) answer] ∧
    ReadOut (answer.body.getD "").toList lengths (c.sent.filter fun chunk => chunk.stream = id)

/-- The request is all in its method, its path and its authorization. -/
structure Bare (headers : List (String × String)) (frames : List (List Char)) : Prop where
  contentType : valueOf headers "content-type" = none
  contentLength : valueOf headers "content-length" = none
  body : frames.flatten = []

theorem routerRequest_eq_received_iff :
    routerRequest (fill .fresh headers) = received lengthOf headers frames ↔
      Bare headers frames := by
  constructor
  · intro h
    refine ⟨(congrArg Request.contentType h).symm, ?_, ?_⟩
    · have hlength : false = (valueOf headers "content-length").isSome :=
        congrArg Request.hasContentLength h
      simpa using hlength.symm
    · have hbody : none = (received lengthOf headers frames).body := congrArg Request.body h
      by_contra hne
      simp only [received, if_neg hne] at hbody
      cases hbody
  · intro h
    simp [routerRequest, received, fill_method, fill_path, fill_authorization, h.contentType,
      h.contentLength, h.body]

/-- What a run makes of a request stream, whatever the other streams do in between. -/
theorem run_request {router : ρ} {events : List Event} {tail : List Event}
    (hgranted : ∀ ev ∈ events, ev.granted = true) (htail : tail = [] ∨ tail = [.close id])
    (hevents : (events.filter fun ev => ev.stream = id) =
      requestEvents id headers frames ++ (lengths.map (fun length => Event.read id length) ++
        tail)) :
    ∃ answer : Response,
      ((run dispatch (Conn.start router) events).calls.filter fun call => call.stream = id) =
        [Call.mk id (routerRequest (fill .fresh headers)) answer] ∧
      ReadOut (answer.body.getD "").toList lengths
        ((run dispatch (Conn.start router) events).sent.filter fun chunk => chunk.stream = id) := by
  have hmoves := @moves_run ρ dispatch (Conn.start router) events id rfl hgranted
  rw [hevents] at hmoves
  obtain ⟨p, hrequest, hrest⟩ := hmoves.append
  obtain ⟨answer, hp⟩ := moves_request hrequest
  obtain ⟨q, hreads, hclose⟩ := hrest.append
  have hstart : ReadOut (answer.body.getD "").toList [] p.sent := by
    have hempty : p.sent = [] := by
      rw [hp]
      rfl
    rw [hempty]
    exact ⟨rfl, fun before chunk after heq => absurd heq.symm (by simp)⟩
  have hctx : p.ctx = some { fill .fresh headers with
      respBody := (answer.body.getD "").toList, respOff := 0 } := by
    rw [hp]
    rfl
  obtain ⟨hout, hcalls⟩ := moves_reads hctx rfl (by simp) hstart hreads
  have hend : ((run dispatch (Conn.start router) events).part id).calls = q.calls ∧
      ((run dispatch (Conn.start router) events).part id).sent = q.sent := by
    rcases htail with rfl | rfl
    · rw [hclose.nil_eq]
      exact ⟨rfl, rfl⟩
    · obtain ⟨q', hstep, hdone⟩ := hclose.head
      rw [hdone.nil_eq, partStep_close hstep]
      exact ⟨rfl, rfl⟩
  refine ⟨answer, hend.1.trans (hcalls.trans ?_), ?_⟩
  · rw [hp]
    rfl
  · have hsent : ((run dispatch (Conn.start router) events).sent.filter
        fun chunk => chunk.stream = id) = q.sent := hend.2
    rw [hsent]
    exact hout

/-- While no allocation is refused, a stream is delivered just when its request has neither a
media type nor a length nor a body. -/
theorem delivered_iff {router : ρ} {events : List Event} {tail : List Event}
    (hgranted : ∀ ev ∈ events, ev.granted = true) (htail : tail = [] ∨ tail = [.close id])
    (hevents : (events.filter fun ev => ev.stream = id) =
      requestEvents id headers frames ++ (lengths.map (fun length => Event.read id length) ++
        tail)) :
    Delivered lengthOf id headers frames lengths (run dispatch (Conn.start router) events) ↔
      Bare headers frames := by
  obtain ⟨answer, hcalls, hout⟩ := run_request hgranted htail hevents
  rw [← routerRequest_eq_received_iff]
  constructor
  · rintro ⟨answer', hcalls', -⟩
    rw [hcalls] at hcalls'
    exact congrArg Call.request (List.singleton_inj.1 hcalls')
  · intro h
    rw [h] at hcalls
    exact ⟨answer, hcalls, hout⟩

end delivery

/-- No stream has a length that a handler would go on with. -/
theorem routerRequest_unmeasured (sc : StreamCtx) (s : Stores)
    (handle : Run (Response × Stores)) : lengthChecked (routerRequest sc) s handle =
      refuseWith (routerRequest sc) s .payloadLengthRequired none := rfl

def getHeaders : List (String × String) :=
  [(":method", "GET"), (":path", "/network-slice-information?nf-type=AMF"),
    ("authorization", "Bearer t")]

def postHeaders : List (String × String) :=
  [(":method", "POST"), (":path", "/nssai-availability/subscriptions"),
    ("content-type", "application/json"), ("content-length", "2")]

def postFrames : List (List Char) := ["\x7b\x7d".toList]

/-- A router that gives every request the same short answer. -/
def shortAnswer (_ : Request) (n : ℕ) : Response × ℕ := (⟨200, none, some "ok", "", ""⟩, n + 1)

/-- Two streams, the second of which comes in between. -/
def getEvents : List Event :=
  [.beginHeaders 1 true true, .header 1 true ":method" "GET" true,
    .beginHeaders 3 true true, .header 3 true ":method" "DELETE" true,
    .header 1 true ":path" "/network-slice-information?nf-type=AMF" true,
    .header 1 true "authorization" "Bearer t" true, .frame 1 .headers true true,
    .read 1 1, .frame 3 .headers true true, .read 1 16, .close 1]

theorem delivered_get : Delivered String.length 1 getHeaders [] [1, 16]
    (run shortAnswer (Conn.start 0) getEvents) :=
  (@delivered_iff ℕ shortAnswer 1 getHeaders [] [1, 16] String.length 0 getEvents [.close 1]
    (by decide) (Or.inr rfl) rfl).2 ⟨rfl, rfl, rfl⟩

/-- The body and the headers that tell of it never come to the router. -/
theorem post_not_delivered : ¬∀ (dispatch : Request → ℕ → Response × ℕ) (events : List Event),
    (∀ ev ∈ events, ev.granted = true) →
    (events.filter fun ev => ev.stream = 1) = requestEvents 1 postHeaders postFrames →
    Delivered String.length 1 postHeaders postFrames [] (run dispatch (Conn.start 0) events) := by
  intro h
  obtain ⟨answer, hcalls, -⟩ := h shortAnswer (requestEvents 1 postHeaders postFrames)
    (by decide) rfl
  have hlength : [false] = [true] :=
    congrArg (List.map fun call : Call => call.request.hasContentLength) hcalls
  cases hlength

end Streams

end Nssf
