import Mathlib.Algebra.Order.Ring.Rat
import Nssf.Json.Parse

/-! What the program draws from its surroundings and what it does to them. Each stream holds
the answers of one source in the order they are asked for: allocating calls, clocks, the
jitter source, and the two outbound transports. The effects are kept oldest first. -/

namespace Nssf

open Base

/-- A nonzero `rc` is a failure below HTTP; the status counts only when `rc` is zero. -/
structure Delivery where
  rc : ℤ
  status : ℤ
  deriving DecidableEq, Repr, Inhabited

structure TokenAnswer where
  rc : ℤ
  status : ℤ
  body : Option String
  deriving DecidableEq, Repr, Inhabited

inductive Effect where
  | post (uri body : String) (headers : List String)
  | tokenPost (url form : String) (basicAuth : Option String)
  | backoffSleep (ms : ℕ)
  | deadLetterSignal (status : ℤ) (oauthError : Option String)
  deriving DecidableEq, Repr

structure Env where
  alloc : Stream' Bool
  clockMs : Stream' ℤ
  time : Stream' ℤ
  jitter : Stream' ℚ
  delivery : Stream' Delivery
  token : Stream' TokenAnswer
  correlations : ℕ
  uuids : ℕ
  effects : List Effect

abbrev Run := Prog Env Fault

namespace Env

/-- Every allocating call succeeds. -/
def AllocOk (e : Env) : Prop := ∀ n, e.alloc.get n = true

/-- An environment in which nothing fails and the clocks stand still. -/
def quiet : Env where
  alloc := Stream'.const true
  clockMs := Stream'.const 0
  time := Stream'.const 0
  jitter := Stream'.const 0
  delivery := Stream'.const ⟨0, 200⟩
  token := Stream'.const ⟨0, 200, none⟩
  correlations := 0
  uuids := 0
  effects := []

theorem allocOk_quiet : quiet.AllocOk := fun _ => rfl

def popAlloc (e : Env) : Env := { e with alloc := e.alloc.tail }

theorem AllocOk.head {e : Env} (h : e.AllocOk) : e.alloc.head = true := h 0

theorem AllocOk.popAlloc {e : Env} (h : e.AllocOk) : e.popAlloc.AllocOk :=
  fun n => h (n + 1)

end Env

namespace Run

def alloc : Run Bool := fun e => .ok (e.alloc.head, e.popAlloc)

def clockMs : Run ℤ := fun e => .ok (e.clockMs.head, { e with clockMs := e.clockMs.tail })

def time : Run ℤ := fun e => .ok (e.time.head, { e with time := e.time.tail })

def jitterUnit : Run ℚ := fun e => .ok (e.jitter.head, { e with jitter := e.jitter.tail })

def emit (x : Effect) : Run Unit := fun e => .ok ((), { e with effects := e.effects ++ [x] })

def nextCorrelation : Run ℕ := fun e =>
  .ok (e.correlations + 1, { e with correlations := e.correlations + 1 })

def nextUuid : Run ℕ := fun e => .ok (e.uuids + 1, { e with uuids := e.uuids + 1 })

def deliver (uri body : String) (headers : List String) : Run Delivery := do
  emit (.post uri body headers)
  fun e => .ok (e.delivery.head, { e with delivery := e.delivery.tail })

def askToken (url form : String) (basicAuth : Option String) : Run TokenAnswer := do
  emit (.tokenPost url form basicAuth)
  fun e => .ok (e.token.head, { e with token := e.token.tail })

/-- A call that hands out a value it has to allocate. -/
def allocated {α : Type} (a : α) : Run (Option α) := do
  if ← alloc then return some a else return none

/-- An absent field is copied without allocating. -/
def copyField {α : Type} (v : Option α) : Run (Option (Option α)) :=
  match v with
  | none => pure (some none)
  | some a => do
    match ← allocated a with
    | none => return none
    | some a => return some (some a)

theorem alloc_apply (e : Env) : alloc e = .ok (e.alloc.head, e.popAlloc) := rfl

theorem allocated_apply {α : Type} (a : α) (e : Env) :
    allocated a e = .ok (if e.alloc.head then some a else none, e.popAlloc) := by
  unfold allocated
  rw [Prog.bind_of_ok (alloc_apply e)]
  cases e.alloc.head <;> rfl

end Run

namespace Json

open Run

def duplicate (j : Option Json) : Run (Option Json) :=
  match j with
  | none => pure none
  | some j => allocated j

def createObject : Run (Option Json) := allocated (.object [])

def createArray : Run (Option Json) := allocated (.array [])

def parse (text : String) : Run (Option Json) := do
  if ← alloc then return parseText text else return none

def print (j : Json) : Run (Option String) := allocated (printText j)

def addItemToObject (obj : Json) (name : String) (v : Option Json) : Run Json :=
  match v with
  | none => pure obj
  | some v => do if ← alloc then return obj.addItem name v else return obj

def addStringToObject (obj : Json) (name value : String) : Run Json := do
  if ← alloc then return obj.addItem name (.string value) else return obj

end Json

def addOptionalString (obj : Json) (name : String) (value : Option String) : Run Json :=
  match value with
  | none => pure obj
  | some v => obj.addStringToObject name v

namespace Env

/-- What happened outside between two environments, all of it allowed by `P`. -/
def Emits (P : Effect → Prop) (e e' : Env) : Prop :=
  ∃ new, e'.effects = e.effects ++ new ∧ ∀ x ∈ new, P x

theorem Emits.of_eq {P : Effect → Prop} {e e' : Env} (h : e'.effects = e.effects) :
    Emits P e e' := ⟨[], by rw [h, List.append_nil], by simp⟩

theorem Emits.refl {P : Effect → Prop} (e : Env) : Emits P e e := .of_eq rfl

theorem Emits.trans {P : Effect → Prop} {e e' e'' : Env} (h : Emits P e e')
    (h' : Emits P e' e'') : Emits P e e'' := by
  obtain ⟨new, hn, hP⟩ := h
  obtain ⟨new', hn', hP'⟩ := h'
  refine ⟨new ++ new', by rw [hn', hn, List.append_assoc], ?_⟩
  intro x hx
  rcases List.mem_append.1 hx with hx | hx
  · exact hP x hx
  · exact hP' x hx

theorem Emits.silent {e e' : Env} (h : Emits (fun _ => False) e e') :
    e'.effects = e.effects := by
  obtain ⟨new, hn, hP⟩ := h
  rw [hn, List.eq_nil_iff_forall_not_mem.2 hP, List.append_nil]

end Env

namespace Run

open Base Prog

/-- The program returns, and every effect on the way is allowed by `P`. -/
def Emitting {α : Type} (P : Effect → Prop) (m : Run α) : Prop := Keeps (Env.Emits P) m

/-- The program has no effect if it returns. -/
def Silent {α : Type} (m : Run α) : Prop := Within (fun e e' => e'.effects = e.effects) m

section emitting

variable {P : Effect → Prop} {α β : Type}

theorem emitting_pure (a : α) : Emitting P (pure a) := Keeps.pure Env.Emits.refl a

theorem emitting_bind {m : Run α} {f : α → Run β} (hm : Emitting P m)
    (hf : ∀ a, Emitting P (f a)) : Emitting P (m >>= f) :=
  Keeps.bind (R := Env.Emits P) (fun h h' => h.trans h') hm hf

theorem emitting_alloc : Emitting P alloc := fun _ => ⟨_, _, rfl, .of_eq rfl⟩

theorem emitting_time : Emitting P time := fun _ => ⟨_, _, rfl, .of_eq rfl⟩

theorem emitting_clockMs : Emitting P clockMs := fun _ => ⟨_, _, rfl, .of_eq rfl⟩

theorem emitting_jitterUnit : Emitting P jitterUnit := fun _ => ⟨_, _, rfl, .of_eq rfl⟩

theorem emitting_nextCorrelation : Emitting P nextCorrelation := fun _ =>
  ⟨_, _, rfl, .of_eq rfl⟩

theorem emitting_nextUuid : Emitting P nextUuid := fun _ => ⟨_, _, rfl, .of_eq rfl⟩

theorem emitting_allocated (a : α) : Emitting P (allocated a) := by
  refine emitting_bind emitting_alloc fun b => ?_
  cases b
  · exact emitting_pure none
  · exact emitting_pure (some a)

theorem emitting_emit {x : Effect} (hx : P x) : Emitting P (emit x) := fun _ =>
  ⟨_, _, rfl, [x], rfl, by simpa using hx⟩

theorem emitting_askToken {url form : String} {auth : Option String}
    (h : P (.tokenPost url form auth)) : Emitting P (askToken url form auth) :=
  emitting_bind (emitting_emit h) fun _ _ => ⟨_, _, rfl, .of_eq rfl⟩

theorem emitting_deliver {uri body : String} {headers : List String}
    (h : P (.post uri body headers)) : Emitting P (deliver uri body headers) :=
  emitting_bind (emitting_emit h) fun _ _ => ⟨_, _, rfl, .of_eq rfl⟩

theorem emitting_parse (text : String) : Emitting P (Json.parse text) := by
  refine emitting_bind emitting_alloc fun b => ?_
  cases b
  · exact emitting_pure none
  · exact emitting_pure (Json.parseText text)

theorem Emitting.silent {m : Run α} (h : Emitting (fun _ => False) m) : Silent m :=
  fun e a e' hm => (h.within e a e' hm).silent

theorem silent_bind {m : Run α} {f : α → Run β} (hm : Silent m) (hf : ∀ a, Silent (f a)) :
    Silent (m >>= f) :=
  Within.bind (R := fun e e' : Env => e'.effects = e.effects) (fun h h' => h'.trans h) hm hf

theorem silent_getObjectItem (node : Option Json) (name : String) :
    Silent (Json.getObjectItem node name) := by
  intro e r e' h
  unfold Json.getObjectItem at h
  split at h
  · cases h
    rfl
  · cases h
  · cases h
    rfl

end emitting

end Run

end Nssf
