import Nssf.Dispatcher.RetryStore
import Nssf.OAuth.Outbound

/-! One call of `dispatch_pending`: claim a due row, gate its URL, build the header lines with
the bearer last, attempt the POST once, and resolve the row in the store. The decision after
the attempt is a function of the attempt count read at the claim. -/

namespace Nssf

open Base Run OAuth

structure Dispatcher where
  oauth : Option Outbound
  allowInsecureLoopback : Bool
  deriving DecidableEq, Repr

def notificationDispatcherNew (oauth : Option Outbound) : Dispatcher := ⟨oauth, false⟩

def notificationDispatcherNewInsecure (oauth : Option Outbound) : Dispatcher := ⟨oauth, true⟩

inductive DispatchResult where
  | none
  | sent
  | dropped
  | forbidden
  | error
  deriving DecidableEq, Repr

def isSuccessStatus (status : ℤ) : Bool := decide (200 ≤ status ∧ status < 300)

def isRetriableStatus (status : ℤ) : Bool :=
  decide (500 ≤ status ∧ status < 600) || status == 429

/-- Sixteen lower-case hexadecimal digits of a 64-bit number. -/
def hex16 (n : ℕ) : List Char :=
  (List.range 16).map fun i => Nat.digitChar (n / 16 ^ (15 - i) % 16)

def genCorrelationHex : Run String := do
  let c ← nextCorrelation
  let t ← time
  return String.ofList (hex16 (t % 2 ^ 64).toNat ++ hex16 (c % 2 ^ 64))

def isXdigit (c : Char) : Bool :=
  Binary64.isDigit c || decide ('a' ≤ c ∧ c ≤ 'f') || decide ('A' ≤ c ∧ c ≤ 'F')

def toTraceId (src : String) : List Char :=
  let ds := ((src.toList.filter isXdigit).map tolower).take 32
  ds ++ List.replicate (32 - ds.length) '0'

def correlationLine (id : String) : String := "3gpp-Sbi-Correlation-Info: " ++ id

def traceparentLine (id : String) : String :=
  let t := toTraceId id
  "traceparent: 00-" ++ String.ofList t ++ "-" ++ String.ofList (t.take 16) ++ "-01"

/-- The buffer of the correlation line holds 192 bytes. -/
def appendCorrelation (headers : List String) (id : String) : Run (Option (List String)) := do
  if 192 ≤ (correlationLine id).length then return none
  else if ← alloc then
    if ← alloc then return some (headers ++ [correlationLine id, traceparentLine id])
    else return none
  else return none

def baseHeaders (correlationId : String) : Run (Option (List String)) := do
  if ← alloc then appendCorrelation ["Content-Type: application/json"] correlationId
  else return none

inductive HeaderBuild where
  | ok (headers : List String)
  | abort
  | failed
  deriving DecidableEq, Repr

def buildHeaders (d : Dispatcher) (correlationId : String) :
    Run (HeaderBuild × Dispatcher) := do
  match ← baseHeaders correlationId with
  | none => return (.failed, d)
  | some headers =>
    match d.oauth with
    | none => return (.ok headers, d)
    | some ob =>
      let (st, ob) ← attachBearer ob none headers
      let d := { d with oauth := some ob }
      match st with
      | .abort => return (.abort, d)
      | .ok headers => return (.ok headers, d)
      | .noAttach => return (.ok headers, d)

def effectiveCorrelation (inbound stored : Option String) : Run String :=
  match inbound.or stored with
  | some id => if correlationIdIsSafe id then pure id else genCorrelationHex
  | none => genCorrelationHex

inductive StoreOp where
  | complete
  | requeue
  | deadLetter
  deriving DecidableEq, Repr

def RetryStore.resolve (q : RetryStore) (id : ℕ) : StoreOp → Run RetryStore
  | .complete => pure (q.memComplete id)
  | .requeue => q.memRequeue id
  | .deadLetter => pure (q.memDeadLetter id)

def afterDelivery (item : RetryItem) (x : Delivery) : StoreOp × DispatchResult :=
  if x.rc = 0 ∧ isSuccessStatus x.status = true then (.complete, .sent)
  else if x.rc ≠ 0 ∨ isRetriableStatus x.status = true then
    if dispatchMaxAttempts ≤ item.attemptCount + 1 then (.deadLetter, .dropped)
    else (.requeue, .dropped)
  else (.deadLetter, .dropped)

def Dispatcher.admits (d : Dispatcher) (item : RetryItem) : Bool :=
  callbackUrlAllowed item.callbackUri d.allowInsecureLoopback

/-- The headers of a claimed row that passed the URL gate. -/
def Dispatcher.prepare (d : Dispatcher) (item : RetryItem) (inbound : Option String) :
    Run (HeaderBuild × Dispatcher) := do
  let corr ← effectiveCorrelation inbound item.correlationId
  buildHeaders d corr

def dispatchItem (d : Dispatcher) (q : RetryStore) (item : RetryItem) (inbound : Option String) :
    Run (DispatchResult × Dispatcher × RetryStore) := do
  if d.admits item then
    let (built, d) ← d.prepare item inbound
    match built with
    | .abort =>
      let q ← q.resolve item.id .deadLetter
      return (.forbidden, d, q)
    | .failed =>
      let q ← q.resolve item.id .requeue
      return (.error, d, q)
    | .ok headers =>
      let x ← deliver (item.callbackUri.getD "") item.payloadJson headers
      let (op, result) := afterDelivery item x
      let q ← q.resolve item.id op
      return (result, d, q)
  else
    let q ← q.resolve item.id .complete
    return (.dropped, d, q)

def dispatchPending (d : Dispatcher) (q : RetryStore) (inbound : Option String) :
    Run (DispatchResult × Dispatcher × RetryStore) := do
  let (got, q) ← q.memDequeue
  match got with
  | .none => return (.none, d, q)
  | .error => return (.error, d, q)
  | .claimed item => dispatchItem d q item inbound

end Nssf
