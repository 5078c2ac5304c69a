import Nssf.Base.MemberOrder
import Nssf.Dispatcher.RoundTrip
import Nssf.Json.Doc
import Nssf.Json.Parsed

/-! The envelope in memory beside the one that the server keeps in its column. The column drops
what the text does not tell of a JSON value, so the two are compared by what they are split into. -/

namespace Nssf.Pg

open Base JsonText Run

section envelopes

variable {payload : String}

/-- Texts of one JSON value, up to the order of members. -/
def SameJson (a b : String) : Prop :=
  ∃ i j, Json.parseText a = some i ∧ Json.parseText b = some j ∧
    i.value.canonical = j.value.canonical

/-- Two envelopes that are both taken apart, into the same parts, or neither of them. -/
inductive SplitAlike (text text' : String) : Prop
  | neither (left : Yields (envelopeSplit text) none) (right : Yields (envelopeSplit text') none)
  | both {callbackUri correlationId : Option String} {body body' : String}
      (left : Yields (envelopeSplit text) (some ⟨callbackUri, correlationId, body⟩))
      (right : Yields (envelopeSplit text') (some ⟨callbackUri, correlationId, body'⟩))
      (same : SameJson body body')

/-- What the column hands back for the envelope around `body` is read as an object of the same
content, each name once; for an envelope that is too deep to be read it is too deep as well. -/
def KeepsEnvelope (jsonb : String → String) (callbackUri correlationId : Option String)
    (body : Json) : Prop :=
  let envelope := Json.object (envelopeMembers callbackUri correlationId body)
  (Json.parseText envelope.printText = none ∧
      Json.parseText (jsonb envelope.printText) = none) ∨
    (body.depth < Json.nestingLimit ∧ ∃ back, Json.parseText (jsonb envelope.printText) =
      some back ∧ back.Unique ∧ back.value.canonical = envelope.value.canonical)

/-- The payload is an object, the strings are what a C string can hold, and the column keeps what
is stored for them. -/
def Sent (jsonb : String → String) (callbackUri : Option String) (payload : String)
    (correlationId : Option String) : Prop :=
  ∃ ms, Json.parseText payload = some (.object ms) ∧ (∀ s ∈ callbackUri, Json.NulFree s) ∧
    (∀ s ∈ correlationId, Json.NulFree s) ∧
    KeepsEnvelope jsonb callbackUri correlationId (.object ms)

end envelopes

end Nssf.Pg
