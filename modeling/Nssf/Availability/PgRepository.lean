import Nssf.Availability.Repository
import Nssf.Base.JsonContent
import Nssf.Base.Session
import Nssf.Json.Written

/-! The repository in PostgreSQL. The three trees of a record are `jsonb` columns: they are
bound as the text they print, compared by the server, and parsed again when a row is read. -/

namespace Nssf.PgRepo

open Base Run JsonText

/-- The `jsonb` type of the server: the cast of a text, equality, and the text that a value is
handed back as. -/
structure Jsonb where
  Doc : Type
  cast : String → Option Doc
  same : Doc → Doc → Bool
  text : Doc → String
  -- the order of members is forgotten, the last of a name counts, numbers are exact
  same_iff : ∀ {a b : Json} {d e : Doc}, a.Proper → b.Proper → cast a.printText = some d →
    cast b.printText = some e → (same d e = true ↔ a.value.canonical = b.value.canonical)

/-- `id` is the primary key. -/
structure PgAvailability (jsonb : Jsonb) where
  id : String
  plmnId : jsonb.Doc
  tai : jsonb.Doc
  snssais : jsonb.Doc
  amfSetId : Option String
  reallocationIndication : Bool

abbrev AvailabilityTable (jsonb : Jsonb) := List (PgAvailability jsonb)

variable (jsonb : Jsonb) (uuid : String → Option String)

def jsonbText (v : Option Json) : Run (Option String) :=
  match v with
  | none => pure none
  | some v => v.print

/-- The columns of a row, copied into a record. -/
def pgRowToRecord (x : PgAvailability jsonb) : Run (Option AvailabilityRecord) := do
  let plmnId ← Json.parse (jsonb.text x.plmnId)
  let tai ← Json.parse (jsonb.text x.tai)
  let snssais ← Json.parse (jsonb.text x.snssais)
  match plmnId, tai, snssais with
  | some plmnId, some tai, some snssais =>
    match ← copyField x.amfSetId with
    | none => return none
    | some amfSetId =>
      return some ⟨x.id, some plmnId, some tai, some snssais, amfSetId, x.reallocationIndication⟩
  | _, _, _ => return none

/-- The rows are read in their order; the first that cannot be read fails the call. -/
def pgRecords : List (PgAvailability jsonb) → Run (Option (List AvailabilityRecord))
  | [] => pure (some [])
  | x :: rows => do
    match ← pgRowToRecord jsonb x with
    | none => return none
    | some record =>
      match ← pgRecords rows with
      | none => return none
      | some records => return some (record :: records)

def pgCopyRows : List (PgAvailability jsonb) → Run (Option (List AvailabilityRecord))
  | [] => pure (some [])
  | x :: rows => do if ← alloc then pgRecords jsonb (x :: rows) else return none

/-- `WHERE plmn_id = $1::jsonb AND tai = $2::jsonb`. -/
def PgAvailability.At {jsonb : Jsonb} (plmnId tai : jsonb.Doc) (x : PgAvailability jsonb) : Bool :=
  jsonb.same x.plmnId plmnId && jsonb.same x.tai tai

def pgFindForPlmnTai (w : ServerTurn) (s : Session (AvailabilityTable jsonb))
    (plmnId tai : Option Json) :
    Run (Option (List AvailabilityRecord) × Session (AvailabilityTable jsonb)) := do
  let plmnText ← jsonbText plmnId
  let taiText ← jsonbText tai
  match plmnText, taiText with
  | some plmnText, some taiText =>
    match jsonb.cast plmnText, jsonb.cast taiText with
    | some plmnId, some tai =>
      let read := s.exec (fun rows => rows) (w.answers 0)
      if w.answers 0 = .done then do
        let records ← pgCopyRows jsonb (s.view.filter (PgAvailability.At plmnId tai))
        return (records, read)
      else return (none, read)
    | _, _ => return (none, s.exec (fun rows => rows) (castAck false (w.answers 0)))
  | _, _ => return (none, s)

/-- `INSERT ... ON CONFLICT (id) DO UPDATE`. -/
def insertOrUpdate (x : PgAvailability jsonb) (rows : AvailabilityTable jsonb) :
    AvailabilityTable jsonb :=
  if rows.any (·.id == x.id) then rows.map fun y => if y.id = x.id then x else y else rows ++ [x]

def pgUpsert (w : ServerTurn) (s : Session (AvailabilityTable jsonb)) (x : AvailabilityRecord) :
    Run (Bool × Session (AvailabilityTable jsonb)) := do
  let plmnText ← jsonbText x.plmnId
  let taiText ← jsonbText x.tai
  let snssaisText ← jsonbText x.snssais
  match plmnText, taiText, snssaisText with
  | some plmnText, some taiText, some snssaisText =>
    match uuid x.id, jsonb.cast plmnText, jsonb.cast taiText, jsonb.cast snssaisText with
    | some id, some plmnId, some tai, some snssais =>
      return pgChange w s (insertOrUpdate jsonb
        ⟨id, plmnId, tai, snssais, x.amfSetId, x.reallocationIndication⟩) true true false
    | _, _, _, _ => return pgChange w s (fun rows => rows) false true false
  | _, _, _ => return (false, s)

/-- A parameter that may be left out: it is fine when it is absent or could be printed. -/
def bound (v : Option Json) (text : Option String) : Bool := v.isNone || text.isSome

/-- The cast of a parameter that may be null. -/
def castParam (text : Option String) : Option (Option jsonb.Doc) :=
  match text with
  | none => some none
  | some text => (jsonb.cast text).map some

/-- `COALESCE` keeps the column where the parameter is null; the set id is kept likewise, the
indication where its own flag is not set. -/
def updateRow (id : String) (plmnId tai snssais : Option jsonb.Doc) (amfSetId : Option String)
    (setReallocation reallocationIndication : Bool) (x : PgAvailability jsonb) :
    PgAvailability jsonb :=
  if x.id = id then
    { x with
      plmnId := plmnId.getD x.plmnId
      tai := tai.getD x.tai
      snssais := snssais.getD x.snssais
      amfSetId := amfSetId <|> x.amfSetId
      reallocationIndication :=
        if setReallocation then reallocationIndication else x.reallocationIndication }
  else x

def pgPatch (w : ServerTurn) (s : Session (AvailabilityTable jsonb)) (id : String)
    (plmnId tai snssais : Option Json) (amfSetId : Option String)
    (setReallocation reallocationIndication : Bool) :
    Run (RepoCode × Session (AvailabilityTable jsonb)) := do
  let plmnText ← jsonbText plmnId
  let taiText ← jsonbText tai
  let snssaisText ← jsonbText snssais
  if bound plmnId plmnText && bound tai taiText && bound snssais snssaisText then
    match uuid id, castParam jsonb plmnText, castParam jsonb taiText,
        castParam jsonb snssaisText with
    | some id, some plmnId, some tai, some snssais =>
      return pgChange w s (List.map (updateRow jsonb id plmnId tai snssais amfSetId
          setReallocation reallocationIndication)) true
        (if s.view.any (·.id == id) then RepoCode.done else .noRow) .failed
    | _, _, _, _ => return pgChange w s (fun rows => rows) false RepoCode.done .failed
  else return (.failed, s)

def pgDelete (w : ServerTurn) (s : Session (AvailabilityTable jsonb)) (id : String) :
    RepoCode × Session (AvailabilityTable jsonb) :=
  match uuid id with
  | some id => pgChange w s (List.filter fun x => x.id != id) true
      (if s.view.any (·.id == id) then RepoCode.done else .noRow) .failed
  | none => pgChange w s (fun rows => rows) false RepoCode.done .failed

end Nssf.PgRepo
