import Mathlib
import Nssf.Base.PyValue
import Nssf.Design.Assemble

/-! A run over the topics of a seed: each topic file is written anew, data models with the document
of the resolver beside them, and then the topics that pass the preflight are promoted, in the seed,
in the front matter and in the document. -/

namespace Nssf.Base.PyValue

/-- What a loop over the value goes through. -/
def iter : PyValue → Except String (List PyValue)
  | list items => .ok items
  | dict entries => .ok (entries.map fun e => text e.1)
  | text s => .ok (s.toList.map fun c => text (String.ofList [c]))
  | _ => .error "TypeError"

/-- `v.get(key, default)`. -/
def getOr (v : PyValue) (key : String) (default : PyValue) : Except String PyValue :=
  match v with
  | dict entries => .ok ((entries.lookup key).getD default)
  | _ => .error "AttributeError"

/-- `v[key] = value`. -/
def setItem (v : PyValue) (key : String) (value : PyValue) : Except String PyValue :=
  match v with
  | dict entries => .ok (dict (Dict.setEntry key value entries))
  | _ => .error "TypeError"

end Nssf.Base.PyValue

namespace Nssf.Design.Contract

open Base Base.Matches Base.PyText UserBlocks

structure Topic where
  status : Option Text
  file : Text
  machineFile : Option Text

structure Seed where
  topics : Dict Text Topic
  categories : Dict Text (Option Text)

/-- The files by their paths. -/
abbrev Files := Text → Option Text

def Files.write (files : Files) (path text : Text) : Files := Function.update files path (some text)

/-- Where there is no file, nothing happens. -/
def Files.patch (files : Files) (path : Text) (f : Text → Text) : Files :=
  match files path with
  | none => files
  | some text => files.write path (f text)

/-- How a resolver process ends. -/
inductive Turn where
  | returned (success : Bool) (stdout stderr : Text)
  | timeout

/-- What a run relies on: the regular expressions' `\w`, `json.loads` and `json.dumps`,
`yaml.safe_load` of a front matter, the resolver asked for a topic with a status, and the bodies of
the generated sections, which a data model takes from its document. -/
structure Tools where
  word : WordClass
  loads : Text → Option PyValue
  dumps : PyValue → Text
  frontMeta : Text → Option PyValue
  resolver : Text → Text → Turn
  sections : Text → Option Text → Dict Text Text

def draft : Text := "draft".toList

def handoffReady : Text := "handoff_ready".toList

namespace Category

def all : List Category :=
  [interface, api, dataModel, errorHandling, moduleDecomposition, serviceScenarios, behaviorState,
    failurePolicy, configuration, persistence, testMatrix, workPlan, crossNf]

def ofName? (name : Text) : Option Category := all.find? fun c => c.name.toList = name

def isSpecDerived : Category → Bool
  | interface | api | dataModel | errorHandling => true
  | _ => false

end Category

/-- `tid.split("/")[0]`. -/
def categoryName (tid : Text) : Text := tid.takeWhile (· ≠ '/')

def categoryOf (tid : Text) : Option Category := Category.ofName? (categoryName tid)

def Topic.statusOr (topic : Topic) : Text := topic.status.getD draft

def asText (t : Text) : PyValue := .text (String.ofList t)

def unresolvedEntry (schema note : Text) : PyValue :=
  .dict [("ref", asText schema), ("classification", .text "implementation_blocker"),
    ("rationale", if note = [] then .text "resolve-yaml-refs.py emit failed" else asText note),
    ("implementation_action",
      .text "Investigate generator failure; register missing spec or fix schema reference."),
    ("phase", .text "phase1")]

/-- `tid.split("/", 1)[1]`. -/
def schemaName (tid : Text) : Except String Text :=
  match tid.dropWhile (· ≠ '/') with
  | [] => .error "IndexError"
  | _ :: name => .ok name

def fallbackClassifiedJson (nf topicId schema status note : Text) : PyValue :=
  .dict [("schema_version", .text "data-model-v1"), ("nf", asText nf),
    ("topic_id", asText topicId), ("status", asText status),
    ("classification", .text "implementation_blocker"),
    ("source", .dict [("spec_refs", .list []), ("openapi_refs", .list []),
      ("source_yaml", .text "")]),
    ("root_schema", asText schema), ("root", .none), ("fields", .list []),
    ("dependencies", .list []), ("unresolved_refs", .list [unresolvedEntry schema note]),
    ("complexity_flags", .list []), ("wrapper_required", .bool true),
    ("c_type_hint", .text "void*"), ("validation_hint", .none), ("normalized_schema", .none)]

section run

variable (t : Tools) (nf : Text)

/-- The text that goes into the machine file, and the unresolved references of its document. -/
def machineOf (schema tid status : Text) : Except String (Text × PyValue) :=
  let fallback (note : Text) : Text × PyValue :=
    (t.dumps (fallbackClassifiedJson nf tid schema status note),
      .list [unresolvedEntry schema note])
  match t.resolver tid status with
  | .timeout => .ok (fallback "timeout".toList)
  | .returned success stdout stderr =>
    if success = true ∧ strip stdout ≠ [] then
      match t.loads stdout with
      | none => .error "JSONDecodeError"
      | some v => ((v.orElse (.dict [])).getOr "unresolved_refs" (.list [])).map (stdout, ·)
    else
      let note := (strip stderr).take 200
      .ok (fallback (if note = [] then "resolve failed".toList else note))

/-- What the turn of a topic writes over its old text. -/
structure Output where
  text : Text
  machine : Option (Text × Text)
  unresolved : PyValue

def output (tid : Text) (topic : Topic) (c : Category) (old : Option Text) :
    Except String Output := do
  let preserved := extractUserBlocks t.word old
  let text (machine : Option Text) : Text :=
    assemble tid topic.statusOr c (t.sections tid machine) preserved
  if c = .dataModel then
    let schema ← schemaName tid
    match topic.machineFile with
    | none => throw "KeyError"
    | some path =>
      let (machine, unresolved) ← machineOf t nf schema tid topic.statusOr
      return ⟨text (some machine), some (path, machine), unresolved⟩
  else return ⟨text none, none, .none⟩

def Output.writeMachine (out : Output) (files : Files) : Files :=
  match out.machine with
  | none => files
  | some (path, machine) => files.write path machine

def Output.writeTo (out : Output) (file : Text) (files : Files) : Files :=
  (out.writeMachine files).write file out.text

/-- The files and the unresolved references of the data models, topic after topic. -/
def materialize (s : Files × Dict Text PyValue) (e : Text × Topic) :
    Except String (Files × Dict Text PyValue) :=
  match categoryOf e.1 with
  | none => .ok s
  | some c => do
    let out ← output t nf e.1 e.2 c (s.1 e.2.file)
    let unresolved := if c = .dataModel then s.2.set e.1 out.unresolved else s.2
    return (out.writeTo e.2.file s.1, unresolved)

def isBlocker (e : PyValue) : Except String Bool := do
  let cls ← (e.orElse (.dict [])).get "classification"
  return match cls with
    | .none => true
    | v => v.isText "implementation_blocker"

/-- `_is_real_blocker`; the loop ends at the first one. -/
def anyBlocker : List PyValue → Except String Bool
  | [] => .ok false
  | e :: es => do if ← isBlocker e then return true else anyBlocker es

def isRealBlocker (unresolved : PyValue) : Except String Bool := do
  anyBlocker (← (unresolved.orElse (.list [])).iter)

/-- `<!-- kind:([\w-]+):start -->` at the head of a text. -/
def startAt (w : WordClass) (kind cs : Text) : Option (Text × Text) :=
  (dropLiteral (opening kind) cs).bind fun cs =>
    let id := cs.takeWhile w.idChar
    if id = [] then none
    else (dropLiteral ":start -->".toList (cs.dropWhile w.idChar)).map fun rest => (id, rest)

def startIds (w : WordClass) (kind text : Text) : List Text := scan (startAt w kind) text

/-- `---\n(.*?)\n---\n` at the head of a text. -/
def frontInner (text : Text) : Option Text :=
  (dropLiteral "---\n".toList text).bind fun rest =>
    (splitFirst "\n---\n".toList rest).map Prod.fst

/-- `set(v or [])`. -/
def idSet (v : PyValue) : Except String (List PyValue) := do
  let items ← (v.orElse (.list [])).iter
  if items.all PyValue.hashable then return items else throw "TypeError"

def sameIds (items : List PyValue) (ids : List Text) : Bool :=
  items.all (fun v => ids.any fun id => v.isText (String.ofList id)) &&
    ids.all fun id => items.any fun v => v.isText (String.ofList id)

def preflightOk (old : Option Text) : Except String Bool :=
  match old with
  | none => .ok false
  | some text =>
    match (frontInner text).bind t.frontMeta with
    | none => .ok false
    | some v => do
      let v := v.orElse (.dict [])
      let topicId ← v.get "topic_id"
      let category ← v.get "category"
      let status ← v.get "status"
      if topicId.truthy && category.truthy && status.truthy then
        let gen ← idSet (← v.get "generated_sections")
        let usr ← idSet (← v.get "user_sections")
        let aids := startIds t.word auto text
        return sameIds gen aids && sameIds usr (startIds t.word user text) &&
          decide aids.Nodup
      else return false

def isPromoted (files : Files) (unresolved : Dict Text PyValue) (e : Text × Topic) :
    Except String Bool :=
  match categoryOf e.1 with
  | none => .ok false
  | some c =>
    if c.isSpecDerived then do
      if ← preflightOk t (files e.2.file) then
        if c = .dataModel then
          let blocked ← isRealBlocker ((unresolved.get? e.1).getD .none)
          return !blocked
        else return true
      else return false
    else .ok false

/-- `\nstatus: )\w+(\n.*?\n---\n)` at the head of a text, with the word replaced. -/
def patchHere (w : WordClass) (cs : Text) : Option Text :=
  (dropLiteral "\nstatus: ".toList cs).bind fun rest =>
    let after := rest.dropWhile w.word
    match rest.takeWhile w.word, after with
    | _ :: _, '\n' :: tail =>
      if "\n---\n".toList <:+: tail then some ("\nstatus: ".toList ++ handoffReady ++ after)
      else none
    | _, _ => none

def patchFrom (w : WordClass) : Text → Option Text
  | [] => none
  | c :: cs =>
    match patchHere w (c :: cs) with
    | some patched => some patched
    | none => (patchFrom w cs).map (c :: ·)

/-- The `re.sub` of the status in the front matter. -/
def patchStatus (w : WordClass) (text : Text) : Text :=
  (((dropLiteral "---\n".toList text).bind (patchFrom w)).map ("---\n".toList ++ ·)).getD text

/-- A document that is no mapping stays as it is. -/
def patchMachine (text : Text) : Text :=
  match t.loads text with
  | none => text
  | some v =>
    match v.setItem "status" (asText handoffReady) with
    | .ok v => t.dumps v
    | .error _ => text

def Topic.promoted (topic : Topic) : Topic := { topic with status := some handoffReady }

def promote (s : Files × Dict Text Topic) (e : Text × Topic) : Files × Dict Text Topic :=
  let files := s.1.patch e.2.file (patchStatus t.word)
  let files := match e.2.machineFile with
    | none => files
    | some path => files.patch path (patchMachine t)
  (files, s.2.set e.1 e.2.promoted)

def categoryStatus (topics : Dict Text Topic) (name : Text) : Text :=
  let children := topics.entries.filter fun e => categoryName e.1 = name
  if children ≠ [] ∧ ∀ e ∈ children, e.2.status = some handoffReady then handoffReady else draft

def main (seed : Seed) (files : Files) : Except String (Seed × Files) := do
  let (files, unresolved) ← seed.topics.entries.foldlM (materialize t nf) (files, Dict.empty)
  let promoted ← seed.topics.entries.filterM (isPromoted t files unresolved)
  let (files, topics) := promoted.foldl (promote t) (files, seed.topics)
  let categories := seed.categories.entries.map fun e => (e.1, some (categoryStatus topics e.1))
  return (⟨topics, Dict.ofList categories⟩, files)

end run

end Nssf.Design.Contract
