import Nssf.Base.DepthFirst
import Nssf.Design.EmitJson

/-! The C declarations of a collection of schemas. Each schema becomes a struct of its own, a
reference from one to another a member, and a member that is required is held by value. -/

namespace Nssf.Design.CStructs

open Base

section names

def cKeywords : List String :=
  ["auto", "break", "case", "char", "const", "continue", "default", "do", "double", "else", "enum",
    "extern", "float", "for", "goto", "if", "inline", "int", "long", "register", "restrict",
    "return", "short", "signed", "sizeof", "static", "struct", "switch", "typedef", "union",
    "unsigned", "void", "volatile", "while", "_Bool", "_Complex", "_Imaginary", "bool", "true",
    "false"]

/-- `re.sub(r"[^A-Za-z0-9_]", "_", name)`. -/
def cleaned (name : String) : List Char :=
  name.toList.map fun c => if c.isAlphanum || c == '_' then c else '_'

/-- The name can begin an identifier. -/
def startsWell : List Char → Bool
  | [] => false
  | c :: _ => c.isAlpha || c == '_'

/-- The struct tag; the typedef name is the tag with `_t` behind it. -/
def safeTag (schemaName : String) : List Char :=
  let base := cleaned schemaName
  let base := if startsWell base then base else "S_".toList ++ base
  if String.ofList (base.map Char.toLower) ∈ cKeywords then "S_".toList ++ base else base

def safeTypedefName (schemaName : String) : String :=
  String.ofList (safeTag schemaName ++ "_t".toList)

def safeFieldName (prop : String) : String :=
  let name := cleaned prop
  let name := if name = [] then "_unnamed".toList else name
  let name := if startsWell name then name else '_' :: name
  if String.ofList name ∈ cKeywords then String.ofList (name ++ ['_']) else String.ofList name

def upperName (name : String) : List Char := (cleaned name).map Char.toUpper

def enumBase (value : String) : List Char :=
  let base := upperName value
  let base := if base = [] then "EMPTY".toList else base
  if (base.head?.any Char.isDigit) then "V_".toList ++ base else base

def safeEnumValue (schemaName value : String) : String :=
  String.ofList (upperName schemaName ++ '_' :: enumBase value)

end names

structure SchemaInfo where
  schema : Option Schema
  sourceYaml : String
  ref : String

abbrev Collected := Dict String SchemaInfo

section collect

/-- The files that are known by their names, and the schemas of each. -/
structure SchemaLoader where
  knownYaml : String → Option String
  schemas : String → String → Option Schema

def refName (ref : String) : String := lastSegment ref.toList

def SchemaLoader.resolveRef (loader : SchemaLoader) (ref baseYaml : String) :
    String × Option Schema × String :=
  let filePart := if '#' ∈ ref.toList then ref.toList.takeWhile (· != '#') else []
  let frag := if '#' ∈ ref.toList then (ref.toList.dropWhile (· != '#')).tail else ref.toList
  let name := lastSegment frag
  if filePart = [] then (name, loader.schemas baseYaml name, baseYaml)
  else
    match loader.knownYaml (String.ofList (PyText.strip filePart)) with
    | none => (name, none, baseYaml)
    | some target => (name, loader.schemas target name, target)

abbrev Level := List (String × String)

def collectOne (loader : SchemaLoader) (acc : Collected × Level) (entry : String × String) :
    Collected × Level :=
  let (name, schema, sourceYaml) := loader.resolveRef entry.1 entry.2
  if (acc.1.get? name).isSome then acc
  else
    (acc.1.set name ⟨schema, sourceYaml, entry.1⟩,
      acc.2 ++ (schema.elim [] Schema.refs).map fun ref => (ref, sourceYaml))

/-- The queue serves one depth after another. -/
def collectFrom (loader : SchemaLoader) : ℕ → Collected → Level → Collected
  | 0, collected, _ => collected
  | depths + 1, collected, level =>
    let (collected, next) := level.foldl (collectOne loader) (collected, [])
    collectFrom loader depths collected next

def maxDepth : ℕ := 8

def collectChain (loader : SchemaLoader) (roots : Level) : Collected :=
  collectFrom loader (maxDepth + 1) Dict.empty roots

end collect

def schemaOf? (collected : Collected) (name : String) : Option Schema :=
  (collected.get? name).bind SchemaInfo.schema

def schemaDeps (schema : Option Schema) : List String := (schema.elim [] Schema.refs).map refName

/-- What the sort follows from a name. -/
def followed (collected : Collected) (name : String) : List String :=
  (schemaDeps (schemaOf? collected name)).filter fun dep =>
    (collected.get? dep).isSome && dep != name

/-- A name is visited once it is put out, and on the stack while its references are followed. -/
def topoSort (collected : Collected) : List String :=
  DepthFirst.order (followed collected) collected.keys

section types

inductive CType where
  | plain (name : String)
  | struct (schemaName : String)
  | pointer (target : CType)
  deriving DecidableEq

def voidPointer : CType := .pointer (.plain "void")

def scalarType (h : SchemaHead) : Option CType :=
  if h.type = some "integer" then
    some (.plain (if h.format = some "int64" then "int64_t" else "int32_t"))
  else if h.type = some "number" then
    some (.plain (if h.format = some "float" then "float" else "double"))
  else if h.type = some "string" then some (.pointer (.plain "char"))
  else if h.type = some "boolean" then some (.plain "bool")
  else none

/-- The typedef of a schema that is collected. -/
def typedefFor (collected : Collected) (ref : String) : CType :=
  if (collected.get? (refName ref)).isSome then .struct (refName ref) else voidPointer

def armRef? : List (Role × Schema) → Option String
  | [] => none
  | (.allOf, s) :: ks => s.head.ref.orElse fun _ => armRef? ks
  | _ :: ks => armRef? ks

def hasArms (ks : List (Role × Schema)) : Bool :=
  ks.any fun k => k.1 == .oneOf || k.1 == .anyOf

mutual

def renderType (collected : Collected) : Schema → CType
  | .mk h ks =>
    match h.ref with
    | some ref => typedefFor collected ref
    | none =>
      if (Schema.mk h ks).hasAllOf then
        match armRef? ks with
        | some ref => typedefFor collected ref
        | none => voidPointer
      else if hasArms ks then voidPointer
      else if h.type = some "array" then .pointer (renderItems collected ks)
      else (scalarType h).getD voidPointer

def renderItems (collected : Collected) : List (Role × Schema) → CType
  | [] => voidPointer
  | (.items, s) :: _ => renderType collected s
  | _ :: ks => renderItems collected ks

end

end types

section merge

abbrev Properties := List (String × Schema)

def propertiesOf : List (Role × Schema) → Properties
  | [] => []
  | (.property name, s) :: ks => (name, s) :: propertiesOf ks
  | _ :: ks => propertiesOf ks

/-- `setdefault` for each of the properties. -/
def addProperties (props more : Properties) : Properties :=
  more.foldl (fun acc p => if p.1 ∈ acc.map Prod.fst then acc else acc ++ [p]) props

def addRequired (required more : List String) : List String :=
  more.foldl (fun acc r => if r ∈ acc then acc else acc ++ [r]) required

def isOwn (k : Role × Schema) : Bool := k.1 != .allOf && !Schema.isProperty k.1

mutual

/-- `follow` is what a reference to a collected schema comes to: nothing where there is no such
schema. The merge is undefined where the recursion has not ended. -/
def mergeAllof (follow : String → Option (Option Schema)) : Schema → Option Schema
  | .mk h ks =>
    if (Schema.mk h ks).hasAllOf then
      (mergeArms follow ks (propertiesOf ks, h.required)).map fun merged =>
        .mk { h with
              type := some "object"
              required := merged.2
              emptyProperties := true
              emptyAllOf := false }
          (ks.filter isOwn ++ merged.1.map fun p => (.property p.1, p.2))
    else some (.mk h ks)

def mergeArms (follow : String → Option (Option Schema)) :
    List (Role × Schema) → Properties × List String → Option (Properties × List String)
  | [], acc => some acc
  | (.allOf, part) :: ks, acc =>
    let sub :=
      match part.head.ref with
      | some ref => follow (refName ref)
      | none => (mergeAllof follow part).map some
    match sub with
    | none => none
    | some none => mergeArms follow ks acc
    | some (some s) =>
      mergeArms follow ks
        (addProperties acc.1 (propertiesOf s.kids), addRequired acc.2 s.head.required)
  | _ :: ks, acc => mergeArms follow ks acc

end

def mergeRef (collected : Collected) : ℕ → String → Option (Option Schema)
  | 0, _ => none
  | fuel + 1, name =>
    match schemaOf? collected name with
    | none => some none
    | some s => (mergeAllof (mergeRef collected fuel) s).map some

end merge

section emit

structure CMember where
  type : CType
  name : String

inductive CBody where
  | unresolved
  | enumeration (constants : List String)
  | variant (arms : List CMember)
  | array (item : CType)
  | scalar (type : CType)
  | object (members : List CMember)

/-- The struct of a schema, with the enumeration that goes before it. -/
structure CDecl where
  schemaName : String
  body : CBody

def CType.text : CType → String
  | .plain name => name
  | .struct schemaName => safeTypedefName schemaName
  | .pointer target => target.text ++ " *"

def CMember.text (m : CMember) : String :=
  match m.type with
  | .pointer _ => m.type.text ++ m.name ++ ";"
  | _ => m.type.text ++ " " ++ m.name ++ ";"

def constantLines : List String → List String
  | [] => []
  | [c] => ["    " ++ c]
  | c :: cs => ("    " ++ c ++ ",") :: constantLines cs

/-- The lines of a definition but for its comments. -/
def CDecl.lines (d : CDecl) : List String :=
  let tag := String.ofList (safeTag d.schemaName)
  let openStruct := "struct " ++ tag ++ " \x7b"
  match d.body with
  | .unresolved => [openStruct ++ " int _unresolved; \x7d;"]
  | .enumeration constants =>
    ["enum " ++ tag ++ "_enum \x7b"] ++ constantLines constants ++
      ["\x7d;", openStruct ++ " enum " ++ tag ++ "_enum value; \x7d;"]
  | .variant arms =>
    [openStruct, "    int variant_tag;", "    union \x7b"] ++
      arms.map (fun m => "        " ++ m.text) ++ ["    \x7d payload;", "\x7d;"]
  | .array item =>
    [openStruct, "    " ++ (CMember.mk (.pointer item) "items").text, "    size_t count;", "\x7d;"]
  | .scalar type => [openStruct ++ " " ++ type.text ++ " value; \x7d;"]
  | .object members => [openStruct] ++ members.map (fun m => "    " ++ m.text) ++ ["\x7d;"]

def forwardLine (schemaName : String) : String :=
  "typedef struct " ++ String.ofList (safeTag schemaName) ++ " " ++ safeTypedefName schemaName ++ ";"

def propertyMembers (collected : Collected) (required : List String) (prop : String × Schema) :
    List CMember :=
  let field := safeFieldName prop.1
  let h := prop.2.head
  if h.type = some "array" then
    [⟨.pointer (renderItems collected prop.2.kids), field⟩, ⟨.plain "size_t", field ++ "_count"⟩]
  else
    let base := renderType collected prop.2
    match base with
    | .pointer _ => [⟨base, field⟩]
    | _ =>
      if prop.1 ∉ required || h.nullable == some true then [⟨.pointer base, field⟩]
      else [⟨base, field⟩]

def objectMembers (collected : Collected) (merged : Schema) : List CMember :=
  let props := propertiesOf merged.kids
  if props = [] then [⟨.plain "int", "_empty"⟩]
  else props.flatMap (propertyMembers collected merged.head.required)

def variantMembers (collected : Collected) (variants : List Schema) : List CMember :=
  variants.mapIdx fun i v => ⟨renderType collected v, "v" ++ toString i⟩

def variantsOf (s : Schema) : List Schema :=
  let oneOf := EmitJson.armsAt .oneOf s
  if oneOf.isEmpty then EmitJson.armsAt .anyOf s else oneOf

def bodyOf (collected : Collected) (name : String) (merged : Schema) : CBody :=
  let h := merged.head
  let values := h.enum.getD []
  if values ≠ [] ∧ h.type.getD "string" = "string" then
    .enumeration (values.map (safeEnumValue name))
  else if variantsOf merged ≠ [] then .variant (variantMembers collected (variantsOf merged))
  else if h.type = some "array" ∨ merged.kids.any (fun k => k.1 == .items) then
    .array (renderItems collected merged.kids)
  else
    match scalarType h with
    | some type =>
      if merged.hasProperties then .object (objectMembers collected merged) else .scalar type
    | none => .object (objectMembers collected merged)

def emitSchema (collected : Collected) (fuel : ℕ) (name : String) : Option CDecl :=
  match schemaOf? collected name with
  | none => some ⟨name, .unresolved⟩
  | some s => (mergeAllof (mergeRef collected fuel) s).map fun merged =>
      ⟨name, bodyOf collected name merged⟩

def emitAll (collected : Collected) (fuel : ℕ) : List String → Option (List CDecl)
  | [] => some []
  | name :: order =>
    (emitSchema collected fuel name).bind fun d =>
      (emitAll collected fuel order).map fun ds => d :: ds

/-- The forward declarations, and the definitions in the order of the sort. -/
def emitText (collected : Collected) (fuel : ℕ) : Option (List String) :=
  let order := topoSort collected
  (emitAll collected fuel order).map fun decls =>
    order.map forwardLine ++ [""] ++ decls.flatMap fun d => d.lines ++ [""]

end emit

end Nssf.Design.CStructs
