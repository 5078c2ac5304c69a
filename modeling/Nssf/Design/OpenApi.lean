import Nssf.Base.Dict
import Nssf.Base.PyText

/-! Schema objects of a set of documents, and what a reference to one resolves to. -/

namespace Nssf.Design

open Base PyText

/-- Where a schema stands in the one above it. -/
inductive Role where
  | property (name : String)
  | items
  | additional
  | allOf
  | anyOf
  | oneOf
  deriving DecidableEq

/-- The keywords of a schema that hold no other schema. `emptyProperties` and `emptyAllOf` say
that the keyword is there with nothing in it. -/
structure SchemaHead where
  ref : Option String
  type : Option String
  format : Option String
  pattern : Option String
  nullable : Option Bool
  enum : Option (List String)
  description : Option String
  required : List String
  additionalFlag : Option Bool
  emptyProperties : Bool
  emptyAllOf : Bool
  deriving DecidableEq

inductive Schema where
  | mk (head : SchemaHead) (kids : List (Role × Schema))

namespace Schema

def head : Schema → SchemaHead
  | mk h _ => h

def kids : Schema → List (Role × Schema)
  | mk _ ks => ks

def isProperty : Role → Bool
  | .property _ => true
  | _ => false

def hasProperties (s : Schema) : Bool :=
  s.head.emptyProperties || s.kids.any fun k => isProperty k.1

def hasAdditional (s : Schema) : Bool :=
  s.head.additionalFlag.isSome || s.kids.any fun k => k.1 == .additional

def hasAllOf (s : Schema) : Bool := s.head.emptyAllOf || s.kids.any fun k => k.1 == .allOf

/-- `arm.get("properties") or arm.get("required")`. -/
def isArmed (s : Schema) : Bool :=
  s.kids.any (fun k => isProperty k.1) || !s.head.required.isEmpty

mutual

/-- The references in a schema, under whatever keyword they stand. -/
def refs : Schema → List String
  | mk h ks => h.ref.toList ++ refsIn ks

def refsIn : List (Role × Schema) → List String
  | [] => []
  | (_, s) :: ks => refs s ++ refsIn ks

end

end Schema

/-- A document lies in the directory of its specification. -/
structure DocFile where
  dir : String
  name : String
  deriving DecidableEq

/-- The schema objects of a document under the keys that lead to them. -/
structure Document where
  schemas : List (List String × Schema)

def Document.at? (d : Document) (keys : List String) : Option Schema :=
  findKey Prod.fst keys d.schemas |>.map Prod.snd

abbrev Documents := Dict DocFile Document

structure ResolvedRef where
  file : Option DocFile
  schemaName : String
  schema : Option Schema

/-- `rsplit("/", 1)[-1]`. -/
def lastSegment (path : List Char) : String :=
  String.ofList ((path.splitOn '/').getLast?.getD [])

def pointerKeys (pointer : List Char) : List String :=
  ((pointer.splitOn '/').filter fun part => part ≠ []).map String.ofList

/-- `TS29571_CommonData.yaml` lies in `29.571`. -/
def specDirForYaml (name : List Char) : Option String :=
  match name with
  | 'T' :: 'S' :: a :: b :: c :: d :: e :: '_' :: _ =>
    if [a, b, c, d, e].all isDigit then some (String.ofList [a, b, '.', c, d, e]) else none
  | _ => none

def Documents.schemaAt (docs : Documents) (file : DocFile) (pointer : List Char) :
    Option Schema :=
  (docs.get? file).bind fun d => d.at? (pointerKeys pointer)

def resolveRef (docs : Documents) (ref : String) (current : DocFile) : ResolvedRef :=
  match ref.toList with
  | '#' :: '/' :: pointer =>
    ⟨some current, lastSegment ('/' :: pointer), docs.schemaAt current ('/' :: pointer)⟩
  | cs =>
    if '#' ∉ cs then ⟨none, ref, none⟩
    else
      let file := String.ofList (cs.takeWhile (· != '#'))
      let frag := (cs.dropWhile (· != '#')).tail
      let sameDir : DocFile := ⟨current.dir, file⟩
      if (docs.get? sameDir).isSome then
        ⟨some sameDir, lastSegment frag, docs.schemaAt sameDir frag⟩
      else
        match specDirForYaml file.toList with
        | some dir =>
          let target : DocFile := ⟨dir, file⟩
          if (docs.get? target).isSome then
            ⟨some target, lastSegment frag, docs.schemaAt target frag⟩
          else ⟨none, lastSegment frag, none⟩
        | none => ⟨none, lastSegment frag, none⟩

end Nssf.Design
