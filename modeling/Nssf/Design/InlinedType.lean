import Nssf.Design.Inlining

/-! What an inlined reference says of a scalar, an enumeration or an array. A schema that is
opened goes through the form for objects, whatever it is; only the root is told apart. -/

namespace Nssf.Design.EmitJson

open Base

/-- What a node says about the values it is for. -/
structure NodeInfo where
  type : Option String
  format : Option String
  pattern : Option String
  enum : Option (List String)
  nullable : Option Bool
  items : Option SchemaNode

def typeOnly (type : String) : NodeInfo := ⟨some type, none, none, none, none, none⟩

def info : SchemaNode → NodeInfo
  | .scalar s => ⟨s.type, s.format, s.pattern, s.enum, s.nullable, none⟩
  | .array n => { typeOnly "array" with items := some n }
  | .object _ _ _ => typeOnly "object"
  | .cycle _ => typeOnly "object"
  | .any => typeOnly "any"
  | .unknown => typeOnly "unknown"
  | .unresolved _ => typeOnly "unknown"
  | .topic _ => ⟨none, none, none, none, none, none⟩

/-- The arms of a composition that is no object. -/
def valueArms (s : Schema) : List Schema :=
  if (armsAt .anyOf s).isEmpty then armsAt .oneOf s else armsAt .anyOf s

/-- A scalar, an array, or an enumeration put together from arms that are no objects. -/
structure IsValue (s : Schema) : Prop where
  plain : isObjectRoot s = false
  arms : s.head.type = some "array" ∨ ∀ arm ∈ valueArms s, arm.head.type ≠ some "object"

/-- The reference leads to the schema, which is not a reference itself. -/
inductive EndsIn (docs : Documents) : DocFile → String → Schema → Prop
  | last {file : DocFile} {ref : String} {s : Schema}
      (hschema : (resolveRef docs ref file).schema = some s) (hplain : s.head.ref = none) :
      EndsIn docs file ref s
  | next {file : DocFile} {ref ref' : String} {s s' : Schema}
      (hschema : (resolveRef docs ref file).schema = some s) (href : s.head.ref = some ref')
      (h : EndsIn docs (keyOf docs file ref).1 ref' s') : EndsIn docs file ref s'

/-- No schema leads to itself over references. -/
def Acyclic (docs : Documents) : Prop :=
  ∃ rank : SchemaKey → ℕ, ∀ key s, schemaOf docs key = some s →
    ∀ ref ∈ s.refs, rank (keyOf docs key.1 ref) < rank key

/-- The call's node says what the root form of the schema says, with what the references under
it come to. -/
def KeepsInfo (docs : Documents) (q : Request) (c : Call) (s : Schema) : Prop :=
  ∀ e, Made docs q.index c e → ∃ follow, info e.1 = info (rootNode follow s).1

section kept

variable {docs : Documents} {q : Request} {root s : Schema} {c : Call}

theorem EndsIn.resolves {file : DocFile} {ref : String} (h : EndsIn docs file ref s) :
    (resolveRef docs ref file).schema ≠ none := by
  cases h with
  | last hschema => simp [hschema]
  | next hschema => simp [hschema]

theorem EndsIn.head_ref {file : DocFile} {ref : String} (h : EndsIn docs file ref s) :
    s.head.ref = none := by
  induction h with
  | last _ hplain => exact hplain
  | next _ _ _ ih => exact ih

theorem composed_type_ne {arms : List Schema} {description : Option String}
    (h : ∀ arm ∈ arms, arm.head.type ≠ some "object") :
    (info (composed arms description)).type ≠ some "object" := by
  have hne : (arms.map Schema.head).findSome? SchemaHead.type ≠ some "object" := by
    intro htype
    obtain ⟨hd, hhd, hfound⟩ := List.exists_of_findSome?_eq_some htype
    obtain ⟨arm, harm, rfl⟩ := List.mem_map.1 hhd
    exact h arm harm hfound
  simp only [composed]
  split_ifs
  · decide
  · exact hne
  · decide
  · exact hne

theorem IsValue.rootNode_type_ne (h : IsValue s) (href : s.head.ref = none)
    (follow : String → Emitted) : (info (rootNode follow s).1).type ≠ some "object" := by
  have hplain : ¬isObjectRoot s = true := by
    rw [h.plain]
    exact Bool.false_ne_true
  simp only [rootNode, if_neg hplain]
  by_cases harray : s.head.type = some "array"
  · rw [if_pos harray]
    cases s with
    | mk hd ks =>
      have hnone : hd.ref = none := href
      have htype : hd.type = some "array" := harray
      simp only [resolveToNode, hnone, if_pos htype, info, typeOnly]
      decide
  · rw [if_neg harray]
    have harms := h.arms.resolve_left harray
    rw [valueArms] at harms
    split_ifs at harms ⊢ with hempty harms' hkeywords
    · decide
    · -- a scalar of type object would be an object root
      intro htype
      have hscalar : s.head.type = some "object" := htype
      simp [isObjectRoot, isObject, hscalar] at hplain
    · exact composed_type_ne harms
    · exact composed_type_ne harms

/-- A schema that is opened becomes an object, whatever it is. -/
theorem Made.type_eq {e : Emitted} {index : String → Option String} (h : Made docs index c e)
    (hindex : index (c.name docs) = none) (hschema : c.schema? docs ≠ none) :
    info e.1 = typeOnly "object" := by
  cases h with
  | topic htopic => cases hindex.symm.trans htopic
  | unresolved _ hnone => exact absurd hnone hschema
  | cycle => rfl
  | inline hopens follow hinside =>
    rename_i target
    cases target
    rfl

theorem Standing.not_keepsInfo (h : Standing docs q c) (hindex : q.index (c.name docs) = none)
    (hends : EndsIn docs c.file c.ref s) (hvalue : IsValue s) : ¬KeepsInfo docs q c s := by
  intro hkeeps
  obtain ⟨e, he⟩ := h.exists_made
  obtain ⟨follow, hsame⟩ := hkeeps e he
  rw [he.type_eq hindex hends.resolves] at hsame
  have hne := hvalue.rootNode_type_ne hends.head_ref follow
  rw [← hsame] at hne
  exact hne rfl

/-- No reference that ends in a scalar, an enumeration or an array keeps what the schema says,
however long the chain is and wherever the reference stands. -/
theorem inlined_info_lost (hroot : rootSchema? docs q = some root)
    (hvisit : Visits docs q root true c) (hindex : q.index (c.name docs) = none)
    (hends : EndsIn docs c.file c.ref s) (hvalue : IsValue s) : ¬KeepsInfo docs q c s :=
  (hvisit.standing hroot).not_keepsInfo hindex hends hvalue

end kept

def kindRef : String := "#/components/schemas/Kind"

def kindSchema : Schema :=
  .mk { emptyHead with type := some "string", enum := some ["AMF", "NSSF"] } []

/-- A schema with a property that is an enumeration of the same document. -/
def kindUser : Schema := .mk plainHead [(.property "kind", refSchema kindRef)]

def kindDocs : Documents :=
  Dict.ofList [(sampleFile, ⟨[(["components", "schemas", "Info"], kindUser),
    (["components", "schemas", "Kind"], kindSchema)]⟩)]

theorem kindCall_visited :
    Visits kindDocs sampleRequest kindUser true (sampleRequest.call kindRef) :=
  ⟨kindRef, List.mem_singleton_self _, .refl⟩

theorem kindRef_ends : EndsIn kindDocs sampleFile kindRef kindSchema := .last rfl rfl

theorem kindSchema_isValue : IsValue kindSchema := ⟨rfl, .inr fun _ harm => by cases harm⟩

theorem inlined_info_lost_kind :
    ¬KeepsInfo kindDocs sampleRequest (sampleRequest.call kindRef) kindSchema :=
  inlined_info_lost rfl kindCall_visited (by decide) kindRef_ends kindSchema_isValue

theorem kindDocs_acyclic : Acyclic kindDocs := by
  refine ⟨fun key => if key.2 = "Info" then 1 else 0, fun key s hs ref href => ?_⟩
  obtain ⟨d, hd, hat⟩ := Option.bind_eq_some_iff.1 hs
  have hentry := (kindDocs.get?_eq_some_iff).1 hd
  have hdoc := Prod.mk.inj (List.mem_singleton.1 hentry)
  obtain ⟨e, hfind, rfl⟩ := Option.map_eq_some_iff.1 hat
  have hname := List.find?_some hfind
  have hmem := List.mem_of_find?_eq_some hfind
  rw [hdoc.2] at hmem
  rcases List.mem_cons.1 hmem with heq | hmem
  · rw [heq] at href hname
    have hkey : key.2 = "Info" := by simpa [eq_comm] using hname
    have honly : kindUser.refs = [kindRef] := rfl
    rw [honly, List.mem_singleton] at href
    simp only [if_pos hkey, hdoc.1, href]
    decide
  · rw [List.mem_singleton.1 hmem] at href
    cases href

/-- The type and the values of the enumeration are gone. -/
theorem inlined_kind_is_object : ¬∀ docs q root c s, Acyclic docs →
    rootSchema? docs q = some root → Visits docs q root true c →
    q.index (c.name docs) = none → EndsIn docs c.file c.ref s → IsValue s →
    KeepsInfo docs q c s := by
  intro h
  have hkeeps := h kindDocs sampleRequest kindUser _ kindSchema kindDocs_acyclic rfl
    kindCall_visited (by decide) kindRef_ends kindSchema_isValue
  exact (kindCall_visited.standing rfl).not_keepsInfo (by decide) kindRef_ends
    kindSchema_isValue hkeeps

end Nssf.Design.EmitJson
