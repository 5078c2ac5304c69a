import Mathlib.Logic.Relation
import Nssf.Design.RefCoverage

/-! The walk over references as a recursion with no bound: what it makes of a reference that
stands inside a number of open schemas. -/

namespace Nssf.Design.EmitJson

open Base

section forms

/-- `Other.yaml#/components/schemas/Name` with a plain file name; with no file name it is the
form for a schema of the same file. -/
structure PlainParts (ref : String) (part name : List Char) : Prop where
  ref_eq : ref.toList = part ++ '#' :: ("/components/schemas".toList ++ '/' :: name)
  hash : '#' ∉ part
  slash : '/' ∉ part
  nonempty : name ≠ []
  plain : '/' ∉ name

def PlainRef (ref : String) : Prop := ∃ part name, PlainParts ref part name

theorem pointerKeys_schemas {name : List Char} (hne : name ≠ []) (hplain : '/' ∉ name) :
    pointerKeys ("/components/schemas".toList ++ '/' :: name) =
      ["components", "schemas", String.ofList name] := by
  have hsplit : ("/components/schemas".toList ++ '/' :: name).splitOn '/' =
      "/components/schemas".toList.splitOn '/' ++ [name] := by
    rw [List.splitOn_append_cons_self, List.splitOn_eq_singleton hplain]
  have hparts : "/components/schemas".toList.splitOn '/' =
      [[], "components".toList, "schemas".toList] := by decide
  rw [pointerKeys, hsplit, hparts]
  simp [hne]

theorem lastSegment_append {pre name : List Char} (hplain : '/' ∉ name) :
    lastSegment (pre ++ '/' :: name) = String.ofList name := by
  rw [lastSegment, List.splitOn_append_cons_self, List.splitOn_eq_singleton hplain,
    List.getLast?_append]
  rfl

/-- The file that a file name means in a document: one beside it, or else the one in the
directory of the specification that the name begins with. -/
def fileNamed (docs : Documents) (file : DocFile) (part : List Char) : Option DocFile :=
  if part = [] then some file
  else
    let beside : DocFile := ⟨file.dir, String.ofList part⟩
    if (docs.get? beside).isSome then some beside
    else (specDirForYaml part).map fun dir => ⟨dir, String.ofList part⟩

def schemaOf (docs : Documents) (key : SchemaKey) : Option Schema :=
  (docs.get? key.1).bind fun d => d.at? ["components", "schemas", key.2]

/-- The reference is to the schema of that file and name, and there is one. -/
structure Names (docs : Documents) (file : DocFile) (ref : String) (key : SchemaKey) : Prop where
  parts : ∃ part, PlainParts ref part key.2.toList ∧ fileNamed docs file part = some key.1
  known : (schemaOf docs key).isSome = true

variable {docs : Documents} {file : DocFile} {ref : String} {part name : List Char}

theorem schemaAt_eq_schemaOf (hne : name ≠ []) (hplain : '/' ∉ name) (f : DocFile) :
    docs.schemaAt f ("/components/schemas".toList ++ '/' :: name) =
      schemaOf docs (f, String.ofList name) := by
  rw [Documents.schemaAt, pointerKeys_schemas hne hplain, schemaOf]

theorem resolveRef_same (h : PlainParts ref [] name) : resolveRef docs ref file =
    ⟨some file, String.ofList name, schemaOf docs (file, String.ofList name)⟩ := by
  have hchars : ref.toList =
      '#' :: '/' :: ("components/schemas".toList ++ '/' :: name) := h.ref_eq
  have hpointer : '/' :: ("components/schemas".toList ++ '/' :: name) =
      "/components/schemas".toList ++ '/' :: name := rfl
  simp only [resolveRef, hchars]
  rw [hpointer, lastSegment_append h.plain, schemaAt_eq_schemaOf h.nonempty h.plain]

theorem PlainParts.takeWhile_eq (h : PlainParts ref part name) :
    ref.toList.takeWhile (· != '#') = part := by
  rw [h.ref_eq, List.takeWhile_append_of_pos fun c hc => by
    have hne : c ≠ '#' := fun he => h.hash (he ▸ hc)
    simpa using hne]
  simp

theorem resolveRef_other (h : PlainParts ref part name) (hpart : part ≠ []) :
    (resolveRef docs ref file).schemaName = String.ofList name ∧
      (resolveRef docs ref file).schema =
        (fileNamed docs file part).bind (fun f => schemaOf docs (f, String.ofList name)) ∧
      ((resolveRef docs ref file).schema.isSome = true →
        (resolveRef docs ref file).file = fileNamed docs file part) := by
  have hdrop : (ref.toList.dropWhile (· != '#')).tail =
      "/components/schemas".toList ++ '/' :: name := by
    rw [h.ref_eq, List.dropWhile_append_of_pos fun c hc => by
      have hne : c ≠ '#' := fun he => h.hash (he ▸ hc)
      simpa using hne]
    simp
  have hmem : '#' ∈ ref.toList := by
    rw [h.ref_eq]
    simp
  simp only [resolveRef, fileNamed, if_neg hpart]
  split
  · rename_i pointer hchars
    cases hp : part with
    | nil => exact absurd hp hpart
    | cons c cs =>
      have hne : c ≠ '#' := fun he => h.hash (by rw [hp, he]; exact List.mem_cons_self)
      rw [h.ref_eq, hp] at hchars
      exact absurd (List.cons.inj hchars).1 hne
  · rw [h.takeWhile_eq, hdrop, lastSegment_append h.plain, if_neg (not_not_intro hmem)]
    simp only [schemaAt_eq_schemaOf h.nonempty h.plain]
    split_ifs with hbeside
    · simp
    · rw [String.toList_ofList]
      cases hdir : specDirForYaml part with
      | none => simp
      | some dir =>
        simp only [Option.map_some, Option.bind_some]
        split_ifs with htarget
        · simp
        · have hnone : docs.get? ⟨dir, String.ofList part⟩ = none := by simpa using htarget
          simp [schemaOf, hnone]

theorem resolveRef_plain (h : PlainParts ref part name) :
    (resolveRef docs ref file).schemaName = String.ofList name ∧
      (resolveRef docs ref file).schema =
        (fileNamed docs file part).bind (fun f => schemaOf docs (f, String.ofList name)) ∧
      ((resolveRef docs ref file).schema.isSome = true →
        (resolveRef docs ref file).file = fileNamed docs file part) := by
  by_cases hpart : part = []
  · subst hpart
    rw [resolveRef_same h]
    exact ⟨rfl, rfl, fun _ => rfl⟩
  · exact resolveRef_other h hpart

theorem Names.resolved {key : SchemaKey} (h : Names docs file ref key) :
    (resolveRef docs ref file).schema = schemaOf docs key ∧ keyOf docs file ref = key := by
  obtain ⟨part, hparts, hfile⟩ := h.parts
  obtain ⟨hname, hschema, hwhere⟩ := @resolveRef_plain docs file _ _ _ hparts
  rw [String.ofList_toList] at hname hschema
  have heq : (resolveRef docs ref file).schema = schemaOf docs key := by
    rw [hschema, hfile]
    rfl
  refine ⟨heq, ?_⟩
  have hsome : (resolveRef docs ref file).schema.isSome = true := by
    rw [heq]
    exact h.known
  rw [keyOf, hname, hwhere hsome, hfile]
  rfl

theorem names_keyOf (hplain : PlainRef ref) {s : Schema}
    (hschema : (resolveRef docs ref file).schema = some s) :
    Names docs file ref (keyOf docs file ref) ∧ schemaOf docs (keyOf docs file ref) = some s := by
  obtain ⟨part, name, hparts⟩ := hplain
  obtain ⟨hname, heq, hwhere⟩ := @resolveRef_plain docs file _ _ _ hparts
  have hfile := hwhere (by rw [hschema]; rfl)
  rw [hschema] at heq
  obtain ⟨f, hf, hs⟩ := Option.bind_eq_some_iff.1 heq.symm
  have hkey : keyOf docs file ref = (f, String.ofList name) := by
    rw [keyOf, hname, hfile, hf]
    rfl
  rw [hkey]
  refine ⟨⟨⟨part, ?_, hf⟩, ?_⟩, hs⟩
  · rw [String.toList_ofList]
    exact hparts
  · rw [hs]
    rfl

end forms

section congr

variable {follow follow' : String → Emitted}

mutual

/-- A node depends on what becomes of the references that are looked at, and on no others. -/
theorem resolveToNode_congr : ∀ s : Schema, (∀ r ∈ visible true s, follow r = follow' r) →
    resolveToNode follow s = resolveToNode follow' s
  | .mk hd ks, h => by
    simp only [visible] at h
    simp only [resolveToNode]
    cases href : hd.ref with
    | some ref =>
      rw [href] at h
      exact h ref (List.mem_singleton_self ref)
    | none =>
      rw [href] at h
      simp only at h ⊢
      split_ifs at h ⊢
      · rw [itemsNode_congr ks h]
      · rw [propertyNodes_congr hd.required ks fun r hr => h r (by simp [hr]),
          armNodes_congr ks fun r hr => h r (by simp [hr]),
          additionalNode_congr hd.additionalFlag ks fun r hr => h r (by simp [hr])]
      · rfl

theorem schemaNode_congr (inlinedFrom : Option String) :
    ∀ s : Schema, (∀ r ∈ visibleObject true s, follow r = follow' r) →
      schemaNode follow inlinedFrom s = schemaNode follow' inlinedFrom s
  | .mk hd ks, h => by
    simp only [visibleObject] at h
    simp only [schemaNode]
    rw [propertyNodes_congr hd.required ks fun r hr => h r (by simp [hr]),
      armNodes_congr ks fun r hr => h r (by simp [hr]),
      additionalNode_congr hd.additionalFlag ks fun r hr => h r (by simp [hr])]

theorem propertyNodes_congr (required : List String) :
    ∀ ks : List (Role × Schema), (∀ r ∈ visibleProperties true ks, follow r = follow' r) →
      propertyNodes follow required ks = propertyNodes follow' required ks
  | [], _ => rfl
  | (.property _, s) :: ks, h => by
    simp only [propertyNodes]
    rw [resolveToNode_congr s fun r hr => h r (List.mem_append_left _ hr),
      propertyNodes_congr required ks fun r hr => h r (List.mem_append_right _ hr)]
  | (.items, _) :: ks, h => propertyNodes_congr required ks h
  | (.additional, _) :: ks, h => propertyNodes_congr required ks h
  | (.allOf, _) :: ks, h => propertyNodes_congr required ks h
  | (.anyOf, _) :: ks, h => propertyNodes_congr required ks h
  | (.oneOf, _) :: ks, h => propertyNodes_congr required ks h

theorem armNodes_congr :
    ∀ ks : List (Role × Schema), (∀ r ∈ visibleArms true ks, follow r = follow' r) →
      armNodes follow ks = armNodes follow' ks
  | [], _ => rfl
  | (.allOf, s) :: ks, h => by
    simp only [visibleArms] at h
    simp only [armNodes]
    rw [armNodes_congr ks fun r hr => h r (List.mem_append_right _ hr)]
    split_ifs at h ⊢
    · rw [schemaNode_congr none s fun r hr => h r (List.mem_append_left _ hr)]
    · rfl
  | (.property _, _) :: ks, h => armNodes_congr ks h
  | (.items, _) :: ks, h => armNodes_congr ks h
  | (.additional, _) :: ks, h => armNodes_congr ks h
  | (.anyOf, _) :: ks, h => armNodes_congr ks h
  | (.oneOf, _) :: ks, h => armNodes_congr ks h

theorem itemsNode_congr :
    ∀ ks : List (Role × Schema), (∀ r ∈ visibleItems true ks, follow r = follow' r) →
      itemsNode follow ks = itemsNode follow' ks
  | [], _ => rfl
  | (.items, s) :: _, h => resolveToNode_congr s h
  | (.property _, _) :: ks, h => itemsNode_congr ks h
  | (.additional, _) :: ks, h => itemsNode_congr ks h
  | (.allOf, _) :: ks, h => itemsNode_congr ks h
  | (.anyOf, _) :: ks, h => itemsNode_congr ks h
  | (.oneOf, _) :: ks, h => itemsNode_congr ks h

theorem additionalNode_congr (flag : Option Bool) :
    ∀ ks : List (Role × Schema), (∀ r ∈ visibleAdditional true ks, follow r = follow' r) →
      additionalNode follow flag ks = additionalNode follow' flag ks
  | [], _ => rfl
  | (.additional, s) :: _, h => by
    simp only [additionalNode]
    rw [resolveToNode_congr s h]
  | (.property _, _) :: ks, h => additionalNode_congr flag ks h
  | (.items, _) :: ks, h => additionalNode_congr flag ks h
  | (.allOf, _) :: ks, h => additionalNode_congr flag ks h
  | (.anyOf, _) :: ks, h => additionalNode_congr flag ks h
  | (.oneOf, _) :: ks, h => additionalNode_congr flag ks h

end

end congr

section kept

mutual

/-- A reference that the node keeps is one that the walk looks at. -/
theorem visible_kept : ∀ s : Schema, ∀ r ∈ visible false s, r ∈ visible true s
  | .mk hd ks => by
    intro r hr
    simp only [visible] at hr ⊢
    cases href : hd.ref with
    | some ref =>
      rw [href] at hr
      exact hr
    | none =>
      rw [href] at hr
      simp only at hr ⊢
      split_ifs at hr ⊢
      · exact visibleItems_kept ks r hr
      · rcases List.mem_append.1 hr with hr | hr
        · rcases List.mem_append.1 hr with hr | hr
          · simp [visibleProperties_kept ks r hr]
          · simp [visibleArms_kept ks r hr]
        · simp [visibleAdditional_kept ks r hr]
      · exact hr

theorem visibleObject_kept : ∀ s : Schema, ∀ r ∈ visibleObject false s, r ∈ visibleObject true s
  | .mk _ ks => by
    intro r hr
    simp only [visibleObject]
    rcases List.mem_append.1 hr with hr | hr
    · rcases List.mem_append.1 hr with hr | hr
      · simp [visibleProperties_kept ks r hr]
      · simp [visibleArms_kept ks r hr]
    · simp [visibleAdditional_kept ks r hr]

theorem visibleFields_kept : ∀ s : Schema, ∀ r ∈ visibleFields false s, r ∈ visibleObject true s
  | .mk _ ks => by
    intro r hr
    simp only [visibleObject]
    rcases List.mem_append.1 hr with hr | hr
    · simp [visibleProperties_kept ks r hr]
    · simp [visibleArms_kept ks r hr]

theorem visibleProperties_kept : ∀ ks : List (Role × Schema),
    ∀ r ∈ visibleProperties false ks, r ∈ visibleProperties true ks
  | [] => fun _ hr => hr
  | (.property _, s) :: ks => by
    intro r hr
    rcases List.mem_append.1 hr with hr | hr
    · exact List.mem_append_left _ (visible_kept s r hr)
    · exact List.mem_append_right _ (visibleProperties_kept ks r hr)
  | (.items, _) :: ks => visibleProperties_kept ks
  | (.additional, _) :: ks => visibleProperties_kept ks
  | (.allOf, _) :: ks => visibleProperties_kept ks
  | (.anyOf, _) :: ks => visibleProperties_kept ks
  | (.oneOf, _) :: ks => visibleProperties_kept ks

theorem visibleArms_kept : ∀ ks : List (Role × Schema),
    ∀ r ∈ visibleArms false ks, r ∈ visibleArms true ks
  | [] => fun _ hr => hr
  | (.allOf, s) :: ks => by
    intro r hr
    simp only [visibleArms] at hr ⊢
    rcases List.mem_append.1 hr with hr | hr
    · refine List.mem_append_left _ ?_
      by_cases harmed : s.isArmed = true
      · rw [if_pos harmed, if_neg Bool.false_ne_true] at hr
        rw [if_pos harmed, if_pos trivial]
        exact visibleFields_kept s r hr
      · rw [if_neg harmed] at hr
        cases hr
    · exact List.mem_append_right _ (visibleArms_kept ks r hr)
  | (.property _, _) :: ks => visibleArms_kept ks
  | (.items, _) :: ks => visibleArms_kept ks
  | (.additional, _) :: ks => visibleArms_kept ks
  | (.anyOf, _) :: ks => visibleArms_kept ks
  | (.oneOf, _) :: ks => visibleArms_kept ks

theorem visibleItems_kept : ∀ ks : List (Role × Schema),
    ∀ r ∈ visibleItems false ks, r ∈ visibleItems true ks
  | [] => fun _ hr => hr
  | (.items, s) :: _ => visible_kept s
  | (.property _, _) :: ks => visibleItems_kept ks
  | (.additional, _) :: ks => visibleItems_kept ks
  | (.allOf, _) :: ks => visibleItems_kept ks
  | (.anyOf, _) :: ks => visibleItems_kept ks
  | (.oneOf, _) :: ks => visibleItems_kept ks

theorem visibleAdditional_kept : ∀ ks : List (Role × Schema),
    ∀ r ∈ visibleAdditional false ks, r ∈ visibleAdditional true ks
  | [] => fun _ hr => hr
  | (.additional, s) :: _ => visible_kept s
  | (.property _, _) :: ks => visibleAdditional_kept ks
  | (.items, _) :: ks => visibleAdditional_kept ks
  | (.allOf, _) :: ks => visibleAdditional_kept ks
  | (.anyOf, _) :: ks => visibleAdditional_kept ks
  | (.oneOf, _) :: ks => visibleAdditional_kept ks

end

theorem visibleRoot_kept (s : Schema) : ∀ r ∈ visibleRoot false s, r ∈ visibleRoot true s := by
  intro r hr
  simp only [visibleRoot] at hr ⊢
  split_ifs at hr ⊢
  · exact visibleObject_kept s r hr
  · exact visible_kept s r hr
  · exact hr

end kept

/-- A call at a reference: the schemas that are open, and the file that the reference is in. -/
structure Call where
  opened : List SchemaKey
  file : DocFile
  ref : String

namespace Call

def key (docs : Documents) (c : Call) : SchemaKey := keyOf docs c.file c.ref

def name (docs : Documents) (c : Call) : String := nameOf docs c.file c.ref

def schema? (docs : Documents) (c : Call) : Option Schema := (resolveRef docs c.ref c.file).schema

/-- A call from the schema that this one opens. -/
def inside (docs : Documents) (c : Call) (r : String) : Call :=
  ⟨c.key docs :: c.opened, (c.key docs).1, r⟩

end Call

section calls

variable (docs : Documents) (index : String → Option String)

structure Opens (c : Call) (target : Schema) : Prop where
  index : index (c.name docs) = none
  schema : c.schema? docs = some target
  new : c.key docs ∉ c.opened

/-- The schema is open already. -/
structure Marks (c : Call) : Prop where
  index : index (c.name docs) = none
  schema : (c.schema? docs).isSome = true
  opened : c.key docs ∈ c.opened

/-- The call ends with this node. -/
inductive Made : Call → Emitted → Prop
  | topic {c : Call} {topic : String} (hindex : index (c.name docs) = some topic) :
      Made c (.topic topic, [])
  | unresolved {c : Call} (hindex : index (c.name docs) = none)
      (hschema : c.schema? docs = none) :
      Made c (.unresolved c.ref, [classifyUnresolvedRef c.ref])
  | cycle {c : Call} (hmarks : Marks docs index c) : Made c (.cycle (c.name docs), [])
  | inline {c : Call} {target : Schema} (hopens : Opens docs index c target)
      (follow : String → Emitted)
      (hinside : ∀ r ∈ visibleObject true target, Made (c.inside docs r) (follow r)) :
      Made c (schemaNode follow (some c.ref) target)

/-- With `whole` unset, what is made of the second call is part of what is made of the first. -/
def Step (whole : Bool) (c c' : Call) : Prop :=
  ∃ target, Opens docs index c target ∧ ∃ r ∈ visibleObject whole target, c' = c.inside docs r

variable {docs index}

theorem made_deref (fuel : ℕ) {opened : List SchemaKey} {file : DocFile} {ref : String}
    (hfuel : (unopened docs opened).length < fuel) (hfile : file ∈ docs.keys)
    (href : ref ∈ allRefs docs) :
    Made docs index ⟨opened, file, ref⟩ (deref docs index fuel opened file ref) := by
  induction fuel generalizing opened file ref with
  | zero => omega
  | succ fuel ih =>
    simp only [deref]
    cases hindex : index (resolveRef docs ref file).schemaName with
    | some topic => exact .topic hindex
    | none =>
      cases hschema : (resolveRef docs ref file).schema with
      | none => exact .unresolved hindex hschema
      | some target =>
        simp only
        split_ifs with hopen
        · exact .cycle ⟨hindex, Option.isSome_iff_exists.2 ⟨target, hschema⟩, hopen⟩
        · have hlt := unopened_cons_lt docs (keyOf_mem_allKeys docs hfile href) hopen
          obtain ⟨hknown, htarget⟩ := resolved_known docs hschema
          have hopens : Opens docs index ⟨opened, file, ref⟩ target := ⟨hindex, hschema, hopen⟩
          have hless : (unopened docs (keyOf docs file ref :: opened)).length < fuel := by omega
          exact .inline hopens _ fun r hr =>
            ih hless hknown (htarget r (visibleObject_subset target r hr))

theorem Marks.not_opens {c : Call} {target : Schema} (h : Marks docs index c) :
    ¬Opens docs index c target := fun hopens => hopens.new h.opened

theorem Marks.schema_ne {c : Call} (h : Marks docs index c) : c.schema? docs ≠ none := by
  intro hnone
  have hsome := h.schema
  rw [hnone] at hsome
  cases hsome

theorem Made.unique {c : Call} {e e' : Emitted} (h : Made docs index c e)
    (h' : Made docs index c e') : e = e' := by
  induction h generalizing e' with
  | topic hindex =>
    cases h' with
    | topic hindex' => rw [Option.some.inj (hindex.symm.trans hindex')]
    | unresolved hindex' => cases hindex.symm.trans hindex'
    | cycle hmarks => cases hindex.symm.trans hmarks.index
    | inline hopens => cases hindex.symm.trans hopens.index
  | unresolved hindex hschema =>
    cases h' with
    | topic hindex' => cases hindex.symm.trans hindex'
    | unresolved => rfl
    | cycle hmarks => exact absurd hschema hmarks.schema_ne
    | inline hopens => cases hschema.symm.trans hopens.schema
  | cycle hmarks =>
    cases h' with
    | topic hindex => cases hmarks.index.symm.trans hindex
    | unresolved _ hschema => exact absurd hschema hmarks.schema_ne
    | cycle => rfl
    | inline hopens => exact absurd hopens hmarks.not_opens
  | inline hopens follow hinside ih =>
    cases h' with
    | topic hindex => cases hopens.index.symm.trans hindex
    | unresolved _ hschema => cases hopens.schema.symm.trans hschema
    | cycle hmarks => exact absurd hopens hmarks.not_opens
    | inline hopens' follow' hinside' =>
      cases Option.some.inj (hopens.schema.symm.trans hopens'.schema)
      exact schemaNode_congr _ _ fun r hr => ih r hr (hinside' r hr)

/-- A call is marked just when its node is a mark. -/
theorem Made.cycle_iff {c : Call} {e : Emitted} (h : Made docs index c e) :
    (∃ name, e.1 = .cycle name) ↔ Marks docs index c := by
  constructor
  · intro hcycle
    obtain ⟨name, hname⟩ := hcycle
    cases h with
    | topic => cases hname
    | unresolved => cases hname
    | cycle hmarks => exact hmarks
    | inline hopens follow hinside =>
      rename_i target
      cases target
      cases hname
  · intro hmarks
    rw [h.unique (.cycle hmarks)]
    exact ⟨_, rfl⟩

theorem Made.inlined {c : Call} {e : Emitted} {target : Schema} (h : Made docs index c e)
    (hopens : Opens docs index c target) :
    ∃ follow, (∀ r ∈ visibleObject true target, Made docs index (c.inside docs r) (follow r)) ∧
      e = schemaNode follow (some c.ref) target := by
  cases h with
  | topic hindex => cases hopens.index.symm.trans hindex
  | unresolved _ hschema => cases hopens.schema.symm.trans hschema
  | cycle hmarks => exact absurd hopens hmarks.not_opens
  | inline hopens' follow hinside =>
    cases Option.some.inj (hopens.schema.symm.trans hopens'.schema)
    exact ⟨follow, hinside, rfl⟩

/-- The marks in a node are those of the calls that its own call leads to. -/
theorem Made.mem_marks_iff {c : Call} {e : Emitted} (h : Made docs index c e) (name : String) :
    name ∈ e.1.marks ↔ ∃ c', Relation.ReflTransGen (Step docs index false) c c' ∧
      Marks docs index c' ∧ c'.name docs = name := by
  have hstay : ∀ {c c' : Call}, (∀ target, ¬Opens docs index c target) →
      Relation.ReflTransGen (Step docs index false) c c' → c' = c := by
    intro c c' hnone hreach
    rcases hreach.cases_head with heq | ⟨_, hstep, -⟩
    · exact heq.symm
    · obtain ⟨target, hopens, -⟩ := hstep
      exact absurd hopens (hnone target)
  induction h with
  | topic hindex =>
    simp only [SchemaNode.marks, SchemaNode.collect, SchemaNode.markLeaf, List.not_mem_nil,
      false_iff]
    rintro ⟨c', hreach, hmarks, -⟩
    rw [hstay (fun target hopens => by cases hindex.symm.trans hopens.index) hreach] at hmarks
    cases hindex.symm.trans hmarks.index
  | unresolved hindex hschema =>
    simp only [SchemaNode.marks, SchemaNode.collect, SchemaNode.markLeaf, List.not_mem_nil,
      false_iff]
    rintro ⟨c', hreach, hmarks, -⟩
    rw [hstay (fun target hopens => by cases hschema.symm.trans hopens.schema) hreach] at hmarks
    exact hmarks.schema_ne hschema
  | cycle hmarks =>
    simp only [SchemaNode.marks, SchemaNode.collect, SchemaNode.markLeaf, List.mem_singleton]
    constructor
    · intro hname
      exact ⟨_, .refl, hmarks, hname.symm⟩
    · rintro ⟨c', hreach, -, hname⟩
      rw [hstay (fun target => hmarks.not_opens) hreach] at hname
      exact hname.symm
  | inline hopens follow hinside ih =>
    rename_i c target
    rw [SchemaNode.marks, collect_schemaNode, List.mem_flatMap]
    constructor
    · rintro ⟨r, hr, hname⟩
      obtain ⟨c', hreach, hmarks⟩ := (ih r (visibleObject_kept target r hr)).1 hname
      exact ⟨c', .head ⟨target, hopens, r, hr, rfl⟩ hreach, hmarks⟩
    · rintro ⟨c', hreach, hmarks, hname⟩
      rcases hreach.cases_head with heq | ⟨_, hstep, hrest⟩
      · rw [← heq] at hmarks
        exact absurd hopens hmarks.not_opens
      · obtain ⟨target', hopens', r, hr, rfl⟩ := hstep
        cases Option.some.inj (hopens.schema.symm.trans hopens'.schema)
        exact ⟨r, hr, (ih r (visibleObject_kept target r hr)).2 ⟨c', hrest, hmarks, hname⟩⟩

end calls

section visits

variable {docs : Documents} {q : Request} {root : Schema}

/-- A call from the root schema. -/
def Request.call (q : Request) (ref : String) : Call := ⟨[q.rootKey], q.yamlPath, ref⟩

/-- The walk from the root makes the call; with `whole` unset, the node it gives is kept. -/
def Visits (docs : Documents) (q : Request) (root : Schema) (whole : Bool) (c : Call) : Prop :=
  ∃ r ∈ visibleRoot whole root, Relation.ReflTransGen (Step docs q.index whole) (q.call r) c

/-- What holds of every call: it stands in a document, and no open schema is a topic. -/
structure Standing (docs : Documents) (q : Request) (c : Call) : Prop where
  file : c.file ∈ docs.keys
  ref : c.ref ∈ allRefs docs
  opened : ∀ key ∈ c.opened, q.index key.2 = none

theorem Standing.step {whole : Bool} {c c' : Call} (h : Standing docs q c)
    (hstep : Step docs q.index whole c c') : Standing docs q c' := by
  obtain ⟨target, hopens, r, hr, rfl⟩ := hstep
  obtain ⟨hknown, hrefs⟩ := resolved_known docs hopens.schema
  refine ⟨hknown, hrefs r (visibleObject_subset target r hr), fun key hkey => ?_⟩
  rcases List.mem_cons.1 hkey with heq | hold
  · rw [heq]
    exact hopens.index
  · exact h.opened key hold

theorem Visits.standing {whole : Bool} {c : Call} (hroot : rootSchema? docs q = some root)
    (h : Visits docs q root whole c) : Standing docs q c := by
  obtain ⟨r, hr, hreach⟩ := h
  obtain ⟨hfile, hrefs⟩ := rootSchema_known hroot
  induction hreach with
  | refl =>
    refine ⟨hfile, hrefs r (visibleRoot_subset root r hr), fun key hkey => ?_⟩
    rw [List.mem_singleton.1 hkey]
    exact if_pos rfl
  | tail _ hstep ih => exact ih.step hstep

theorem Standing.exists_made {c : Call} (h : Standing docs q c) :
    ∃ e, Made docs q.index c e :=
  ⟨_, made_deref _ (unopened_le docs c.opened) h.file h.ref⟩

/-- With plain references, a call is marked just when its schema is one of those that are
open. -/
theorem Standing.marks_iff {c : Call} (h : Standing docs q c) (hplain : PlainRef c.ref) :
    Marks docs q.index c ↔ ∃ key ∈ c.opened, Names docs c.file c.ref key := by
  constructor
  · intro hmarks
    obtain ⟨s, hs⟩ := Option.isSome_iff_exists.1 hmarks.schema
    exact ⟨c.key docs, hmarks.opened, (names_keyOf hplain hs).1⟩
  · rintro ⟨key, hkey, hnames⟩
    obtain ⟨hschema, heq⟩ := hnames.resolved
    refine ⟨?_, ?_, ?_⟩
    · have hname : c.name docs = key.2 := congrArg Prod.snd heq
      rw [hname]
      exact h.opened key hkey
    · rw [Call.schema?, hschema]
      exact hnames.known
    · rw [Call.key, heq]
      exact hkey

theorem Names.opens {c : Call} {key : SchemaKey} {s : Schema} {index : String → Option String}
    (h : Names docs c.file c.ref key) (hs : schemaOf docs key = some s)
    (hindex : index key.2 = none) (hnew : key ∉ c.opened) : Opens docs index c s := by
  obtain ⟨hschema, heq⟩ := h.resolved
  refine ⟨?_, hschema.trans hs, ?_⟩
  · have hname : c.name docs = key.2 := congrArg Prod.snd heq
    rw [hname]
    exact hindex
  · rw [Call.key, heq]
    exact hnew

/-- The walk from the root ends with the node, and it marks the references to the schemas that
are open where they stand, and no others: each other one is inlined wherever it stands. -/
structure MarksExactly (docs : Documents) (q : Request) (root : Schema) (node : SchemaNode) :
    Prop where
  ends : ∃ follow, (∀ r ∈ visibleRoot true root, Made docs q.index (q.call r) (follow r)) ∧
    node = (rootNode follow root).1
  once : ∀ c, Visits docs q root true c → ∃! e, Made docs q.index c e
  cycle : ∀ c e, Visits docs q root true c → Made docs q.index c e →
    ((∃ name, e.1 = .cycle name) ↔ ∃ key ∈ c.opened, Names docs c.file c.ref key)
  inlined : ∀ c e key s, Visits docs q root true c → Made docs q.index c e →
    Names docs c.file c.ref key → schemaOf docs key = some s → q.index key.2 = none →
    key ∉ c.opened → ∃ follow, (∀ r ∈ visibleObject true s,
      Made docs q.index ⟨key :: c.opened, key.1, r⟩ (follow r)) ∧
      e = schemaNode follow (some c.ref) s
  marks : ∀ name, name ∈ node.marks ↔ ∃ c, Visits docs q root false c ∧
    ∃ key ∈ c.opened, Names docs c.file c.ref key ∧ key.2 = name

theorem marksExactly_body (hplain : ∀ ref ∈ allRefs docs, PlainRef ref)
    (hroot : rootSchema? docs q = some root) :
    MarksExactly docs q root (body docs q root).1 := by
  obtain ⟨hfile, hrefs⟩ := rootSchema_known hroot
  have hmade : ∀ r ∈ visibleRoot true root, Made docs q.index (q.call r)
      (deref docs q.index ((allKeys docs).length + 1) [q.rootKey] q.yamlPath r) := fun r hr =>
    made_deref _ (unopened_le docs _) hfile (hrefs r (visibleRoot_subset root r hr))
  refine ⟨⟨_, hmade, rfl⟩, ?_, ?_, ?_, ?_⟩
  · intro c hvisit
    obtain ⟨e, he⟩ := (hvisit.standing hroot).exists_made
    exact ⟨e, he, fun e' he' => he'.unique he⟩
  · intro c e hvisit he
    have hstanding := hvisit.standing hroot
    rw [he.cycle_iff, hstanding.marks_iff (hplain c.ref hstanding.ref)]
  · intro c e key s _ he hnames hs hindex hnew
    obtain ⟨follow, hinside, heq⟩ := he.inlined (hnames.opens hs hindex hnew)
    refine ⟨follow, fun r hr => ?_, heq⟩
    have hmade' := hinside r hr
    rw [Call.inside, Call.key, hnames.resolved.2] at hmade'
    exact hmade'
  · intro name
    rw [SchemaNode.marks, body, collect_rootNode, List.mem_flatMap]
    constructor
    · rintro ⟨r, hr, hname⟩
      obtain ⟨c, hreach, hmarks, rfl⟩ :=
        ((hmade r (visibleRoot_kept root r hr)).mem_marks_iff name).1 hname
      have hvisit : Visits docs q root false c := ⟨r, hr, hreach⟩
      have hstanding := hvisit.standing hroot
      obtain ⟨key, hkey, hnames⟩ := (hstanding.marks_iff (hplain c.ref hstanding.ref)).1 hmarks
      exact ⟨c, hvisit, key, hkey, hnames, congrArg Prod.snd hnames.resolved.2.symm⟩
    · rintro ⟨c, hvisit, key, hkey, hnames, rfl⟩
      have hstanding := hvisit.standing hroot
      have hmarks := (hstanding.marks_iff (hplain c.ref hstanding.ref)).2 ⟨key, hkey, hnames⟩
      obtain ⟨r, hr, hreach⟩ := hvisit
      refine ⟨r, hr, ((hmade r (visibleRoot_kept root r hr)).mem_marks_iff key.2).2 ?_⟩
      exact ⟨c, hreach, hmarks, congrArg Prod.snd hnames.resolved.2⟩

/-- The machine form of a root is found for every set of documents with plain references, and
it marks the cycles exactly. A root with the name of a status code has none. -/
theorem emitJson_marks_cycles (hplain : ∀ ref ∈ allRefs docs, PlainRef ref)
    (hroot : rootSchema? docs q = some root) : ∃ p, emitJson docs q = .ok p ∧
      if isStatusCode q.rootSchemaName then p.root = none
      else ∃ node, p.root = some node ∧ MarksExactly docs q root node := by
  simp only [emitJson]
  split_ifs with hstatus
  · exact ⟨_, rfl, rfl⟩
  · rw [hroot]
    exact ⟨_, rfl, _, rfl, marksExactly_body hplain hroot⟩

end visits

def selfRef : String := "#/components/schemas/Info"

/-- A schema with a property of its own type. -/
def selfSchema : Schema := .mk plainHead [(.property "self", refSchema selfRef)]

theorem emitJson_marks_self : ∃ p, emitJson (sampleDocs selfSchema) sampleRequest = .ok p ∧
    if isStatusCode sampleRequest.rootSchemaName then p.root = none
    else ∃ node, p.root = some node ∧
      MarksExactly (sampleDocs selfSchema) sampleRequest selfSchema node := by
  refine emitJson_marks_cycles (fun ref href => ?_) rfl
  have honly : allRefs (sampleDocs selfSchema) = [selfRef] := rfl
  rw [honly, List.mem_singleton] at href
  subst href
  exact ⟨[], "Info".toList, rfl, by simp, by simp, by decide, by decide⟩

example : (body (sampleDocs selfSchema) sampleRequest selfSchema).1.marks = ["Info"] := rfl

end Nssf.Design.EmitJson
