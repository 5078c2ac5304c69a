import Nssf.Design.MergeAllOf

/-! Two ways to flatten a composition into the fields of an object. The machine form lists the
properties of the schema and of its inline arms, each with the required names of its own level;
the C structures are made of the merged form. -/

namespace Nssf.Design.Flatten

open Base EmitJson MergeAllOf

mutual

/-- The levels that the machine form reads: arms with properties or required names in them. -/
def readLevels : Schema → List Schema
  | .mk h ks => .mk h ks :: armLevels ks

def armLevels : List (Role × Schema) → List Schema
  | [] => []
  | (.allOf, s) :: ks => (if s.isArmed then readLevels s else []) ++ armLevels ks
  | _ :: ks => armLevels ks

end

def levelPairs (level : Schema) : List (String × Bool) :=
  (propertyNames level).map fun n => (n, level.head.required.contains n)

def fieldPairs (fields : Fields) : List (String × Bool) := fields.map fun f => (f.1, f.2.1)

section emit

variable (follow : String → Emitted)

theorem propertyNodes_pairs (required : List String) (ks : List (Role × Schema)) :
    fieldPairs (propertyNodes follow required ks).1 =
      (namesOf ks).map fun n => (n, required.contains n) := by
  induction ks with
  | nil => rfl
  | cons k ks ih =>
    obtain ⟨role, s⟩ := k
    cases role with
    | property name =>
      simp only [propertyNodes, fieldPairs, List.map_cons]
      exact congrArg _ ih
    | items => exact ih
    | additional => exact ih
    | allOf => exact ih
    | anyOf => exact ih
    | oneOf => exact ih

mutual

theorem schemaNode_pairs (inlinedFrom : Option String) : ∀ s : Schema,
    fieldPairs (schemaNode follow inlinedFrom s).1.properties = (readLevels s).flatMap levelPairs
  | .mk h ks => by
    simp only [schemaNode, objectOf, SchemaNode.properties, readLevels, List.flatMap_cons]
    rw [← armNodes_pairs ks, fieldPairs, List.map_append]
    exact congrArg (· ++ _) (propertyNodes_pairs follow h.required ks)

theorem armNodes_pairs : ∀ ks : List (Role × Schema),
    fieldPairs (armNodes follow ks).1 = (armLevels ks).flatMap levelPairs
  | [] => rfl
  | (.allOf, s) :: ks => by
    simp only [armNodes, armLevels, List.flatMap_append]
    by_cases harmed : s.isArmed = true
    · rw [if_pos harmed, if_pos harmed, fieldPairs, List.map_append, ← armNodes_pairs ks,
        ← schemaNode_pairs none s]
      rfl
    · rw [if_neg harmed, if_neg harmed, ← armNodes_pairs ks]
      rfl
  | (.property _, _) :: ks => armNodes_pairs ks
  | (.items, _) :: ks => armNodes_pairs ks
  | (.additional, _) :: ks => armNodes_pairs ks
  | (.anyOf, _) :: ks => armNodes_pairs ks
  | (.oneOf, _) :: ks => armNodes_pairs ks

end

end emit

/-- An array that is itself a reference. -/
def arrayTarget (docs : Documents) (q : Request) (s : Schema) : Option Schema :=
  if s.head.type = some "array" then
    s.head.ref.bind fun ref =>
      if keyOf docs q.yamlPath ref = q.rootKey then none
      else (resolveRef docs ref q.yamlPath).schema
  else none

/-- The levels that the fields of the machine form come from. -/
def rootLevels (docs : Documents) (q : Request) (s : Schema) : List Schema :=
  if isStatusCode q.rootSchemaName then []
  else if isObjectRoot s then readLevels s
  else (arrayTarget docs q s).elim [] readLevels

/-- The fields are the pairs of the merged form, each name once. -/
structure Agree (p : Payload) (merged : Schema) : Prop where
  once : (p.fields.map Prod.fst).Nodup
  pairs : ∀ n b, (n, b) ∈ fieldPairs p.fields ↔
    n ∈ propertyNames merged ∧ b = merged.head.required.contains n

/-- No property is given by two of the levels read, the levels read give every property of the
composition, and a property is required where it stands just when some level requires it. -/
structure Shown (docs : Documents) (q : Request) (c : Collected) (root : Schema) : Prop where
  once : ((rootLevels docs q root).flatMap propertyNames).Nodup
  given : ∀ n, (∃ level ∈ rootLevels docs q root, n ∈ propertyNames level) ↔
    ∃ level, Joined c root level ∧ n ∈ propertyNames level
  required : ∀ level ∈ rootLevels docs q root, ∀ n ∈ propertyNames level,
    n ∈ level.head.required ↔ ∃ level', Joined c root level' ∧ n ∈ level'.head.required

section main

variable {docs : Documents} {q : Request} {c : Collected} {root : Schema} {p : Payload}

theorem index_eq_none (hhandoff : q.handoffTopics = []) (name : String) :
    q.index name = none := by
  rw [Request.index, hhandoff, topicIndex]
  split_ifs
  · rfl
  · rfl

theorem composed_properties (arms : List Schema) (description : Option String) :
    (composed arms description).properties = [] := by
  simp only [composed]
  split_ifs <;> rfl

theorem scalar_properties (follow : String → Emitted) {s : Schema}
    (hobject : ¬isObjectRoot s = true) (harray : ¬s.head.type = some "array") :
    (rootNode follow s).1.properties = [] := by
  simp only [rootNode, if_neg hobject, if_neg harray]
  split_ifs
  · rfl
  · rfl
  · exact composed_properties _ _
  · exact composed_properties _ _

theorem array_pairs (hhandoff : q.handoffTopics = []) (hobject : ¬isObjectRoot root = true) :
    fieldPairs (body docs q root).1.properties =
      ((arrayTarget docs q root).elim [] readLevels).flatMap levelPairs := by
  by_cases harray : root.head.type = some "array"
  · obtain ⟨h, ks⟩ := root
    have harray' : h.type = some "array" := harray
    rw [body, rootNode, if_neg hobject, if_pos harray, arrayTarget, if_pos harray, resolveToNode]
    cases href : h.ref with
    | none =>
      simp only [Schema.head, href, if_pos harray', Option.bind_none, Option.elim_none]
      rfl
    | some ref =>
      simp only [Schema.head, href, Option.bind_some]
      rw [deref, index_eq_none hhandoff]
      by_cases hroot : keyOf docs q.yamlPath ref = q.rootKey
      · rw [if_pos hroot, Option.elim_none]
        cases (resolveRef docs ref q.yamlPath).schema with
        | none => rfl
        | some target =>
          simp only [hroot, List.mem_singleton, if_true]
          rfl
      · rw [if_neg hroot]
        cases (resolveRef docs ref q.yamlPath).schema with
        | none => rfl
        | some target =>
          simp only [List.mem_singleton, if_neg hroot, Option.elim_some]
          exact schemaNode_pairs _ (some ref) target
  · rw [body, scalar_properties _ hobject harray, arrayTarget, if_neg harray]
    rfl

theorem fields_pairs (hroot : rootSchema? docs q = some root) (hhandoff : q.handoffTopics = [])
    (hp : emitJson docs q = .ok p) :
    fieldPairs p.fields = (rootLevels docs q root).flatMap levelPairs := by
  rw [emitJson] at hp
  rw [rootLevels]
  split_ifs at hp with hstatus
  · cases hp
    rw [if_pos hstatus]
    rfl
  · rw [hroot] at hp
    cases hp
    rw [if_neg hstatus]
    change fieldPairs (body docs q root).1.properties = _
    by_cases hobject : isObjectRoot root = true
    · rw [if_pos hobject, body, rootNode, if_pos hobject]
      exact schemaNode_pairs _ none root
    · rw [if_neg hobject]
      exact array_pairs hhandoff hobject

theorem exists_payload (hroot : rootSchema? docs q = some root) :
    ∃ p, emitJson docs q = .ok p := by
  rw [emitJson, hroot]
  split_ifs
  · exact ⟨_, rfl⟩
  · exact ⟨_, rfl⟩

theorem mem_levelPairs {level : Schema} {n : String} {b : Bool} :
    (n, b) ∈ levelPairs level ↔
      n ∈ propertyNames level ∧ b = level.head.required.contains n := by
  rw [levelPairs, List.mem_map]
  constructor
  · rintro ⟨m, hm, heq⟩
    cases heq
    exact ⟨hm, rfl⟩
  · rintro ⟨hn, rfl⟩
    exact ⟨n, hn, rfl⟩

theorem names_of_pairs {fields : Fields} {levels : List Schema}
    (h : fieldPairs fields = levels.flatMap levelPairs) :
    fields.map Prod.fst = levels.flatMap propertyNames := by
  have hnames := congrArg (List.map Prod.fst) h
  rw [fieldPairs, List.map_map, List.map_flatMap] at hnames
  simp only [levelPairs, List.map_map] at hnames
  exact hnames.trans (by simp [Function.comp_def])

theorem mem_pairs_iff (levels : List Schema) (n : String) (b : Bool) :
    (n, b) ∈ levels.flatMap levelPairs ↔
      ∃ level ∈ levels, n ∈ propertyNames level ∧ b = level.head.required.contains n := by
  rw [List.mem_flatMap]
  exact exists_congr fun level => and_congr_right fun _ => mem_levelPairs

theorem contains_eq_iff {required required' : List String} {n : String} :
    required.contains n = required'.contains n ↔ (n ∈ required ↔ n ∈ required') := by
  rw [Bool.eq_iff_iff, List.contains_iff_mem, List.contains_iff_mem]

theorem agree_iff {merged : Schema} (hsums : Sums c root merged)
    (hfields : fieldPairs p.fields = (rootLevels docs q root).flatMap levelPairs) :
    Agree p merged ↔ Shown docs q c root := by
  constructor
  · intro h
    have hpairs := h.pairs
    simp only [hfields, mem_pairs_iff] at hpairs
    constructor
    · rw [← names_of_pairs hfields]
      exact h.once
    · intro n
      rw [← hsums.names]
      constructor
      · rintro ⟨level, hlevel, hn⟩
        exact ((hpairs n _).1 ⟨level, hlevel, hn, rfl⟩).1
      · intro hn
        obtain ⟨level, hlevel, hn, -⟩ := (hpairs n _).2 ⟨hn, rfl⟩
        exact ⟨level, hlevel, hn⟩
    · intro level hlevel n hn
      rw [← hsums.required]
      exact contains_eq_iff.1 ((hpairs n _).1 ⟨level, hlevel, hn, rfl⟩).2
  · intro h
    constructor
    · rw [names_of_pairs hfields]
      exact h.once
    · intro n b
      rw [hfields, mem_pairs_iff]
      have hflag : ∀ level ∈ rootLevels docs q root, n ∈ propertyNames level →
          level.head.required.contains n = merged.head.required.contains n := by
        intro level hlevel hn
        rw [contains_eq_iff, hsums.required]
        exact h.required level hlevel n hn
      rw [hsums.names, ← h.given]
      constructor
      · rintro ⟨level, hlevel, hn, rfl⟩
        exact ⟨⟨level, hlevel, hn⟩, hflag level hlevel hn⟩
      · rintro ⟨⟨level, hlevel, hn⟩, rfl⟩
        exact ⟨level, hlevel, hn, (hflag level hlevel hn).symm⟩

/-- Where the arms do not come back to themselves both forms exist; they agree just when the
levels that the machine form reads show all there is. -/
theorem flattened_agree_iff (hroot : rootSchema? docs q = some root)
    (hhandoff : q.handoffTopics = []) (hacyclic : AllOfAcyclic c) :
    ∃ merged p, Merges c root merged ∧ emitJson docs q = .ok p ∧
      (isObjectForm merged = true → (Agree p merged ↔ Shown docs q c root)) := by
  obtain ⟨merged, hmerged⟩ := exists_merges hacyclic root
  obtain ⟨p, hp⟩ := exists_payload hroot
  exact ⟨merged, p, hmerged, hp, fun _ =>
    agree_iff hmerged.sums (fields_pairs hroot hhandoff hp)⟩

end main

def refSchema (ref : String) : Schema := .mk { emptyHead with ref := some ref } []

def text : Schema := .mk { emptyHead with type := some "string" } []

def sampleFile : DocFile := ⟨"29.531", "TS29531_Nnssf_NSSelection.yaml"⟩

def baseSchema : Schema :=
  .mk { emptyHead with type := some "object", required := ["a"] } [(.property "a", text)]

def baseRef : String := "#/components/schemas/Base"

/-- The base comes in by a reference. -/
def derivedSchema : Schema :=
  .mk { emptyHead with type := some "object" } [(.allOf, refSchema baseRef), (.property "b", text)]

/-- The property of the base is written out as well. -/
def repeatedSchema : Schema :=
  .mk { emptyHead with type := some "object", required := ["a"] }
    [(.allOf, refSchema baseRef), (.property "a", text)]

def sampleDocs (s : Schema) : Documents :=
  Dict.ofList [(sampleFile, ⟨[(["components", "schemas", "Base"], baseSchema),
    (["components", "schemas", "Derived"], s)]⟩)]

def sampleRequest : Request where
  yamlPath := sampleFile
  rootSchemaName := "Derived"
  topicId := "data-model/Derived"
  nf := "nssf"
  status := "canonical"
  handoffTopics := []

/-- The sample has one arm, the reference to the base. -/
theorem sample_acyclic {s : Schema} (harms : armRefs s = [baseRef]) :
    AllOfAcyclic (collected (sampleDocs s)) := by
  have hderived : armDeps (collected (sampleDocs s)) "Derived" = ["Base"] := by
    change ((armRefs s).map refName).filter _ = _
    rw [harms]
    rfl
  refine Kahn.acyclic_of_rank (fun name => if name = "Derived" then 1 else 0) fun k hk d hd => ?_
  have hkeys : (collected (sampleDocs s)).keys = ["Derived", "Base"] := rfl
  rw [hkeys, List.mem_cons, List.mem_singleton] at hk
  obtain rfl | rfl := hk
  · rw [hderived, List.mem_singleton] at hd
    subst hd
    decide
  · cases hd

theorem joined_base_iff {c : Collected} {level : Schema} :
    Joined c baseSchema level ↔ level = baseSchema := by
  rw [joined_iff]
  constructor
  · rintro (heq | ⟨arm, target, harm, -, -⟩)
    · exact heq
    · simp [baseSchema, Schema.kids] at harm
  · exact .inl

theorem joined_sample_iff {s level : Schema} (harm : ∀ arm, (Role.allOf, arm) ∈ s.kids ↔
    arm = refSchema baseRef) :
    Joined (collected (sampleDocs s)) s level ↔ level = s ∨ level = baseSchema := by
  have htarget : armTarget (collected (sampleDocs s)) (refSchema baseRef) = some baseSchema := rfl
  rw [joined_iff]
  refine or_congr_right ⟨?_, ?_⟩
  · rintro ⟨arm, target, hmem, htarget', hlevel⟩
    rw [harm] at hmem
    rw [hmem, htarget, Option.some.injEq] at htarget'
    rwa [← htarget', joined_base_iff] at hlevel
  · intro hlevel
    exact ⟨_, baseSchema, (harm _).2 rfl, htarget, joined_base_iff.2 hlevel⟩

theorem flattened_agree_repeated : ∃ merged p,
    Merges (collected (sampleDocs repeatedSchema)) repeatedSchema merged ∧
      emitJson (sampleDocs repeatedSchema) sampleRequest = .ok p ∧ Agree p merged := by
  have hroot : rootSchema? (sampleDocs repeatedSchema) sampleRequest = some repeatedSchema := rfl
  have hacyclic : AllOfAcyclic (collected (sampleDocs repeatedSchema)) := sample_acyclic rfl
  obtain ⟨merged, p, hmerged, hp, hiff⟩ := flattened_agree_iff hroot rfl hacyclic
  have hlevels : ∀ level, Joined (collected (sampleDocs repeatedSchema)) repeatedSchema level ↔
      level = repeatedSchema ∨ level = baseSchema := fun level =>
    joined_sample_iff fun arm => by simp [repeatedSchema, Schema.kids]
  have hread : rootLevels (sampleDocs repeatedSchema) sampleRequest repeatedSchema =
      [repeatedSchema] := rfl
  have hnames : propertyNames repeatedSchema = ["a"] ∧ propertyNames baseSchema = ["a"] :=
    ⟨rfl, rfl⟩
  have hrequired : repeatedSchema.head.required = ["a"] ∧ baseSchema.head.required = ["a"] :=
    ⟨rfl, rfl⟩
  refine ⟨merged, p, hmerged, hp, (hiff ?_).2 ?_⟩
  · rw [hmerged.unique ⟨2, rfl⟩]
    rfl
  · constructor
    · rw [hread]
      decide
    · intro n
      simp only [hread, hlevels]
      simp [hnames]
    · rw [hread]
      intro level hlevel n hn
      rw [List.mem_singleton] at hlevel
      subst hlevel
      simp only [hlevels]
      simp [hrequired]

/-- Every reference leads to a schema. -/
def Resolvable (docs : Documents) : Prop :=
  ∀ d ∈ docs.entries, ∀ e ∈ d.2.schemas, ∀ ref ∈ e.2.refs,
    (resolveRef docs ref d.1).schema.isSome = true

/-- The property of a referenced arm is not among the fields. -/
theorem flatteners_disagree :
    ((componentSchemas (sampleDocs derivedSchema)).map Prod.fst).Nodup ∧
      AllOfAcyclic (collected (sampleDocs derivedSchema)) ∧
      Resolvable (sampleDocs derivedSchema) ∧
      ¬∀ merged p, Merges (collected (sampleDocs derivedSchema)) derivedSchema merged →
        emitJson (sampleDocs derivedSchema) sampleRequest = .ok p →
        isObjectForm merged = true → Agree p merged := by
  have hnames : (componentSchemas (sampleDocs derivedSchema)).map Prod.fst =
      ["Base", "Derived"] := rfl
  refine ⟨by rw [hnames]; decide, sample_acyclic rfl, ?_, fun h => ?_⟩
  · intro d hd e he ref href
    have hdocs : (sampleDocs derivedSchema).entries = [(sampleFile,
        ⟨[(["components", "schemas", "Base"], baseSchema),
          (["components", "schemas", "Derived"], derivedSchema)]⟩)] := rfl
    rw [hdocs, List.mem_singleton] at hd
    subst hd
    obtain rfl | he := List.mem_cons.1 he
    · cases href
    · rw [List.mem_singleton] at he
      subst he
      have hrefs : derivedSchema.refs = [baseRef] := rfl
      rw [hrefs, List.mem_singleton] at href
      subst href
      rfl
  · have hagree := h _ _ ⟨2, rfl⟩ rfl rfl
    have hmem := (hagree.pairs "a" true).2 (by decide)
    exact absurd hmem (by decide)

end Nssf.Design.Flatten
