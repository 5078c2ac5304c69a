import Nssf.Base.Kahn
import Nssf.Design.EmitJson

/-! The emitter of the C structures merges the arms of a composition, referenced ones too, and
the required names of all of them. -/

namespace Nssf.Design.MergeAllOf

open Base EmitJson

abbrev Collected := Dict String Schema

def componentSchemas (docs : Documents) : List (String × Schema) :=
  docs.entries.flatMap fun d => d.2.schemas.filterMap fun e =>
    match e.1 with
    | ["components", "schemas", name] => some (name, e.2)
    | _ => none

/-- The schemas of the documents by name; of two of one name the first stays. -/
def collected (docs : Documents) : Collected := Dict.ofList (componentSchemas docs).reverse

/-- `ref.rsplit("/", 1)[-1]`. -/
def refName (ref : String) : String := lastSegment ref.toList

def addRequired (required : List String) (name : String) : List String :=
  if name ∈ required then required else required ++ [name]

/-- `setdefault` in the properties. -/
def addProperty (ks : List (Role × Schema)) (k : Role × Schema) : List (Role × Schema) :=
  if Schema.isProperty k.1 && !ks.any (fun j => j.1 == k.1) then ks ++ [k] else ks

def mergePart (merged sub : Schema) : Schema :=
  .mk { merged.head with required := sub.head.required.foldl addRequired merged.head.required }
    (sub.kids.foldl addProperty merged.kids)

/-- The schema without its arms, as an object. -/
def bare (h : SchemaHead) (ks : List (Role × Schema)) : Schema :=
  .mk { h with type := some "object", emptyProperties := true, emptyAllOf := false }
    (ks.filter fun k => k.1 ≠ .allOf)

mutual

/-- `follow` is the merged form of a referenced schema, if the schema is there. -/
def mergeWith (follow : String → Option (Option Schema)) : Schema → Option Schema
  | .mk h ks =>
    if (Schema.mk h ks).hasAllOf then
      (mergeArms follow ks).map fun parts => parts.foldl mergePart (bare h ks)
    else some (.mk h ks)

def mergeArms (follow : String → Option (Option Schema)) :
    List (Role × Schema) → Option (List Schema)
  | [] => some []
  | (.allOf, .mk h ks') :: ks =>
    match h.ref with
    | some ref => (follow ref).bind fun part => (mergeArms follow ks).map fun rest =>
        part.toList ++ rest
    | none => (mergeWith follow (.mk h ks')).bind fun part => (mergeArms follow ks).map fun rest =>
        part :: rest
  | _ :: ks => mergeArms follow ks

end

def mergeRef (c : Collected) : ℕ → String → Option (Option Schema)
  | 0, _ => none
  | fuel + 1, ref =>
    match c.get? (refName ref) with
    | none => some none
    | some target => (mergeWith (mergeRef c fuel) target).map some

/-- `Emitter._merge_allof`, with a bound on the nesting of references. -/
def mergeAllOf (c : Collected) (fuel : ℕ) (s : Schema) : Option Schema :=
  mergeWith (mergeRef c fuel) s

def Merges (c : Collected) (s merged : Schema) : Prop := ∃ fuel, mergeAllOf c fuel s = some merged

/-- `emit_schema` goes on to `_emit_object`. -/
def isObjectForm (merged : Schema) : Bool :=
  let h := merged.head
  let enumString := !(h.enum.getD []).isEmpty && h.type.getD "string" == "string"
  let variants := merged.kids.any fun k => k.1 == .oneOf || k.1 == .anyOf
  let array := h.type == some "array" || merged.kids.any fun k => k.1 == .items
  let scalar := ["integer", "number", "string", "boolean"].any fun t => h.type == some t
  !enumString && !variants && !array && !(scalar && !merged.hasProperties)

def propertyName? : Role → Option String
  | .property name => some name
  | _ => none

def namesOf (ks : List (Role × Schema)) : List String := ks.filterMap fun k => propertyName? k.1

def propertyNames (s : Schema) : List String := namesOf s.kids

/-- What an arm stands for: itself, or the schema it refers to. -/
def armTarget (c : Collected) (arm : Schema) : Option Schema :=
  match arm.head.ref with
  | none => some arm
  | some ref => c.get? (refName ref)

/-- The levels of a composition: the schema and those of its arms, wherever they are. -/
inductive Joined (c : Collected) : Schema → Schema → Prop where
  | own (s : Schema) : Joined c s s
  | arm {s arm target level : Schema} (harm : (.allOf, arm) ∈ s.kids)
      (htarget : armTarget c arm = some target) (h : Joined c target level) : Joined c s level

section merge

variable {c : Collected} {follow follow' : String → Option (Option Schema)}

/-- The merged form has the properties and the required names of all levels. -/
structure Sums (c : Collected) (s merged : Schema) : Prop where
  names : ∀ n, n ∈ propertyNames merged ↔ ∃ level, Joined c s level ∧ n ∈ propertyNames level
  required : ∀ n, n ∈ merged.head.required ↔ ∃ level, Joined c s level ∧ n ∈ level.head.required

theorem mem_addRequired (required : List String) (name n : String) :
    n ∈ addRequired required name ↔ n ∈ required ∨ n = name := by
  simp only [addRequired]
  split_ifs with hmem
  · exact ⟨.inl, fun h => h.elim id fun hn => hn ▸ hmem⟩
  · rw [List.mem_append, List.mem_singleton]

theorem mem_foldl_addRequired (names required : List String) (n : String) :
    n ∈ names.foldl addRequired required ↔ n ∈ required ∨ n ∈ names := by
  induction names generalizing required with
  | nil => simp only [List.foldl_nil, List.not_mem_nil, or_false]
  | cons name names ih =>
    rw [List.foldl_cons, ih, mem_addRequired, List.mem_cons, or_assoc]

theorem mem_namesOf {ks : List (Role × Schema)} {n : String} :
    n ∈ namesOf ks ↔ ∃ s, (Role.property n, s) ∈ ks := by
  rw [namesOf, List.mem_filterMap]
  constructor
  · rintro ⟨⟨role, s⟩, hk, hname⟩
    cases role with
    | property name =>
      cases hname
      exact ⟨s, hk⟩
    | items => cases hname
    | additional => cases hname
    | allOf => cases hname
    | anyOf => cases hname
    | oneOf => cases hname
  · rintro ⟨s, hk⟩
    exact ⟨_, hk, rfl⟩

theorem mem_addProperty (ks : List (Role × Schema)) (k : Role × Schema) (n : String) :
    n ∈ namesOf (addProperty ks k) ↔ n ∈ namesOf ks ∨ propertyName? k.1 = some n := by
  obtain ⟨role, s⟩ := k
  cases role with
  | property name =>
    simp only [addProperty, Schema.isProperty, Bool.true_and, propertyName?, Option.some.injEq]
    by_cases hmem : name ∈ namesOf ks
    · obtain ⟨s', hs'⟩ := mem_namesOf.1 hmem
      have hany : ks.any (fun j => j.1 == Role.property name) = true :=
        List.any_eq_true.2 ⟨_, hs', beq_self_eq_true _⟩
      rw [hany, Bool.not_true, if_neg Bool.false_ne_true]
      exact ⟨.inl, fun h => h.elim id fun hn => hn ▸ hmem⟩
    · have hany : ks.any (fun j => j.1 == Role.property name) = false := by
        rw [List.any_eq_false]
        rintro ⟨role', s'⟩ hk heq
        have hrole : role' = .property name := eq_of_beq heq
        exact hmem (mem_namesOf.2 ⟨s', hrole ▸ hk⟩)
      rw [hany, Bool.not_false, if_pos rfl, namesOf, List.filterMap_append, List.mem_append]
      exact or_congr_right (by simp [propertyName?, eq_comm])
  | items => simp [addProperty, Schema.isProperty, propertyName?]
  | additional => simp [addProperty, Schema.isProperty, propertyName?]
  | allOf => simp [addProperty, Schema.isProperty, propertyName?]
  | anyOf => simp [addProperty, Schema.isProperty, propertyName?]
  | oneOf => simp [addProperty, Schema.isProperty, propertyName?]

theorem mem_foldl_addProperty (added ks : List (Role × Schema)) (n : String) :
    n ∈ namesOf (added.foldl addProperty ks) ↔ n ∈ namesOf ks ∨ n ∈ namesOf added := by
  induction added generalizing ks with
  | nil => simp [namesOf]
  | cons k added ih =>
    rw [List.foldl_cons, ih, mem_addProperty, or_assoc]
    refine or_congr_right ?_
    simp only [namesOf, List.mem_filterMap, List.mem_cons, exists_eq_or_imp]

theorem mem_mergePart_names (merged sub : Schema) (n : String) :
    n ∈ propertyNames (mergePart merged sub) ↔
      n ∈ propertyNames merged ∨ n ∈ propertyNames sub :=
  mem_foldl_addProperty sub.kids merged.kids n

theorem mem_mergePart_required (merged sub : Schema) (n : String) :
    n ∈ (mergePart merged sub).head.required ↔
      n ∈ merged.head.required ∨ n ∈ sub.head.required :=
  mem_foldl_addRequired sub.head.required merged.head.required n

theorem mem_foldl_mergePart_names (parts : List Schema) (merged : Schema) (n : String) :
    n ∈ propertyNames (parts.foldl mergePart merged) ↔
      n ∈ propertyNames merged ∨ ∃ part ∈ parts, n ∈ propertyNames part := by
  induction parts generalizing merged with
  | nil => simp only [List.foldl_nil, List.not_mem_nil, false_and, exists_false, or_false]
  | cons part parts ih =>
    rw [List.foldl_cons, ih, mem_mergePart_names, or_assoc]
    simp only [List.mem_cons, exists_eq_or_imp]

theorem mem_foldl_mergePart_required (parts : List Schema) (merged : Schema) (n : String) :
    n ∈ (parts.foldl mergePart merged).head.required ↔
      n ∈ merged.head.required ∨ ∃ part ∈ parts, n ∈ part.head.required := by
  induction parts generalizing merged with
  | nil => simp only [List.foldl_nil, List.not_mem_nil, false_and, exists_false, or_false]
  | cons part parts ih =>
    rw [List.foldl_cons, ih, mem_mergePart_required, or_assoc]
    simp only [List.mem_cons, exists_eq_or_imp]

theorem mem_bare_names (h : SchemaHead) (ks : List (Role × Schema)) (n : String) :
    n ∈ propertyNames (bare h ks) ↔ n ∈ propertyNames (.mk h ks) := by
  change n ∈ namesOf (ks.filter fun k => k.1 ≠ .allOf) ↔ n ∈ namesOf ks
  rw [mem_namesOf, mem_namesOf]
  refine exists_congr fun s => ?_
  rw [List.mem_filter]
  exact ⟨And.left, fun hk => ⟨hk, by simp⟩⟩

theorem joined_iff {s level : Schema} : Joined c s level ↔ level = s ∨
    ∃ arm target, (.allOf, arm) ∈ s.kids ∧ armTarget c arm = some target ∧
      Joined c target level := by
  constructor
  · intro h
    cases h with
    | own => exact .inl rfl
    | arm harm htarget h => exact .inr ⟨_, _, harm, htarget, h⟩
  · rintro (rfl | ⟨arm, target, harm, htarget, h⟩)
    · exact .own level
    · exact .arm harm htarget h

/-- The merged parts of the arms, each with the arm that it comes from. -/
structure Parts (c : Collected) (ks : List (Role × Schema)) (parts : List Schema) : Prop where
  sound : ∀ part ∈ parts, ∃ arm target, (.allOf, arm) ∈ ks ∧ armTarget c arm = some target ∧
    Sums c target part
  complete : ∀ arm target, (.allOf, arm) ∈ ks → armTarget c arm = some target →
    ∃ part ∈ parts, Sums c target part

theorem Parts.levels {s : Schema} {parts : List Schema} (hparts : Parts c s.kids parts)
    {has : Schema → Prop}
    (hsums : ∀ s merged, Sums c s merged → (has merged ↔ ∃ level, Joined c s level ∧ has level)) :
    (has s ∨ ∃ part ∈ parts, has part) ↔ ∃ level, Joined c s level ∧ has level := by
  constructor
  · rintro (hown | ⟨part, hpart, hn⟩)
    · exact ⟨s, .own s, hown⟩
    · obtain ⟨arm, target, harm, htarget, hsum⟩ := hparts.sound part hpart
      obtain ⟨level, hlevel, hn⟩ := (hsums target part hsum).1 hn
      exact ⟨level, .arm harm htarget hlevel, hn⟩
  · rintro ⟨level, hlevel, hn⟩
    obtain rfl | ⟨arm, target, harm, htarget, hlevel⟩ := joined_iff.1 hlevel
    · exact .inl hn
    · obtain ⟨part, hpart, hsum⟩ := hparts.complete arm target harm htarget
      exact .inr ⟨part, hpart, (hsums target part hsum).2 ⟨level, hlevel, hn⟩⟩

theorem sums_of_parts {h : SchemaHead} {ks : List (Role × Schema)} {parts : List Schema}
    (hparts : Parts c ks parts) :
    Sums c (.mk h ks) (parts.foldl mergePart (bare h ks)) := by
  have hparts : Parts c (Schema.mk h ks).kids parts := hparts
  constructor
  · intro n
    rw [mem_foldl_mergePart_names, mem_bare_names]
    exact hparts.levels fun _ _ hsum => hsum.names n
  · intro n
    rw [mem_foldl_mergePart_required]
    exact hparts.levels fun _ _ hsum => hsum.required n

theorem sums_self {h : SchemaHead} {ks : List (Role × Schema)}
    (hno : ¬(Schema.mk h ks).hasAllOf = true) : Sums c (.mk h ks) (.mk h ks) := by
  have honly : ∀ level, Joined c (.mk h ks) level → level = .mk h ks := by
    intro level hlevel
    obtain heq | ⟨arm, target, harm, -, -⟩ := joined_iff.1 hlevel
    · exact heq
    · have hany : ks.any (fun k => k.1 == .allOf) = true :=
        List.any_eq_true.2 ⟨_, harm, beq_self_eq_true _⟩
      exact absurd (by rw [Schema.hasAllOf]; exact Bool.or_eq_true_iff.2 (.inr hany)) hno
  constructor
  · refine fun n => ⟨fun hn => ⟨_, .own _, hn⟩, ?_⟩
    rintro ⟨level, hl, hn⟩
    rwa [← honly level hl]
  · refine fun n => ⟨fun hn => ⟨_, .own _, hn⟩, ?_⟩
    rintro ⟨level, hl, hn⟩
    rwa [← honly level hl]

/-- What `follow` says of a reference is about the schema that the reference names. -/
structure Follows (c : Collected) (follow : String → Option (Option Schema)) : Prop where
  gone : ∀ ref, follow ref = some none → c.get? (refName ref) = none
  there : ∀ ref part, follow ref = some (some part) →
    ∃ target, c.get? (refName ref) = some target ∧ Sums c target part

theorem Parts.skip {ks : List (Role × Schema)} {parts : List Schema} {k : Role × Schema}
    (hparts : Parts c ks parts)
    (hno : ∀ arm target, k = (.allOf, arm) → armTarget c arm ≠ some target) :
    Parts c (k :: ks) parts := by
  constructor
  · intro part hpart
    obtain ⟨arm, target, harm, htarget, hsum⟩ := hparts.sound part hpart
    exact ⟨arm, target, .tail _ harm, htarget, hsum⟩
  · intro arm target harm htarget
    obtain heq | harm := List.mem_cons.1 harm
    · exact absurd htarget (hno arm target heq.symm)
    · exact hparts.complete arm target harm htarget

theorem Parts.cons {ks : List (Role × Schema)} {parts : List Schema} {arm target part : Schema}
    (hparts : Parts c ks parts) (htarget : armTarget c arm = some target)
    (hsum : Sums c target part) : Parts c ((.allOf, arm) :: ks) (part :: parts) := by
  constructor
  · intro part' hpart'
    obtain rfl | hpart' := List.mem_cons.1 hpart'
    · exact ⟨arm, target, .head _, htarget, hsum⟩
    · obtain ⟨arm', target', harm, htarget', hsum'⟩ := hparts.sound part' hpart'
      exact ⟨arm', target', .tail _ harm, htarget', hsum'⟩
  · intro arm' target' harm htarget'
    obtain heq | harm := List.mem_cons.1 harm
    · cases heq
      rw [htarget, Option.some.injEq] at htarget'
      exact ⟨part, .head _, htarget' ▸ hsum⟩
    · obtain ⟨part', hpart', hsum'⟩ := hparts.complete arm' target' harm htarget'
      exact ⟨part', .tail _ hpart', hsum'⟩

mutual

theorem mergeWith_sums (hf : Follows c follow) : ∀ s merged,
    mergeWith follow s = some merged → Sums c s merged
  | .mk h ks, merged, hm => by
    rw [mergeWith] at hm
    split_ifs at hm with hall
    · obtain ⟨parts, hparts, rfl⟩ := Option.map_eq_some_iff.1 hm
      exact sums_of_parts (mergeArms_parts hf ks parts hparts)
    · cases hm
      exact sums_self hall

theorem mergeArms_parts (hf : Follows c follow) : ∀ ks parts,
    mergeArms follow ks = some parts → Parts c ks parts
  | [], parts, hm => by
    rw [mergeArms] at hm
    cases hm
    exact ⟨fun _ hpart => absurd hpart List.not_mem_nil,
      fun _ _ harm => absurd harm List.not_mem_nil⟩
  | (.allOf, .mk h ks') :: ks, parts, hm => by
    rw [mergeArms] at hm
    cases href : h.ref with
    | none =>
      rw [href] at hm
      obtain ⟨part, hpart, hm⟩ := Option.bind_eq_some_iff.1 hm
      obtain ⟨rest, hrest, rfl⟩ := Option.map_eq_some_iff.1 hm
      have htarget : armTarget c (.mk h ks') = some (.mk h ks') := by
        simp only [armTarget, Schema.head, href]
      exact (mergeArms_parts hf ks rest hrest).cons htarget
        (mergeWith_sums hf (.mk h ks') part hpart)
    | some ref =>
      rw [href] at hm
      obtain ⟨part, hpart, hm⟩ := Option.bind_eq_some_iff.1 hm
      obtain ⟨rest, hrest, rfl⟩ := Option.map_eq_some_iff.1 hm
      have harm : armTarget c (.mk h ks') = c.get? (refName ref) := by
        simp only [armTarget, Schema.head, href]
      cases part with
      | none =>
        refine (mergeArms_parts hf ks rest hrest).skip fun arm target heq => ?_
        cases heq
        rw [harm, hf.gone ref hpart]
        exact Option.some_ne_none target |>.symm
      | some part =>
        obtain ⟨target, htarget, hsum⟩ := hf.there ref part hpart
        exact (mergeArms_parts hf ks rest hrest).cons (harm.trans htarget) hsum
  | (.property _, _) :: ks, parts, hm => (mergeArms_parts hf ks parts hm).skip (by simp)
  | (.items, _) :: ks, parts, hm => (mergeArms_parts hf ks parts hm).skip (by simp)
  | (.additional, _) :: ks, parts, hm => (mergeArms_parts hf ks parts hm).skip (by simp)
  | (.anyOf, _) :: ks, parts, hm => (mergeArms_parts hf ks parts hm).skip (by simp)
  | (.oneOf, _) :: ks, parts, hm => (mergeArms_parts hf ks parts hm).skip (by simp)

end

theorem follows_mergeRef (c : Collected) (fuel : ℕ) : Follows c (mergeRef c fuel) := by
  induction fuel with
  | zero =>
    constructor
    · intro ref h
      cases h
    · intro ref part h
      cases h
  | succ fuel ih =>
    constructor
    · intro ref h
      rw [mergeRef] at h
      cases hget : c.get? (refName ref) with
      | none => rfl
      | some target =>
        rw [hget] at h
        obtain ⟨merged, -, h⟩ := Option.map_eq_some_iff.1 h
        cases h
    · intro ref part h
      rw [mergeRef] at h
      cases hget : c.get? (refName ref) with
      | none =>
        rw [hget] at h
        cases h
      | some target =>
        rw [hget] at h
        obtain ⟨merged, hmerged, h⟩ := Option.map_eq_some_iff.1 h
        cases h
        exact ⟨target, rfl, mergeWith_sums ih target _ hmerged⟩

theorem Merges.sums {s merged : Schema} (h : Merges c s merged) : Sums c s merged := by
  obtain ⟨fuel, h⟩ := h
  exact mergeWith_sums (follows_mergeRef c fuel) s merged h

mutual

theorem mergeWith_mono (hle : ∀ ref part, follow ref = some part → follow' ref = some part) :
    ∀ s merged, mergeWith follow s = some merged → mergeWith follow' s = some merged
  | .mk h ks, merged, hm => by
    rw [mergeWith] at hm ⊢
    split_ifs at hm ⊢
    · obtain ⟨parts, hparts, rfl⟩ := Option.map_eq_some_iff.1 hm
      rw [mergeArms_mono hle ks parts hparts]
      rfl
    · exact hm

theorem mergeArms_mono (hle : ∀ ref part, follow ref = some part → follow' ref = some part) :
    ∀ ks parts, mergeArms follow ks = some parts → mergeArms follow' ks = some parts
  | [], parts, hm => hm
  | (.allOf, .mk h ks') :: ks, parts, hm => by
    rw [mergeArms] at hm ⊢
    cases href : h.ref with
    | none =>
      rw [href] at hm
      obtain ⟨part, hpart, hm⟩ := Option.bind_eq_some_iff.1 hm
      obtain ⟨rest, hrest, rfl⟩ := Option.map_eq_some_iff.1 hm
      simp only [mergeWith_mono hle (.mk h ks') part hpart, mergeArms_mono hle ks rest hrest,
        Option.bind_some, Option.map_some]
    | some ref =>
      rw [href] at hm
      obtain ⟨part, hpart, hm⟩ := Option.bind_eq_some_iff.1 hm
      obtain ⟨rest, hrest, rfl⟩ := Option.map_eq_some_iff.1 hm
      simp only [hle ref part hpart, mergeArms_mono hle ks rest hrest, Option.bind_some,
        Option.map_some]
  | (.property _, _) :: ks, parts, hm => mergeArms_mono hle ks parts hm
  | (.items, _) :: ks, parts, hm => mergeArms_mono hle ks parts hm
  | (.additional, _) :: ks, parts, hm => mergeArms_mono hle ks parts hm
  | (.anyOf, _) :: ks, parts, hm => mergeArms_mono hle ks parts hm
  | (.oneOf, _) :: ks, parts, hm => mergeArms_mono hle ks parts hm

end

theorem mergeRef_succ (fuel : ℕ) (ref : String) (part : Option Schema)
    (h : mergeRef c fuel ref = some part) : mergeRef c (fuel + 1) ref = some part := by
  induction fuel generalizing ref part with
  | zero => cases h
  | succ fuel ih =>
    rw [mergeRef] at h ⊢
    cases hget : c.get? (refName ref) with
    | none =>
      rw [hget] at h
      exact h
    | some target =>
      rw [hget] at h
      obtain ⟨merged, hmerged, rfl⟩ := Option.map_eq_some_iff.1 h
      simp only [mergeWith_mono ih target merged hmerged, Option.map_some]

theorem mergeAllOf_le {fuel fuel' : ℕ} (hle : fuel ≤ fuel') {s merged : Schema}
    (h : mergeAllOf c fuel s = some merged) : mergeAllOf c fuel' s = some merged := by
  induction hle with
  | refl => exact h
  | step _ ih => exact mergeWith_mono (mergeRef_succ _) s merged ih

/-- The bound on the nesting does not show in the merged form. -/
theorem Merges.unique {s m m' : Schema} (h : Merges c s m) (h' : Merges c s m') : m = m' := by
  obtain ⟨fuel, h⟩ := h
  obtain ⟨fuel', h'⟩ := h'
  have hmax := mergeAllOf_le (Nat.le_max_left fuel fuel') h
  rw [mergeAllOf_le (Nat.le_max_right fuel fuel') h', Option.some.injEq] at hmax
  exact hmax.symm

end merge

section acyclic

variable {c : Collected}

mutual

/-- The references of the arms, at any depth. -/
def armRefs : Schema → List String
  | .mk _ ks => armRefsIn ks

def armRefsIn : List (Role × Schema) → List String
  | [] => []
  | (.allOf, .mk h ks') :: ks =>
    (match h.ref with
      | some ref => [ref]
      | none => armRefs (.mk h ks')) ++ armRefsIn ks
  | _ :: ks => armRefsIn ks

end

/-- The schemas that the arms of a schema refer to, among those that are there. -/
def armDeps (c : Collected) (name : String) : List String :=
  (((c.get? name).elim [] armRefs).map refName).filter fun d => d ∈ c.keys

def AllOfAcyclic (c : Collected) : Prop := Kahn.Acyclic c.keys (armDeps c)

mutual

theorem mergeWith_isSome {follow : String → Option (Option Schema)} : ∀ s,
    (∀ ref ∈ armRefs s, (follow ref).isSome) → (mergeWith follow s).isSome
  | .mk h ks, hrefs => by
    rw [mergeWith]
    split_ifs
    · rw [Option.isSome_map]
      exact mergeArms_isSome ks hrefs
    · rfl

theorem mergeArms_isSome {follow : String → Option (Option Schema)} : ∀ ks,
    (∀ ref ∈ armRefsIn ks, (follow ref).isSome) → (mergeArms follow ks).isSome
  | [], _ => rfl
  | (.allOf, .mk h ks') :: ks, hrefs => by
    rw [mergeArms]
    rw [armRefsIn] at hrefs
    have hrest := mergeArms_isSome ks fun ref href =>
      hrefs ref (List.mem_append_right _ href)
    obtain ⟨rest, hrest⟩ := Option.isSome_iff_exists.1 hrest
    cases href : h.ref with
    | none =>
      rw [href] at hrefs
      have hpart := mergeWith_isSome (.mk h ks') fun ref href =>
        hrefs ref (List.mem_append_left _ href)
      obtain ⟨part, hpart⟩ := Option.isSome_iff_exists.1 hpart
      simp only [hpart, hrest, Option.bind_some, Option.map_some, Option.isSome_some]
    | some ref =>
      rw [href] at hrefs
      have hpart := hrefs ref (List.mem_append_left _ (List.mem_singleton_self ref))
      obtain ⟨part, hpart⟩ := Option.isSome_iff_exists.1 hpart
      simp only [hpart, hrest, Option.bind_some, Option.map_some, Option.isSome_some]
  | (.property _, _) :: ks, hrefs => mergeArms_isSome ks hrefs
  | (.items, _) :: ks, hrefs => mergeArms_isSome ks hrefs
  | (.additional, _) :: ks, hrefs => mergeArms_isSome ks hrefs
  | (.anyOf, _) :: ks, hrefs => mergeArms_isSome ks hrefs
  | (.oneOf, _) :: ks, hrefs => mergeArms_isSome ks hrefs

end

theorem mergeRef_le {fuel fuel' : ℕ} (hle : fuel ≤ fuel') {ref : String}
    (h : (mergeRef c fuel ref).isSome) : (mergeRef c fuel' ref).isSome := by
  induction hle with
  | refl => exact h
  | step _ ih =>
    obtain ⟨part, hpart⟩ := Option.isSome_iff_exists.1 ih
    rw [mergeRef_succ _ ref part hpart]
    rfl

/-- One bound for finitely many references. -/
theorem exists_fuel (refs : List String)
    (h : ∀ ref ∈ refs, ∃ fuel, (mergeRef c fuel ref).isSome) :
    ∃ fuel, ∀ ref ∈ refs, (mergeRef c fuel ref).isSome := by
  induction refs with
  | nil => exact ⟨0, fun _ href => absurd href List.not_mem_nil⟩
  | cons ref refs ih =>
    obtain ⟨fuel, hfuel⟩ := h ref (.head _)
    obtain ⟨fuel', hfuel'⟩ := ih fun ref' href' => h ref' (.tail _ href')
    refine ⟨max fuel fuel', fun ref' href' => ?_⟩
    obtain rfl | href' := List.mem_cons.1 href'
    · exact mergeRef_le (Nat.le_max_left fuel fuel') hfuel
    · exact mergeRef_le (Nat.le_max_right fuel fuel') (hfuel' ref' href')

theorem mergeRef_of_gone {ref : String} (h : c.get? (refName ref) = none) :
    (mergeRef c 1 ref).isSome := by
  rw [mergeRef, h]
  rfl

theorem mem_keys_of_get? {name : String} {s : Schema} (h : c.get? name = some s) :
    name ∈ c.keys := List.mem_map.2 ⟨(name, s), c.get?_eq_some_iff.1 h, rfl⟩

theorem mergeRef_terminates (hacyclic : AllOfAcyclic c) (ref : String) :
    ∃ fuel, (mergeRef c fuel ref).isSome := by
  have hknown : ∀ name ∈ c.keys, ∀ d ∈ armDeps c name, d ∈ c.keys := fun name _ d hd =>
    of_decide_eq_true (List.mem_filter.1 hd).2
  have hwf := Kahn.wellFounded_of_acyclic hknown hacyclic
  generalize hname : refName ref = name
  induction name using hwf.induction generalizing ref with
  | h name ih =>
    subst hname
    cases hget : c.get? (refName ref) with
    | none => exact ⟨1, mergeRef_of_gone hget⟩
    | some target =>
      have hkey := mem_keys_of_get? hget
      obtain ⟨fuel, hfuel⟩ := exists_fuel (c := c) (armRefs target) fun ref' href' => by
        cases hget' : c.get? (refName ref') with
        | none => exact ⟨1, mergeRef_of_gone hget'⟩
        | some target' =>
          have hdep : refName ref' ∈ armDeps c (refName ref) := by
            rw [armDeps, hget, List.mem_filter]
            exact ⟨List.mem_map_of_mem href', decide_eq_true (mem_keys_of_get? hget')⟩
          exact ih (refName ref') ⟨hkey, hdep⟩ ref' rfl
      refine ⟨fuel + 1, ?_⟩
      rw [mergeRef, hget, Option.isSome_map]
      exact mergeWith_isSome target hfuel

theorem exists_merges (hacyclic : AllOfAcyclic c) (s : Schema) : ∃ merged, Merges c s merged := by
  obtain ⟨fuel, hfuel⟩ := exists_fuel (c := c) (armRefs s) fun ref _ =>
    mergeRef_terminates hacyclic ref
  obtain ⟨merged, hmerged⟩ := Option.isSome_iff_exists.1 (mergeWith_isSome s hfuel)
  exact ⟨merged, fuel, hmerged⟩

end acyclic

end Nssf.Design.MergeAllOf
