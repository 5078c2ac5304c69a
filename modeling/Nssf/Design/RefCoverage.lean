import Mathlib.Data.List.Dedup
import Nssf.Design.EmitJson

/-! Which references the machine form of a schema accounts for. The walk opens a resolved
reference unless it is open already, so it comes to what lies on a way that opens no schema
twice, and it looks only at some of the places where a reference can stand. -/

namespace Nssf.Design.EmitJson

open Base

section subset

variable {whole : Bool}

mutual

theorem visible_subset : ∀ s : Schema, ∀ r ∈ visible whole s, r ∈ s.refs
  | .mk h ks => by
    intro r hr
    simp only [visible] at hr
    simp only [Schema.refs, List.mem_append]
    cases hh : h.ref with
    | some ref =>
      rw [hh] at hr
      exact Or.inl (by simpa using hr)
    | none =>
      rw [hh] at hr
      simp only at hr
      split_ifs at hr
      · exact Or.inr (visibleItems_subset ks r hr)
      · rcases List.mem_append.1 hr with hr | hr
        · rcases List.mem_append.1 hr with hr | hr
          · exact Or.inr (visibleProperties_subset ks r hr)
          · exact Or.inr (visibleArms_subset ks r hr)
        · exact Or.inr (visibleAdditional_subset ks r hr)
      · cases hr

theorem visibleObject_subset : ∀ s : Schema, ∀ r ∈ visibleObject whole s, r ∈ s.refs
  | .mk h ks => by
    intro r hr
    refine List.mem_append_right _ ?_
    rcases List.mem_append.1 hr with hr | hr
    · rcases List.mem_append.1 hr with hr | hr
      · exact visibleProperties_subset ks r hr
      · exact visibleArms_subset ks r hr
    · exact visibleAdditional_subset ks r hr

theorem visibleFields_subset : ∀ s : Schema, ∀ r ∈ visibleFields whole s, r ∈ s.refs
  | .mk h ks => by
    intro r hr
    refine List.mem_append_right _ ?_
    rcases List.mem_append.1 hr with hr | hr
    · exact visibleProperties_subset ks r hr
    · exact visibleArms_subset ks r hr

theorem visibleProperties_subset : ∀ ks : List (Role × Schema),
    ∀ r ∈ visibleProperties whole ks, r ∈ Schema.refsIn ks
  | [] => fun _ hr => hr
  | (.property _, s) :: ks => by
    intro r hr
    rcases List.mem_append.1 hr with hr | hr
    · exact List.mem_append_left _ (visible_subset s r hr)
    · exact List.mem_append_right _ (visibleProperties_subset ks r hr)
  | (.items, _) :: ks => fun r hr => List.mem_append_right _ (visibleProperties_subset ks r hr)
  | (.additional, _) :: ks => fun r hr => List.mem_append_right _ (visibleProperties_subset ks r hr)
  | (.allOf, _) :: ks => fun r hr => List.mem_append_right _ (visibleProperties_subset ks r hr)
  | (.anyOf, _) :: ks => fun r hr => List.mem_append_right _ (visibleProperties_subset ks r hr)
  | (.oneOf, _) :: ks => fun r hr => List.mem_append_right _ (visibleProperties_subset ks r hr)

theorem visibleArms_subset : ∀ ks : List (Role × Schema),
    ∀ r ∈ visibleArms whole ks, r ∈ Schema.refsIn ks
  | [] => fun _ hr => hr
  | (.allOf, s) :: ks => by
    intro r hr
    rcases List.mem_append.1 hr with hr | hr
    · refine List.mem_append_left _ ?_
      split_ifs at hr
      · exact visibleObject_subset s r hr
      · exact visibleFields_subset s r hr
      · cases hr
    · exact List.mem_append_right _ (visibleArms_subset ks r hr)
  | (.property _, _) :: ks => fun r hr => List.mem_append_right _ (visibleArms_subset ks r hr)
  | (.items, _) :: ks => fun r hr => List.mem_append_right _ (visibleArms_subset ks r hr)
  | (.additional, _) :: ks => fun r hr => List.mem_append_right _ (visibleArms_subset ks r hr)
  | (.anyOf, _) :: ks => fun r hr => List.mem_append_right _ (visibleArms_subset ks r hr)
  | (.oneOf, _) :: ks => fun r hr => List.mem_append_right _ (visibleArms_subset ks r hr)

theorem visibleItems_subset : ∀ ks : List (Role × Schema),
    ∀ r ∈ visibleItems whole ks, r ∈ Schema.refsIn ks
  | [] => fun _ hr => hr
  | (.items, s) :: _ => fun r hr => List.mem_append_left _ (visible_subset s r hr)
  | (.property _, _) :: ks => fun r hr => List.mem_append_right _ (visibleItems_subset ks r hr)
  | (.additional, _) :: ks => fun r hr => List.mem_append_right _ (visibleItems_subset ks r hr)
  | (.allOf, _) :: ks => fun r hr => List.mem_append_right _ (visibleItems_subset ks r hr)
  | (.anyOf, _) :: ks => fun r hr => List.mem_append_right _ (visibleItems_subset ks r hr)
  | (.oneOf, _) :: ks => fun r hr => List.mem_append_right _ (visibleItems_subset ks r hr)

theorem visibleAdditional_subset : ∀ ks : List (Role × Schema),
    ∀ r ∈ visibleAdditional whole ks, r ∈ Schema.refsIn ks
  | [] => fun _ hr => hr
  | (.additional, s) :: _ => fun r hr => List.mem_append_left _ (visible_subset s r hr)
  | (.property _, _) :: ks => fun r hr => List.mem_append_right _ (visibleAdditional_subset ks r hr)
  | (.items, _) :: ks => fun r hr => List.mem_append_right _ (visibleAdditional_subset ks r hr)
  | (.allOf, _) :: ks => fun r hr => List.mem_append_right _ (visibleAdditional_subset ks r hr)
  | (.anyOf, _) :: ks => fun r hr => List.mem_append_right _ (visibleAdditional_subset ks r hr)
  | (.oneOf, _) :: ks => fun r hr => List.mem_append_right _ (visibleAdditional_subset ks r hr)

end

theorem visibleRoot_subset (s : Schema) : ∀ r ∈ visibleRoot whole s, r ∈ s.refs := by
  intro r hr
  simp only [visibleRoot] at hr
  split_ifs at hr
  · exact visibleObject_subset s r hr
  · exact visible_subset s r hr
  · cases hr

end subset

section walk

variable (docs : Documents) (index : String → Option String)

/-- With the schemas in `opened` open, the walk that looks at `refs` in a file comes to another
reference in another file. -/
inductive Comes (vis : Schema → List String) :
    List SchemaKey → DocFile → List String → DocFile → String → Prop
  | here {opened : List SchemaKey} {file : DocFile} {refs : List String} {r : String}
      (hr : r ∈ refs) : Comes vis opened file refs file r
  | through {opened : List SchemaKey} {file file' : DocFile} {refs : List String}
      {r r' : String} {target : Schema} (hr : r ∈ refs)
      (hindex : index (resolveRef docs r file).schemaName = none)
      (hschema : (resolveRef docs r file).schema = some target)
      (hnew : keyOf docs file r ∉ opened)
      (hrest : Comes vis (keyOf docs file r :: opened) (keyOf docs file r).1 (vis target)
        file' r') : Comes vis opened file refs file' r'

/-- What a reference comes to that is not opened. -/
def closed (file : DocFile) (ref : String) : Emitted :=
  let rr := resolveRef docs ref file
  match index rr.schemaName with
  | some topic => (.topic topic, [])
  | none =>
    match rr.schema with
    | none => (.unresolved ref, [classifyUnresolvedRef ref])
    | some _ => (.cycle rr.schemaName, [])

theorem schemaAt_known {file : DocFile} {pointer : List Char} {target : Schema}
    (h : docs.schemaAt file pointer = some target) :
    file ∈ docs.keys ∧ ∀ r ∈ target.refs, r ∈ allRefs docs := by
  obtain ⟨d, hd, hat⟩ := Option.bind_eq_some_iff.1 h
  have hentry := (docs.get?_eq_some_iff).1 hd
  obtain ⟨e, hfind, rfl⟩ := Option.map_eq_some_iff.1 hat
  have hmem : e ∈ d.schemas := List.mem_of_find?_eq_some hfind
  refine ⟨List.mem_map.2 ⟨(file, d), hentry, rfl⟩, fun r hr => ?_⟩
  exact List.mem_flatMap.2 ⟨(file, d), hentry, List.mem_flatMap.2 ⟨e, hmem, hr⟩⟩

theorem resolved_known {ref : String} {file : DocFile} {target : Schema}
    (h : (resolveRef docs ref file).schema = some target) :
    (resolveRef docs ref file).file.getD file ∈ docs.keys ∧
      ∀ r ∈ target.refs, r ∈ allRefs docs := by
  simp only [resolveRef] at h ⊢
  split at h
  · exact schemaAt_known docs h
  · split_ifs at h ⊢
    · exact schemaAt_known docs h
    · split at h
      · split_ifs at h ⊢
        exact schemaAt_known docs h
      · cases h

theorem keyOf_mem_allKeys {file : DocFile} {ref : String} (hfile : file ∈ docs.keys)
    (href : ref ∈ allRefs docs) : keyOf docs file ref ∈ allKeys docs :=
  List.mem_flatMap.2 ⟨file, hfile, List.mem_map.2 ⟨ref, href, rfl⟩⟩

/-- The schemas that can still be opened. -/
def unopened (opened : List SchemaKey) : List SchemaKey :=
  (allKeys docs).filter fun key => !opened.contains key

theorem unopened_cons_lt {opened : List SchemaKey} {key : SchemaKey} (hkey : key ∈ allKeys docs)
    (hnew : key ∉ opened) :
    (unopened docs (key :: opened)).length < (unopened docs opened).length := by
  have hsplit : unopened docs (key :: opened) =
      (unopened docs opened).filter fun k => k ≠ key := by
    rw [unopened, unopened, List.filter_filter]
    refine List.filter_congr fun k _ => ?_
    by_cases hk : k = key
    · simp [hk]
    · simp [hk]
  rw [hsplit]
  refine List.length_filter_lt_length_iff_exists.2 ⟨key, ?_, by simp⟩
  exact List.mem_filter.2 ⟨hkey, by simpa using hnew⟩

variable {docs index} {β : Type} {part : Emitted → List β} {vis : Schema → List String}

/-- The walk adds just what the references it comes to add when they are not opened. -/
theorem walk_iff
    (hpart : ∀ follow inlinedFrom s, part (schemaNode follow inlinedFrom s) =
      (vis s).flatMap fun r => part (follow r))
    (hcycle : ∀ name, part (.cycle name, []) = []) (hvis : ∀ s, ∀ r ∈ vis s, r ∈ s.refs)
    (fuel : ℕ) {opened : List SchemaKey} {file : DocFile} {refs : List String}
    (hfuel : (unopened docs opened).length < fuel) (hfile : file ∈ docs.keys)
    (hrefs : ∀ r ∈ refs, r ∈ allRefs docs) (b : β) :
    b ∈ (refs.flatMap fun r => part (deref docs index fuel opened file r)) ↔
      ∃ file' r, Comes docs index vis opened file refs file' r ∧
        b ∈ part (closed docs index file' r) := by
  induction fuel generalizing opened file refs with
  | zero => omega
  | succ fuel ih =>
    constructor
    · intro hb
      obtain ⟨r, hr, hb⟩ := List.mem_flatMap.1 hb
      simp only [deref] at hb
      cases hindex : index (resolveRef docs r file).schemaName with
      | some topic =>
        rw [hindex] at hb
        refine ⟨file, r, .here hr, ?_⟩
        simp only [closed, hindex]
        exact hb
      | none =>
        rw [hindex] at hb
        cases hschema : (resolveRef docs r file).schema with
        | none =>
          rw [hschema] at hb
          refine ⟨file, r, .here hr, ?_⟩
          simp only [closed, hindex, hschema]
          exact hb
        | some target =>
          rw [hschema] at hb
          simp only at hb
          split_ifs at hb with hopen
          · rw [hcycle] at hb
            cases hb
          · rw [hpart] at hb
            have hkey := keyOf_mem_allKeys docs hfile (hrefs r hr)
            have hlt := unopened_cons_lt docs hkey hopen
            obtain ⟨hknown, htarget⟩ := resolved_known docs hschema
            obtain ⟨file', r', hcomes, hb'⟩ :=
              (ih (by omega) hknown fun x hx => htarget x (hvis target x hx)).1 hb
            exact ⟨file', r', .through hr hindex hschema hopen hcomes, hb'⟩
    · rintro ⟨file', r', hcomes, hb⟩
      cases hcomes with
      | here hr =>
        refine List.mem_flatMap.2 ⟨r', hr, ?_⟩
        simp only [closed] at hb
        simp only [deref]
        cases hindex : index (resolveRef docs r' file).schemaName with
        | some topic =>
          rw [hindex] at hb
          exact hb
        | none =>
          rw [hindex] at hb
          cases hschema : (resolveRef docs r' file).schema with
          | none =>
            rw [hschema] at hb
            exact hb
          | some target =>
            rw [hschema] at hb
            simp only [hcycle] at hb
            cases hb
      | through hr hindex hschema hnew hrest =>
        rename_i r target
        refine List.mem_flatMap.2 ⟨r, hr, ?_⟩
        simp only [deref, hindex, hschema, if_neg hnew]
        rw [hpart]
        have hkey := keyOf_mem_allKeys docs hfile (hrefs r hr)
        have hlt := unopened_cons_lt docs hkey hnew
        obtain ⟨hknown, htarget⟩ := resolved_known docs hschema
        exact (ih (by omega) hknown fun x hx => htarget x (hvis target x hx)).2
          ⟨file', r', hrest, hb⟩

end walk

def nameOf (docs : Documents) (file : DocFile) (ref : String) : String :=
  (resolveRef docs ref file).schemaName

def Named (handoffTopics : List String) (name : String) : Prop :=
  ∃ topic ∈ handoffTopics, topicName? topic = some name

/-- The schemas that are reached from the root over references that resolve, but not over the
name of a handoff topic. -/
inductive Reached (docs : Documents) (q : Request) (root : Schema) : DocFile → Schema → Prop
  | root : Reached docs q root q.yamlPath root
  | step {file : DocFile} {s target : Schema} {ref : String} (h : Reached docs q root file s)
      (href : ref ∈ s.refs) (hname : ¬Named q.handoffTopics (nameOf docs file ref))
      (htarget : (resolveRef docs ref file).schema = some target) :
      Reached docs q root (keyOf docs file ref).1 target

/-- A reference under any keyword of a schema that is reached. -/
def Needed (docs : Documents) (q : Request) (root : Schema) (file : DocFile) (ref : String) :
    Prop :=
  ∃ s, Reached docs q root file s ∧ ref ∈ s.refs

/-- Every needed reference that does not resolve has an entry, and every one that names a
handoff topic is a dependency. -/
structure Covers (docs : Documents) (q : Request) (root : Schema) (p : Payload) : Prop where
  unresolved : ∀ file ref, Needed docs q root file ref →
    (resolveRef docs ref file).schema = none → ∃ e ∈ p.unresolvedRefs, e.ref = ref
  dependencies : ∀ file ref, Needed docs q root file ref →
    Named q.handoffTopics (nameOf docs file ref) →
      ∃ topic ∈ q.handoffTopics, topicName? topic = some (nameOf docs file ref) ∧
        topic ∈ p.dependencies

/-- The walk from the root comes to the reference, over schemas that are each opened once. -/
def WalksTo (docs : Documents) (q : Request) (root : Schema) (whole : Bool) (file : DocFile)
    (ref : String) : Prop :=
  Comes docs q.index (visibleObject whole) [q.rootKey] q.yamlPath (visibleRoot whole root) file ref

/-- Where a needed reference that does not resolve or names a topic stands in the walk's view,
there or elsewhere. A root named by a status code is not walked at all. -/
structure InView (docs : Documents) (q : Request) (root : Schema) : Prop where
  unresolved : ∀ file ref, Needed docs q root file ref →
    (resolveRef docs ref file).schema = none →
      if isStatusCode q.rootSchemaName then ref = q.rootSchemaName
      else ∃ file', WalksTo docs q root true file' ref ∧ q.index (nameOf docs file' ref) = none ∧
        (resolveRef docs ref file').schema = none
  dependencies : ∀ file ref, Needed docs q root file ref →
    Named q.handoffTopics (nameOf docs file ref) → isStatusCode q.rootSchemaName = false ∧
      ∃ file' ref', WalksTo docs q root false file' ref' ∧
        nameOf docs file' ref' = nameOf docs file ref ∧
        (q.index (nameOf docs file ref)).isSome = true

theorem index_eq_some {q : Request} {name topic : String} (h : q.index name = some topic) :
    topic ∈ q.handoffTopics ∧ topicName? topic = some name := by
  simp only [Request.index, topicIndex] at h
  split_ifs at h
  refine ⟨List.mem_reverse.1 (List.mem_of_find?_eq_some h), ?_⟩
  have hfound : (topicName? topic == some name) = true := by simpa using List.find?_some h
  exact eq_of_beq hfound

section main

variable {docs : Documents} {q : Request} {root : Schema} {p : Payload}

theorem rootSchema_known (hroot : rootSchema? docs q = some root) :
    q.yamlPath ∈ docs.keys ∧ ∀ r ∈ root.refs, r ∈ allRefs docs := by
  obtain ⟨d, hd, hat⟩ := Option.bind_eq_some_iff.1 hroot
  have hentry := (docs.get?_eq_some_iff).1 hd
  obtain ⟨e, hfind, rfl⟩ := Option.map_eq_some_iff.1 hat
  have hmem : e ∈ d.schemas := List.mem_of_find?_eq_some hfind
  refine ⟨List.mem_map.2 ⟨(q.yamlPath, d), hentry, rfl⟩, fun r hr => ?_⟩
  exact List.mem_flatMap.2 ⟨(q.yamlPath, d), hentry, List.mem_flatMap.2 ⟨e, hmem, hr⟩⟩

theorem unopened_le (docs : Documents) (opened : List SchemaKey) :
    (unopened docs opened).length < (allKeys docs).length + 1 :=
  Nat.lt_succ_of_le (List.length_filter_le _ _)

theorem mem_entries_iff (hroot : rootSchema? docs q = some root) (e : UnresolvedEntry) :
    e ∈ (body docs q root).2 ↔ ∃ file ref, WalksTo docs q root true file ref ∧
      q.index (nameOf docs file ref) = none ∧ (resolveRef docs ref file).schema = none ∧
      e = classifyUnresolvedRef ref := by
  obtain ⟨hfile, hrefs⟩ := rootSchema_known hroot
  have hpart : ∀ (follow : String → Emitted) inlinedFrom s,
      (schemaNode follow inlinedFrom s).2 = (visibleObject true s).flatMap fun r => (follow r).2 :=
    entries_schemaNode
  rw [body, entries_rootNode, walk_iff hpart (fun _ => rfl) visibleObject_subset _
    (unopened_le docs _) hfile fun r hr => hrefs r (visibleRoot_subset root r hr)]
  refine exists_congr fun file => exists_congr fun ref => and_congr_right fun _ => ?_
  simp only [closed, nameOf]
  cases hindex : q.index (resolveRef docs ref file).schemaName with
  | some topic => simp
  | none =>
    cases hschema : (resolveRef docs ref file).schema with
    | some target => simp
    | none => simp

theorem mem_topics_iff (hroot : rootSchema? docs q = some root) (topic : String) :
    topic ∈ (body docs q root).1.topics ↔ ∃ file ref, WalksTo docs q root false file ref ∧
      q.index (nameOf docs file ref) = some topic := by
  obtain ⟨hfile, hrefs⟩ := rootSchema_known hroot
  have hwalk := @walk_iff docs q.index String (fun e => e.1.topics) (visibleObject false)
    topics_schemaNode (fun _ => rfl) visibleObject_subset _ [q.rootKey] q.yamlPath
    (visibleRoot false root) (unopened_le docs _) hfile
    (fun r hr => hrefs r (visibleRoot_subset root r hr)) topic
  rw [body, topics_rootNode]
  refine hwalk.trans (exists_congr fun file => exists_congr fun ref => and_congr_right fun _ => ?_)
  simp only [closed, nameOf]
  cases hindex : q.index (resolveRef docs ref file).schemaName with
  | some found => simp [SchemaNode.topics, eq_comm]
  | none =>
    cases hschema : (resolveRef docs ref file).schema with
    | some target => simp [SchemaNode.topics]
    | none => simp [SchemaNode.topics]

theorem covers_status_iff (hstatus : isStatusCode q.rootSchemaName = true)
    (hentries : p.unresolvedRefs = [classifyUnresolvedRef q.rootSchemaName])
    (hdeps : p.dependencies = []) : Covers docs q root p ↔ InView docs q root := by
  constructor
  · intro h
    refine ⟨fun file ref hneed hnone => ?_, fun file ref hneed hname => ?_⟩
    · obtain ⟨e, he, href⟩ := h.unresolved file ref hneed hnone
      rw [hentries, List.mem_singleton] at he
      rw [if_pos hstatus, ← href, he]
      rfl
    · obtain ⟨topic, -, -, hmem⟩ := h.dependencies file ref hneed hname
      rw [hdeps] at hmem
      cases hmem
  · intro h
    refine ⟨fun file ref hneed hnone => ?_, fun file ref hneed hname => ?_⟩
    · have hview := h.unresolved file ref hneed hnone
      rw [if_pos hstatus] at hview
      rw [hentries, hview]
      exact ⟨_, List.mem_singleton_self _, rfl⟩
    · have hview := (h.dependencies file ref hneed hname).1
      rw [hstatus] at hview
      cases hview

theorem covers_walk_iff (hroot : rootSchema? docs q = some root)
    (hstatus : isStatusCode q.rootSchemaName = false)
    (hentries : p.unresolvedRefs = (body docs q root).2)
    (hdeps : ∀ topic, topic ∈ p.dependencies ↔ topic ∈ (body docs q root).1.topics) :
    Covers docs q root p ↔ InView docs q root := by
  have hbranch : ¬isStatusCode q.rootSchemaName = true := by rw [hstatus]; simp
  constructor
  · intro h
    refine ⟨fun file ref hneed hnone => ?_, fun file ref hneed hname => ⟨hstatus, ?_⟩⟩
    · obtain ⟨e, he, href⟩ := h.unresolved file ref hneed hnone
      rw [hentries, mem_entries_iff hroot] at he
      obtain ⟨file', ref', hwalk, hindex, hmissing, rfl⟩ := he
      cases href
      rw [if_neg hbranch]
      exact ⟨file', hwalk, hindex, hmissing⟩
    · obtain ⟨topic, -, htopic, hmem⟩ := h.dependencies file ref hneed hname
      rw [hdeps, mem_topics_iff hroot] at hmem
      obtain ⟨file', ref', hwalk, hindex⟩ := hmem
      have hsame := (index_eq_some hindex).2
      rw [htopic, Option.some.injEq] at hsame
      exact ⟨file', ref', hwalk, hsame.symm, by rw [hsame, hindex]; rfl⟩
  · intro h
    refine ⟨fun file ref hneed hnone => ?_, fun file ref hneed hname => ?_⟩
    · have hview := h.unresolved file ref hneed hnone
      rw [if_neg hbranch] at hview
      obtain ⟨file', hwalk, hindex, hmissing⟩ := hview
      refine ⟨classifyUnresolvedRef ref, ?_, rfl⟩
      rw [hentries, mem_entries_iff hroot]
      exact ⟨file', ref, hwalk, hindex, hmissing, rfl⟩
    · obtain ⟨-, file', ref', hwalk, hsame, hsome⟩ := h.dependencies file ref hneed hname
      obtain ⟨topic, hindex⟩ := Option.isSome_iff_exists.1 hsome
      obtain ⟨hmem, htopic⟩ := index_eq_some hindex
      refine ⟨topic, hmem, htopic, ?_⟩
      rw [hdeps, mem_topics_iff hroot]
      exact ⟨file', ref', hwalk, by rw [hsame, hindex]⟩

/-- The machine form covers what is needed just when all of it is in the walk's view. -/
theorem emitJson_covers_iff (hroot : rootSchema? docs q = some root)
    (hp : emitJson docs q = .ok p) : Covers docs q root p ↔ InView docs q root := by
  simp only [emitJson] at hp
  cases hstatus : isStatusCode q.rootSchemaName with
  | true =>
    rw [hstatus, if_pos rfl] at hp
    cases hp
    exact covers_status_iff hstatus rfl rfl
  | false =>
    rw [hstatus, hroot] at hp
    cases hp
    refine covers_walk_iff hroot hstatus rfl fun topic => ?_
    rw [List.mem_mergeSort, List.mem_dedup]

end main

def plainHead : SchemaHead := { emptyHead with type := some "object" }

def refSchema (ref : String) : Schema := .mk { emptyHead with ref := some ref } []

def sampleFile : DocFile := ⟨"29.531", "TS29531_Nnssf_NSSelection.yaml"⟩

/-- One document with one schema. -/
def sampleDocs (s : Schema) : Documents :=
  Dict.ofList [(sampleFile, ⟨[(["components", "schemas", "Info"], s)]⟩)]

def sampleRequest : Request where
  yamlPath := sampleFile
  rootSchemaName := "Info"
  topicId := "data-model/Info"
  nf := "nssf"
  status := "canonical"
  handoffTopics := ["data-model/Info"]

def goneRef : String := "TS29999_Gone.yaml#/components/schemas/Gone"

/-- The reference stands under a property. -/
def plainSchema : Schema := .mk plainHead [(.property "gone", refSchema goneRef)]

theorem emitJson_covers_plain : ∃ p, emitJson (sampleDocs plainSchema) sampleRequest = .ok p ∧
    Covers (sampleDocs plainSchema) sampleRequest plainSchema p := by
  refine ⟨_, rfl, (emitJson_covers_iff rfl rfl).2 ?_⟩
  have hrefs : plainSchema.refs = [goneRef] := rfl
  have honly : ∀ file s, Reached (sampleDocs plainSchema) sampleRequest plainSchema file s →
      file = sampleFile ∧ s = plainSchema := by
    intro file s h
    induction h with
    | root => exact ⟨rfl, rfl⟩
    | step h href _ htarget ih =>
      obtain ⟨rfl, rfl⟩ := ih
      rw [hrefs, List.mem_singleton] at href
      subst href
      cases htarget
  refine ⟨fun file ref hneed _ => ?_, fun file ref hneed hname => ?_⟩
  · obtain ⟨s, hreached, href⟩ := hneed
    obtain ⟨rfl, rfl⟩ := honly file s hreached
    rw [hrefs, List.mem_singleton] at href
    subst href
    exact ⟨sampleFile, .here (List.mem_singleton_self _), rfl, rfl⟩
  · obtain ⟨s, hreached, href⟩ := hneed
    obtain ⟨rfl, rfl⟩ := honly file s hreached
    rw [hrefs, List.mem_singleton] at href
    subst href
    obtain ⟨topic, htopic, hnamed⟩ := hname
    rw [List.mem_singleton.1 htopic] at hnamed
    exact absurd hnamed (by decide)

/-- The reference is an arm of a composition. -/
def composedSchema : Schema := .mk plainHead [(.allOf, refSchema goneRef)]

theorem emitJson_skips_arm : ¬∀ p,
    emitJson (sampleDocs composedSchema) sampleRequest = .ok p →
      Covers (sampleDocs composedSchema) sampleRequest composedSchema p := by
  intro h
  have hneed : Needed (sampleDocs composedSchema) sampleRequest composedSchema sampleFile goneRef :=
    ⟨composedSchema, .root, List.mem_singleton_self _⟩
  obtain ⟨e, he, -⟩ := (h _ rfl).unresolved sampleFile goneRef hneed rfl
  cases he

end Nssf.Design.EmitJson
