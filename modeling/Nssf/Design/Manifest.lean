import Nssf.Base.FlowMapping

/-! The manual overrides of a manifest, which are written by string formatting and read back as
YAML when it is generated again: they survive just when every value that is written is a string
of printable characters that reads as itself between double quotes. -/

namespace Nssf.Design.Manifest

open Base Base.Flow

/-- A value of a document; of what is not a string only how it is shown and its truth matter. -/
inductive Value where
  | text (t : Text)
  | other (shown : Text) (nonempty : shown ≠ []) (truthy : Bool)
  deriving DecidableEq

def Value.str : Value → Text
  | text t => t
  | other shown _ _ => shown

def Value.truthy : Value → Bool
  | text t => !t.isEmpty
  | other _ _ b => b

abbrev Mapping := Text → Option Value

/-- `none` stands for an entry that is not a mapping. -/
abbrev Item := Option Mapping

def mappingOf (fields : List (Text × Value)) : Mapping := (Dict.ofList fields).get?

structure Overrides where
  exclude : List Item
  add : List Item

section policy

def specKey : Text := "spec".toList

def reasonKey : Text := "reason".toList

/-- An exclusion that a policy document asks for. -/
structure Derived where
  spec : Text
  reason : Value
  nonempty : spec ≠ []

theorem str_ne_nil {v : Value} (h : v.truthy = true) : v.str ≠ [] := by
  cases v with
  | text t =>
    rintro rfl
    cases h
  | other shown nonempty truthy => exact nonempty

def derive? (key default : Text) (entry : Item) : Option Derived :=
  entry.bind fun m => (m specKey).bind fun spec =>
    if h : spec.truthy = true then
      some ⟨spec.str, ((m key).filter Value.truthy).getD (.text default), str_ne_nil h⟩
    else none

/-- From `absorbed_security_profile_specs` and `specs.excluded_operational`. -/
def loadPolicyDerivedExcludes (absorbed operational : List Item) : List Derived :=
  absorbed.filterMap (derive? "nf_manifest_exclude_reason".toList
    "absorbed by project security baseline ADR-0004".toList) ++
  operational.filterMap (derive? reasonKey "excluded_operational (readiness-config)".toList)

def specsOf (items : List Item) : List Value := items.filterMap fun e => e.bind (· specKey)

def excludeMapping (spec reason : Value) : Mapping :=
  mappingOf [(specKey, spec), (reasonKey, reason)]

/-- The derived exclusions whose spec has not been listed before. -/
def missing (specs : List Value) : List Derived → List Derived
  | [] => []
  | d :: ds =>
    if .text d.spec ∈ specs then missing specs ds else d :: missing (.text d.spec :: specs) ds

def mergeOverridesWithPolicy (manual : Overrides) (derived : List Derived) : Overrides where
  exclude := manual.exclude ++
    (missing ((specsOf manual.exclude).filter Value.truthy) derived).map fun d =>
      some (excludeMapping (.text d.spec) d.reason)
  add := manual.add

end policy

section render

/-- One of the two lists: its name, what is noted beside it when it is empty, and the keys of its
entries with what is written for one that an entry lacks. -/
structure Section where
  name : Text
  note : Text
  keys : List (Text × Text)

def excludeSection : Section where
  name := "  exclude".toList
  note := "   # 예: [\x7b spec: \"38.413\", reason: \"NG-RAN out of scope\" \x7d]".toList
  keys := [(specKey, "?".toList), (reasonKey, [])]

def addSection : Section where
  name := "  add".toList
  note := "       # 자동 검출되지 않은 추가 spec".toList
  keys := [(specKey, "?".toList), ("category".toList, "other".toList), ("role".toList, [])]

def dash : Text := "    - ".toList

variable (s : Section)

def Section.fields (m : Mapping) : List (Text × Text) :=
  s.keys.map fun k => (k.1, ((m k.1).map Value.str).getD k.2)

def Section.render (items : List Item) : Text :=
  if items.isEmpty then s.name ++ ": []".toList ++ (s.note ++ ['\n'])
  else s.name ++ ":\n".toList ++ entriesText dash ((items.filterMap id).map s.fields)

def blockHead : Text := "manual_overrides:\n".toList

/-- The end of the document that `render_yaml` writes, from `manual_overrides` on. -/
def renderYaml (o : Overrides) : Text :=
  blockHead ++ (excludeSection.render o.exclude ++ addSection.render o.add)

end render

section load

/-- What the reader of the documents lets through. -/
def isPrintable (c : Char) : Bool :=
  c == '\t' || c == '\n' || c == '\r' || (' ' ≤ c && c ≤ '~') || c == '\u0085' ||
    ('\u00a0' ≤ c && c ≤ '\ufffd') || 0x10000 ≤ c.toNat

def comment? (cs : Text) : Option Text :=
  (expect? '#' (cs.dropWhile (· == ' '))).bind fun rest =>
    expect? '\n' (rest.dropWhile fun c => !isBreak c)

def Section.read (s : Section) (cs : Text) : Option (List (List (Text × Text)) × Text) :=
  match afterLiteral? (s.name ++ ":\n".toList) cs with
  | some rest => readEntries dash (rest.length + 1) rest
  | none => (afterLiteral? (s.name ++ ": []".toList) cs).bind fun rest =>
      (comment? rest).map fun rest => ([], rest)

def readBlock (cs : Text) : Option (List (List (Text × Text)) × List (List (Text × Text))) :=
  (afterLiteral? blockHead cs).bind fun rest =>
    (excludeSection.read rest).bind fun e =>
      (addSection.read e.2).bind fun a => if a.2 = [] then some (e.1, a.1) else none

def textMapping (pairs : List (Text × Text)) : Mapping := fun k =>
  ((Dict.ofList pairs).get? k).map .text

def items (entries : List (List (Text × Text))) : List Item :=
  entries.map fun pairs => some (textMapping pairs)

/-- A text that cannot be read has no overrides. -/
def loadExistingOverrides (cs : Text) : Overrides :=
  if cs.all isPrintable then
    match readBlock cs with
    | some b => ⟨items b.1, items b.2⟩
    | none => ⟨[], []⟩
  else ⟨[], []⟩

/-- The block after the next run. -/
def regenerate (derived : List Derived) (cs : Text) : Text :=
  renderYaml (mergeOverridesWithPolicy (loadExistingOverrides cs) derived)

end load

/-- A string of printable characters that reads as itself between double quotes. -/
def Value.safe : Value → Bool
  | text t => t.all isPrintable && steady .text t
  | other _ _ _ => false

theorem safe_iff {v : Value} : v.safe = true ↔
    ∃ t, v = .text t ∧ t.all isPrintable = true ∧ steady .text t = true := by
  cases v with
  | text t =>
    rw [Value.safe, Bool.and_eq_true]
    constructor
    · exact fun h => ⟨t, rfl, h⟩
    · rintro ⟨t', heq, h⟩
      cases heq
      exact h
  | other shown nonempty truthy =>
    constructor
    · intro h
      cases h
    · rintro ⟨t, heq, -⟩
      cases heq

section sections

/-- The mapping has the keys of the list and no others. -/
def Section.Fits (s : Section) (m : Mapping) : Prop :=
  ∀ k, (m k).isSome = true ↔ k ∈ s.keys.map Prod.fst

structure Section.Lawful (s : Section) : Prop where
  keys : Proper s.keys
  nonempty : s.keys ≠ []
  note : ∀ rest, comment? (s.note ++ '\n' :: rest) = some rest
  printable : (s.name ++ s.note).all isPrintable = true
  printable_keys : s.keys.all (fun k => k.1.all isPrintable) = true

theorem isKey_of_all {key : Text} (hne : key ≠ []) (h : key.all Char.isAlpha = true) :
    IsKey key := ⟨hne, List.all_eq_true.1 h⟩

theorem lawful_exclude : excludeSection.Lawful where
  keys := by
    refine ⟨fun f hf => ?_, by decide⟩
    have hall : excludeSection.keys.all (fun k => !k.1.isEmpty && k.1.all Char.isAlpha) = true := by
      decide
    have hkey := List.all_eq_true.1 hall f hf
    rw [Bool.and_eq_true] at hkey
    exact isKey_of_all (by simpa using hkey.1) hkey.2
  nonempty := List.cons_ne_nil _ _
  note rest := rfl
  printable := by decide
  printable_keys := by decide

theorem lawful_add : addSection.Lawful where
  keys := by
    refine ⟨fun f hf => ?_, by decide⟩
    have hall : addSection.keys.all (fun k => !k.1.isEmpty && k.1.all Char.isAlpha) = true := by
      decide
    have hkey := List.all_eq_true.1 hall f hf
    rw [Bool.and_eq_true] at hkey
    exact isKey_of_all (by simpa using hkey.1) hkey.2
  nonempty := List.cons_ne_nil _ _
  note rest := rfl
  printable := by decide
  printable_keys := by decide

variable {s : Section}

theorem map_fst_fields (m : Mapping) : (s.fields m).map Prod.fst = s.keys.map Prod.fst := by
  rw [Section.fields, List.map_map]
  rfl

theorem Section.Lawful.entry (hs : s.Lawful) (m : Mapping) : Entry (s.fields m) := by
  refine ⟨⟨fun f hf => ?_, ?_⟩, ?_⟩
  · obtain ⟨k, hk, rfl⟩ := List.mem_map.1 hf
    exact hs.keys.keys k hk
  · rw [map_fst_fields]
    exact hs.keys.nodup
  · simpa [Section.fields] using hs.nonempty

/-- What is written for a mapping are its own values. -/
theorem mem_fields {m : Mapping} (hm : s.Fits m) {k : Text} {v : Value} (h : m k = some v) :
    (k, v.str) ∈ s.fields m := by
  obtain ⟨d, hd, rfl⟩ := List.mem_map.1 ((hm k).1 (by rw [h]; rfl))
  refine List.mem_map.2 ⟨d, hd, ?_⟩
  rw [h]
  rfl

theorem of_mem_fields {m : Mapping} (hm : s.Fits m) {f : Text × Text} (hf : f ∈ s.fields m) :
    ∃ v, m f.1 = some v ∧ f.2 = v.str := by
  obtain ⟨d, hd, rfl⟩ := List.mem_map.1 hf
  obtain ⟨v, hv⟩ := Option.isSome_iff_exists.1 ((hm d.1).2 (List.mem_map_of_mem hd))
  exact ⟨v, hv, by rw [hv]; rfl⟩

theorem textMapping_eq_some_iff {pairs : List (Text × Text)} {k : Text} {v : Value} :
    textMapping pairs k = some v ↔ ∃ t, v = .text t ∧ Dict.Last pairs k t := by
  rw [textMapping, Option.map_eq_some_iff]
  constructor
  · rintro ⟨t, h, rfl⟩
    exact ⟨t, rfl, Dict.get?_ofList_eq_some_iff.1 h⟩
  · rintro ⟨t, rfl, h⟩
    exact ⟨t, Dict.get?_ofList_eq_some_iff.2 h, rfl⟩

/-- The fields that a mapping is written with are among the pairs it has been read from. -/
theorem fields_subperm (hs : s.Lawful) {pairs : List (Text × Text)}
    (hfit : s.Fits (textMapping pairs)) : (s.fields (textMapping pairs)).Subperm pairs := by
  have hnodup : (s.fields (textMapping pairs)).Nodup := (hs.entry _).proper.nodup.of_map _
  refine List.subperm_of_subset hnodup fun f hf => ?_
  obtain ⟨v, hv, heq⟩ := of_mem_fields hfit hf
  obtain ⟨t, rfl, hlast⟩ := textMapping_eq_some_iff.1 hv
  have hf : f = (f.1, t) := Prod.ext rfl heq
  rw [hf]
  exact hlast.mem

theorem textMapping_fields (hs : s.Lawful) {m : Mapping} (hfit : s.Fits m)
    (htext : ∀ k v, m k = some v → ∃ t, v = .text t) : textMapping (s.fields m) = m := by
  have hnodup := (hs.entry m).proper.nodup
  funext k
  cases hm : m k with
  | some v =>
    obtain ⟨t, rfl⟩ := htext k v hm
    exact textMapping_eq_some_iff.2 ⟨t, rfl, Dict.last_of_mem hnodup (mem_fields hfit hm)⟩
  | none =>
    have hk : k ∉ (s.fields m).map Prod.fst := by
      rw [map_fst_fields, ← hfit k, hm]
      exact Bool.false_ne_true
    rw [textMapping, Dict.get?_ofList_eq_none hk]
    rfl

end sections

section reading

variable {s : Section}

theorem afterLiteral?_common (lit lit' cs : Text) :
    afterLiteral? (lit ++ lit') (lit ++ cs) = afterLiteral? lit' cs := by
  cases h : afterLiteral? lit' cs with
  | some rest =>
    rw [afterLiteral?_eq_some_iff] at h ⊢
    rw [h, List.append_assoc]
  | none =>
    cases h' : afterLiteral? (lit ++ lit') (lit ++ cs) with
    | none => rfl
    | some rest =>
      rw [afterLiteral?_eq_some_iff, List.append_assoc, List.append_cancel_left_eq] at h'
      rw [afterLiteral?_eq_some_iff.2 h'] at h
      cases h

theorem render_nil : s.render [] = s.name ++ ": []".toList ++ (s.note ++ ['\n']) := rfl

theorem render_cons (m : Mapping) (ms : List Mapping) :
    s.render ((m :: ms).map some) =
      s.name ++ ":\n".toList ++ entriesText dash ((m :: ms).map s.fields) := by
  have hitems : ((m :: ms).map some).filterMap id = m :: ms := by simp [List.filterMap_map]
  rw [Section.render, hitems]
  rfl

theorem read_nil (hs : s.Lawful) (rest : Text) :
    s.read (s.render [] ++ rest) = some ([], rest) := by
  have htext : s.render [] ++ rest = s.name ++ (": []".toList ++ (s.note ++ '\n' :: rest)) := by
    simp [render_nil]
  have hmany : afterLiteral? (s.name ++ ":\n".toList) (s.render [] ++ rest) = none := by
    rw [htext, afterLiteral?_common]
    rfl
  have hnone : afterLiteral? (s.name ++ ": []".toList) (s.render [] ++ rest) =
      some (s.note ++ '\n' :: rest) := by
    rw [afterLiteral?_eq_some_iff, htext, List.append_assoc]
  rw [Section.read, hmany]
  simp only [hnone, Option.bind_some, hs.note, Option.map_some]

theorem read_cons (m : Mapping) (ms : List Mapping) (rest : Text) :
    s.read (s.render ((m :: ms).map some) ++ rest) =
      readEntries dash ((entriesText dash ((m :: ms).map s.fields) ++ rest).length + 1)
        (entriesText dash ((m :: ms).map s.fields) ++ rest) := by
  have hmany : afterLiteral? (s.name ++ ":\n".toList)
      (s.render ((m :: ms).map some) ++ rest) =
        some (entriesText dash ((m :: ms).map s.fields) ++ rest) := by
    rw [afterLiteral?_eq_some_iff, render_cons, List.append_assoc]
  rw [Section.read, hmany]

theorem read_steady (hs : s.Lawful) {ms : List Mapping} (hsteady : ∀ m ∈ ms, Steady (s.fields m))
    {rest : Text} (hrest : afterLiteral? dash rest = none) :
    s.read (s.render (ms.map some) ++ rest) = some (ms.map s.fields, rest) := by
  cases ms with
  | nil => exact read_nil hs rest
  | cons m ms =>
    have hlen := @length_le_entriesText dash ((m :: ms).map s.fields)
    rw [read_cons]
    refine readEntries_steady ?_ ?_ hrest ?_
    · intro e he
      obtain ⟨m', -, rfl⟩ := List.mem_map.1 he
      exact hs.entry m'
    · intro e he
      obtain ⟨m', hm', rfl⟩ := List.mem_map.1 he
      exact hsteady m' hm'
    · rw [List.length_append]
      omega

/-- Where the mappings that are read are the ones that were written, and as many quotes are left
as come after the list, the values are steady and nothing else has been read. -/
theorem read_sync (hs : s.Lawful) {ms : List Mapping} {rest rest' : Text}
    (hrest : afterLiteral? dash rest = none) {found : List (List (Text × Text))}
    (h : s.read (s.render (ms.map some) ++ rest) = some (found, rest'))
    (hfound : List.Forall₂ List.Subperm (ms.map s.fields) found)
    (hquotes : quotes.total rest ≤ quotes.total rest') :
    rest' = rest ∧ ∀ m ∈ ms, Steady (s.fields m) := by
  cases ms with
  | nil =>
    have hread := (read_nil hs rest).symm.trans h
    cases hread
    exact ⟨rfl, fun m hm => absurd hm List.not_mem_nil⟩
  | cons m ms =>
    rw [read_cons] at h
    have hdash : quotes.total dash = 0 := rfl
    have hentries : ∀ e ∈ (m :: ms).map s.fields, Entry e := by
      intro e he
      obtain ⟨m', -, rfl⟩ := List.mem_map.1 he
      exact hs.entry m'
    obtain ⟨hend, hsteady⟩ := readEntries_sync hdash hentries hrest h hfound hquotes
    exact ⟨hend, fun m' hm' => hsteady _ (List.mem_map_of_mem hm')⟩

theorem comment?_suffix {cs rest : Text} (h : comment? cs = some rest) : rest <:+ cs := by
  obtain ⟨text, htext, h⟩ := Option.bind_eq_some_iff.1 h
  rw [expect?_eq_some_iff] at htext h
  have hline : rest <:+ text := by
    refine List.IsSuffix.trans ?_ (List.dropWhile_suffix fun c => !isBreak c)
    rw [h]
    exact List.suffix_cons _ _
  have hmark : text <:+ cs := by
    refine List.IsSuffix.trans ?_ (List.dropWhile_suffix fun c => c == ' ')
    rw [htext]
    exact List.suffix_cons _ _
  exact hline.trans hmark

theorem read_cost {cs rest : Text} {found : List (List (Text × Text))}
    (h : s.read cs = some (found, rest)) : costs found + quotes.total rest ≤ quotes.total cs := by
  rw [Section.read] at h
  cases hmany : afterLiteral? (s.name ++ ":\n".toList) cs with
  | some after =>
    rw [hmany] at h
    have hcost := readEntries_cost h
    rw [afterLiteral?_eq_some_iff.1 hmany, Measure.total_append]
    omega
  | none =>
    rw [hmany] at h
    obtain ⟨after, hnone, h⟩ := Option.bind_eq_some_iff.1 h
    obtain ⟨rest', hcomment, heq⟩ := Option.map_eq_some_iff.1 h
    cases heq
    have hrest := quotes_le_of_suffix (comment?_suffix hcomment)
    rw [afterLiteral?_eq_some_iff.1 hnone, Measure.total_append, costs_nil]
    omega

/-- There are no quotes in the list of additions but those around the values. -/
theorem quotes_add (ms : List Mapping) :
    quotes.total (addSection.render (ms.map some)) = costs (ms.map addSection.fields) := by
  cases ms with
  | nil => rfl
  | cons m ms =>
    have hname : quotes.total (addSection.name ++ ":\n".toList) = 0 := rfl
    have hentries : ∀ e ∈ (m :: ms).map addSection.fields, Entry e := by
      intro e he
      obtain ⟨m', -, rfl⟩ := List.mem_map.1 he
      exact lawful_add.entry m'
    rw [render_cons, Measure.total_append, hname, quotes_entriesText rfl hentries, Nat.zero_add]

end reading

section block

variable {s : Section}

/-- Every value of the mapping is safe. -/
def Sound (m : Mapping) : Prop := ∀ k v, m k = some v → v.safe = true

theorem Sound.fields {m : Mapping} (hfit : s.Fits m) (hsound : Sound m) {f : Text × Text}
    (hf : f ∈ s.fields m) : f.2.all isPrintable = true ∧ steady .text f.2 = true := by
  obtain ⟨v, hv, heq⟩ := of_mem_fields hfit hf
  obtain ⟨t, rfl, hprint, hsteady⟩ := safe_iff.1 (hsound f.1 v hv)
  rw [heq]
  exact ⟨hprint, hsteady⟩

theorem Sound.textMapping_fields (hs : s.Lawful) {m : Mapping} (hfit : s.Fits m)
    (hsound : Sound m) : textMapping (s.fields m) = m :=
  Manifest.textMapping_fields hs hfit fun k v hv => by
    obtain ⟨t, rfl, -⟩ := safe_iff.1 (hsound k v hv)
    exact ⟨t, rfl⟩

theorem all_render (hs : s.Lawful) {ms : List Mapping}
    (h : ∀ m ∈ ms, ∀ f ∈ s.fields m, f.2.all isPrintable = true) :
    (s.render (ms.map some)).all isPrintable = true := by
  have hplain := hs.printable
  rw [List.all_append, Bool.and_eq_true] at hplain
  have hcolon : ":\n".toList.all isPrintable = true := by decide
  have hempty : ": []".toList.all isPrintable = true := by decide
  have hbreak : ['\n'].all isPrintable = true := by decide
  cases ms with
  | nil =>
    rw [List.map_nil, render_nil, List.all_append, List.all_append, List.all_append, hplain.1,
      hplain.2, hempty, hbreak]
    rfl
  | cons m ms =>
    have hentries : (entriesText dash ((m :: ms).map s.fields)).all isPrintable = true := by
      refine all_entriesText (by decide) (by decide) ?_
      intro e he f hf
      obtain ⟨m', hm', rfl⟩ := List.mem_map.1 he
      obtain ⟨d, hd, hkey⟩ := List.mem_map.1 hf
      have hword := List.all_eq_true.1 hs.printable_keys d hd
      exact ⟨by rw [← hkey]; exact hword, h m' hm' f hf⟩
    rw [render_cons, List.all_append, List.all_append, hplain.1, hcolon, hentries]
    rfl

theorem mem_render {ms : List Mapping} {m : Mapping} (hm : m ∈ ms) {f : Text × Text}
    (hf : f ∈ s.fields m) {c : Char} (hc : c ∈ f.2) : c ∈ s.render (ms.map some) := by
  have hentries : c ∈ entriesText dash (ms.map s.fields) :=
    mem_entriesText (List.mem_map_of_mem hm) hf hc
  cases ms with
  | nil => cases hm
  | cons m' ms =>
    rw [render_cons]
    exact List.mem_append_right _ hentries

theorem forall₂_subperm (hs : s.Lawful) {found : List (List (Text × Text))} {ms : List Mapping}
    (hms : ms = found.map textMapping) (hfit : ∀ m ∈ ms, s.Fits m) :
    List.Forall₂ List.Subperm (ms.map s.fields) found := by
  subst hms
  rw [List.map_map, List.forall₂_map_left_iff, List.forall₂_same]
  exact fun pairs hpairs => fields_subperm hs (hfit _ (List.mem_map_of_mem hpairs))

variable {es as : List Mapping}

theorem readBlock_eq_some {cs : Text}
    {b : List (List (Text × Text)) × List (List (Text × Text))} (h : readBlock cs = some b) :
    ∃ rest rest', cs = blockHead ++ rest ∧
      excludeSection.read rest = some (b.1, rest') ∧ addSection.read rest' = some (b.2, []) := by
  obtain ⟨rest, hhead, h⟩ := Option.bind_eq_some_iff.1 h
  obtain ⟨⟨e, rest'⟩, hexclude, h⟩ := Option.bind_eq_some_iff.1 h
  obtain ⟨⟨a, rest''⟩, hadd, h⟩ := Option.bind_eq_some_iff.1 h
  simp only at h
  split_ifs at h with hend
  cases h
  subst hend
  exact ⟨rest, rest', afterLiteral?_eq_some_iff.1 hhead, hexclude, hadd⟩

theorem not_dash_add (items : List Item) : afterLiteral? dash (addSection.render items) = none := by
  rw [Section.render]
  split_ifs
  · rfl
  · rfl

/-- Where the mappings are read back their values are steady. -/
theorem steady_of_readBlock (he : ∀ m ∈ es, excludeSection.Fits m)
    (ha : ∀ m ∈ as, addSection.Fits m)
    {b : List (List (Text × Text)) × List (List (Text × Text))}
    (h : readBlock (renderYaml ⟨es.map some, as.map some⟩) = some b)
    (hes : es = b.1.map textMapping) (has : as = b.2.map textMapping) :
    (∀ m ∈ es, Steady (excludeSection.fields m)) ∧ ∀ m ∈ as, Steady (addSection.fields m) := by
  obtain ⟨rest, rest', htext, hexclude, hadd⟩ := readBlock_eq_some h
  have hrest := List.append_cancel_left htext
  rw [← hrest] at hexclude
  have hfound := forall₂_subperm lawful_exclude hes he
  have hadded := forall₂_subperm lawful_add has ha
  have hquotes : quotes.total (addSection.render (as.map some)) ≤ quotes.total rest' := by
    have hcost := read_cost hadd
    have hle := costs_le_of_subperm hadded
    rw [quotes_add]
    omega
  obtain ⟨hnext, hsteady⟩ := read_sync lawful_exclude (not_dash_add _) hexclude hfound hquotes
  rw [hnext] at hadd
  have hend : afterLiteral? dash [] = none := rfl
  have hlast : addSection.read (addSection.render (as.map some) ++ []) = some (b.2, []) := by
    rw [List.append_nil]
    exact hadd
  have hsteady' := read_sync lawful_add hend hlast hadded (Nat.le_refl _)
  exact ⟨hsteady, hsteady'.2⟩

theorem items_eq_map_some_iff {found : List (List (Text × Text))} {ms : List Mapping} :
    items found = ms.map some ↔ ms = found.map textMapping := by
  have hitems : items found = (found.map textMapping).map some := by
    rw [items, List.map_map]
    rfl
  rw [hitems, (List.map_injective_iff.2 fun _ _ heq => Option.some.inj heq).eq_iff, eq_comm]

theorem load_of_readBlock {cs : Text} (hprint : cs.all isPrintable = true)
    {b : List (List (Text × Text)) × List (List (Text × Text))} (h : readBlock cs = some b) :
    loadExistingOverrides cs = ⟨items b.1, items b.2⟩ := by
  rw [loadExistingOverrides, if_pos hprint, h]

theorem load_cases (cs : Text) : loadExistingOverrides cs = ⟨[], []⟩ ∨
    ∃ b, cs.all isPrintable = true ∧ readBlock cs = some b ∧
      loadExistingOverrides cs = ⟨items b.1, items b.2⟩ := by
  by_cases hprint : cs.all isPrintable = true
  · cases h : readBlock cs with
    | some b => exact .inr ⟨b, hprint, rfl, load_of_readBlock hprint h⟩
    | none =>
      left
      rw [loadExistingOverrides, if_pos hprint, h]
  · exact .inl (if_neg hprint)

theorem sound_of_steady {ms : List Mapping} {found : List (List (Text × Text))}
    (hms : ms = found.map textMapping) (hfit : ∀ m ∈ ms, s.Fits m)
    (hsteady : ∀ m ∈ ms, Steady (s.fields m)) {cs : Text} (hprint : cs.all isPrintable = true)
    (hsub : s.render (ms.map some) ⊆ cs) : ∀ m ∈ ms, Sound m := by
  intro m hm k v hv
  obtain ⟨pairs, -, heq⟩ := List.mem_map.1 (hms ▸ hm)
  rw [← heq] at hv
  obtain ⟨t, rfl, -⟩ := textMapping_eq_some_iff.1 hv
  rw [heq] at hv
  have hfield : (k, t) ∈ s.fields m := mem_fields (hfit m hm) hv
  have hall : t.all isPrintable = true := List.all_eq_true.2 fun c hc =>
    List.all_eq_true.1 hprint c (hsub (mem_render hm hfield hc))
  exact safe_iff.2 ⟨t, rfl, hall, hsteady m hm _ hfield⟩

theorem renderYaml_eq : renderYaml ⟨es.map some, as.map some⟩ = blockHead ++
    (excludeSection.render (es.map some) ++ addSection.render (as.map some)) := by
  rw [renderYaml]

theorem exclude_subset :
    excludeSection.render (es.map some) ⊆ renderYaml ⟨es.map some, as.map some⟩ := by
  rw [renderYaml_eq]
  exact fun c hc => List.mem_append_right _ (List.mem_append_left _ hc)

theorem add_subset : addSection.render (as.map some) ⊆ renderYaml ⟨es.map some, as.map some⟩ := by
  rw [renderYaml_eq]
  exact fun c hc => List.mem_append_right _ (List.mem_append_right _ hc)

theorem items_fields (hs : s.Lawful) {ms : List Mapping} (hfit : ∀ m ∈ ms, s.Fits m)
    (hsound : ∀ m ∈ ms, Sound m) : items (ms.map s.fields) = ms.map some := by
  rw [items, List.map_map]
  refine List.map_congr_left fun m hm => ?_
  exact congrArg some ((hsound m hm).textMapping_fields hs (hfit m hm))

theorem readBlock_steady (he : ∀ m ∈ es, Steady (excludeSection.fields m))
    (ha : ∀ m ∈ as, Steady (addSection.fields m)) :
    readBlock (renderYaml ⟨es.map some, as.map some⟩) =
      some (es.map excludeSection.fields, as.map addSection.fields) := by
  have hend : afterLiteral? dash [] = none := rfl
  have hexclude := read_steady lawful_exclude he (not_dash_add (as.map some))
  have hadd := read_steady lawful_add ha hend
  rw [List.append_nil] at hadd
  rw [readBlock, afterLiteral?_eq_some_iff.2 renderYaml_eq]
  simp only [Option.bind_some, hexclude, hadd, if_true]

/-- Lists of mappings with the keys they should have are read back just when every value is
safe. -/
theorem load_render_iff (he : ∀ m ∈ es, excludeSection.Fits m)
    (ha : ∀ m ∈ as, addSection.Fits m) :
    loadExistingOverrides (renderYaml ⟨es.map some, as.map some⟩) =
      ⟨es.map some, as.map some⟩ ↔ (∀ m ∈ es, Sound m) ∧ ∀ m ∈ as, Sound m := by
  constructor
  · intro h
    obtain hload | ⟨b, hprint, hread, hload⟩ :=
      load_cases (renderYaml ⟨es.map some, as.map some⟩)
    · rw [hload, Overrides.mk.injEq] at h
      have hes : es = [] := List.map_eq_nil_iff.1 h.1.symm
      have has : as = [] := List.map_eq_nil_iff.1 h.2.symm
      rw [hes, has]
      exact ⟨fun m hm => absurd hm List.not_mem_nil, fun m hm => absurd hm List.not_mem_nil⟩
    · rw [hload, Overrides.mk.injEq, items_eq_map_some_iff, items_eq_map_some_iff] at h
      obtain ⟨hsteady, hsteady'⟩ := steady_of_readBlock he ha hread h.1 h.2
      exact ⟨sound_of_steady h.1 he hsteady hprint exclude_subset,
        sound_of_steady h.2 ha hsteady' hprint add_subset⟩
  · rintro ⟨hes, has⟩
    have hexclude := all_render lawful_exclude fun m hm f hf => ((hes m hm).fields (he m hm) hf).1
    have hadd := all_render lawful_add fun m hm f hf => ((has m hm).fields (ha m hm) hf).1
    have hhead : blockHead.all isPrintable = true := by decide
    have hprint : (renderYaml ⟨es.map some, as.map some⟩).all isPrintable = true := by
      rw [renderYaml_eq, List.all_append, List.all_append, hhead, hexclude, hadd]
      rfl
    have hblock := readBlock_steady (fun m hm f hf => ((hes m hm).fields (he m hm) hf).2)
      fun m hm f hf => ((has m hm).fields (ha m hm) hf).2
    rw [load_of_readBlock hprint hblock, items_fields lawful_exclude he hes,
      items_fields lawful_add ha has]

end block

end Nssf.Design.Manifest
