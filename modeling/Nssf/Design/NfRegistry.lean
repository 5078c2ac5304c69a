import Mathlib.Data.Finset.Sort
import Nssf.Design.NfSignals

/-! The network functions of a tree of specifications, each with its primary specification and how
far that choice is to be trusted. -/

namespace Nssf.Design.NfRegistry

open Base PyText

structure DirEntry where
  name : String
  doc : Option YamlDoc

structure SpecDir where
  name : String
  entries : List DirEntry

/-- The directories under the root, if the root is one. -/
structure SpecsTree where
  dirs : List SpecDir
  distinct : (dirs.map SpecDir.name).Nodup

inductive Confidence where
  | high
  | medium
  | low
  deriving DecidableEq

def Confidence.rank : Confidence → ℕ
  | .high => 0
  | .medium => 1
  | .low => 2

def confidence (signalTypes : Finset SignalType) (conflict fromKnownTable : Bool) : Confidence :=
  if fromKnownTable && signalTypes.card == 0 then .low
  else if conflict then .low
  else if 2 ≤ signalTypes.card then .high
  else if signalTypes.card = 1 then .medium
  else .low

/-- Nothing is known beforehand. -/
def knownSpecToNf : List (String × String) := []

/-- `pathlib`'s suffix. -/
def suffix (name : List Char) : List Char :=
  let stem := (name.rdropWhile (· != '.')).dropLast
  let ext := name.rtakeWhile (· != '.')
  if stem = [] ∨ ext = [] then [] else '.' :: ext

section scan

variable (u : Unicode)

def hasSuffix (suffixes : List String) (e : DirEntry) : Bool :=
  String.ofList (u.lower (suffix e.name.toList)) ∈ suffixes

def sortedNames (names : List String) : List String := names.insertionSort (· ≤ ·)

def yamlFiles (sd : SpecDir) : List SpecFile :=
  ((sd.entries.filter (hasSuffix u [".yaml", ".yml"])).insertionSort (·.name ≤ ·.name)).map
    fun e => ⟨e.name, e.doc⟩

def docxFiles (sd : SpecDir) : List String :=
  sortedNames ((sd.entries.filter (hasSuffix u [".docx"])).map DirEntry.name)

structure PairEntry where
  signalTypes : Finset SignalType
  yamlFiles : List String
  conflict : Bool
  docxFiles : List String
  fromKnownTable : Bool

abbrev Pairs := Dict (String × String) PairEntry

def freshEntry (sd : SpecDir) : PairEntry := ⟨∅, [], false, docxFiles u sd, false⟩

def PairEntry.add (e : PairEntry) (f : SpecFile) (vote : FileVote) : PairEntry :=
  { e with
    signalTypes := e.signalTypes ∪ vote.types
    yamlFiles := e.yamlFiles ++ [f.name]
    conflict := e.conflict || vote.conflict }

variable (vote : String → SpecFile → FileVote)

def scanFile (sd : SpecDir) (acc : Pairs) (f : SpecFile) : Pairs :=
  let v := vote sd.name f
  match v.nf with
  | none => acc
  | some nf =>
    let entry := (acc.get? (nf, sd.name)).getD (freshEntry u sd)
    acc.set (nf, sd.name) (entry.add f v)

def scanDir (acc : Pairs) (sd : SpecDir) : Pairs :=
  let acc := (yamlFiles u sd).foldl (scanFile u vote sd) acc
  if acc.keys.any fun k => k.2 == sd.name then acc
  else
    match knownSpecToNf.lookup sd.name with
    | none => acc
    | some nf => acc.set (nf, sd.name) ⟨∅, [], false, docxFiles u sd, true⟩

def specDirs (tree : SpecsTree) : List SpecDir :=
  (tree.dirs.filter fun sd => sd.name.toList.head? ≠ some '_').insertionSort (·.name ≤ ·.name)

def pairAcc (tree : SpecsTree) : Pairs := (specDirs tree).foldl (scanDir u vote) Dict.empty

structure Candidate where
  spec : String
  conf : Confidence
  entry : PairEntry

def addCandidate (byNf : Dict String (List Candidate)) (p : (String × String) × PairEntry) :
    Dict String (List Candidate) :=
  let conf := confidence p.2.signalTypes p.2.conflict p.2.fromKnownTable
  byNf.set p.1.1 ((byNf.get? p.1.1).getD [] ++ [⟨p.1.2, conf, p.2⟩])

/-- The higher confidence first, then the more types of signal, then the name. -/
def Candidate.ahead (c d : Candidate) : Bool :=
  let types := c.entry.signalTypes.card
  let types' := d.entry.signalTypes.card
  decide (c.conf.rank < d.conf.rank) || c.conf.rank == d.conf.rank &&
    (decide (types' < types) || types == types' && decide (c.spec ≤ d.spec))

structure NfEntry where
  primarySpec : String
  primarySpecConfidence : Confidence
  discoverySource : String
  discoveredFrom : List String
  supportingSpecs : List String
  yaml : List String
  docx : List String
  rationale : String
  deriving DecidableEq

def typeNames (types : Finset SignalType) : List String :=
  [(SignalType.filename, "filename"), (.path, "path"), (.title, "title")].filterMap fun t =>
    if t.1 ∈ types then some t.2 else none

def rationale (e : PairEntry) : String :=
  let bits :=
    (if e.signalTypes.card = 0 then []
      else ["signals=" ++ ",".intercalate (typeNames e.signalTypes)]) ++
      (if e.conflict then ["multi-NF candidates detected"] else []) ++
      if e.fromKnownTable then ["known-table fallback (no YAML signal)"] else []
  if bits = [] then "no signal" else "; ".intercalate bits

def nfEntry (cands : List Candidate) : Option NfEntry :=
  match cands.insertionSort fun c d => c.ahead d = true with
  | [] => none
  | prim :: supporting => some
    { primarySpec := prim.spec
      primarySpecConfidence := prim.conf
      discoverySource := "auto"
      discoveredFrom := ["specs/" ++ prim.spec ++ "/"]
      supportingSpecs := supporting.map Candidate.spec
      yaml := prim.entry.yamlFiles
      docx := prim.entry.docxFiles
      rationale := rationale prim.entry }

def scanWith (tree : SpecsTree) : List (String × NfEntry) :=
  let byNf := (pairAcc u vote tree).entries.foldl addCandidate Dict.empty
  (byNf.entries.filterMap fun p => (nfEntry p.2).map fun e => (p.1, e)).insertionSort (·.1 ≤ ·.1)

/-- `it` is how the sets of each file are gone through; there is no tree where the root is no
directory. -/
def scanSpecs (it : String → SpecFile → Iteration) (tree : Option SpecsTree) :
    List (String × NfEntry) :=
  match tree with
  | none => []
  | some tree => scanWith u (fun spec f => fileVote u (it spec f) f) tree

end scan

section gathered

variable {u : Unicode} {vote : String → SpecFile → FileVote}

/-- The files of a directory that go to a network function. -/
def attributed (u : Unicode) (vote : String → SpecFile → FileVote) (sd : SpecDir) (nf : String) :
    List SpecFile :=
  (yamlFiles u sd).filter fun f => (vote sd.name f).nf = some nf

/-- An entry has what its files have between them. -/
structure Gathered (u : Unicode) (vote : String → SpecFile → FileVote) (sd : SpecDir) (nf : String)
    (e : PairEntry) : Prop where
  types : ∀ t, t ∈ e.signalTypes ↔ ∃ f ∈ attributed u vote sd nf, t ∈ (vote sd.name f).types
  conflict : e.conflict = true ↔ ∃ f ∈ attributed u vote sd nf, (vote sd.name f).conflict = true
  found : e.fromKnownTable = false

def addAttributed (u : Unicode) (vote : String → SpecFile → FileVote) (sd : SpecDir)
    (e : Option PairEntry) (f : SpecFile) : Option PairEntry :=
  some ((e.getD (freshEntry u sd)).add f (vote sd.name f))

theorem get?_scanFile (sd : SpecDir) (acc : Pairs) (f : SpecFile) (k : String × String) :
    (scanFile u vote sd acc f).get? k =
      if k.2 = sd.name ∧ (vote sd.name f).nf = some k.1 then
        addAttributed u vote sd (acc.get? k) f
      else acc.get? k := by
  obtain ⟨nf, spec⟩ := k
  rw [scanFile]
  cases hnf : (vote sd.name f).nf with
  | none => simp
  | some top =>
    simp only [Dict.get?_set, Prod.mk.injEq, Option.some.injEq]
    by_cases hkey : nf = top ∧ spec = sd.name
    · obtain ⟨rfl, rfl⟩ := hkey
      simp [addAttributed]
    · have hkey' : ¬(spec = sd.name ∧ top = nf) := fun h => hkey ⟨h.2.symm, h.1⟩
      rw [if_neg hkey, if_neg hkey']

theorem get?_scanFiles (sd : SpecDir) (fs : List SpecFile) (acc : Pairs) (nf : String) :
    (fs.foldl (scanFile u vote sd) acc).get? (nf, sd.name) =
      (fs.filter fun f => (vote sd.name f).nf = some nf).foldl (addAttributed u vote sd)
        (acc.get? (nf, sd.name)) := by
  induction fs generalizing acc with
  | nil => rfl
  | cons f fs ih =>
    rw [List.foldl_cons, ih, get?_scanFile, List.filter_cons]
    by_cases hnf : (vote sd.name f).nf = some nf
    · simp [hnf]
    · simp [hnf]

theorem get?_scanFiles_of_ne (sd : SpecDir) (fs : List SpecFile) (acc : Pairs)
    {k : String × String} (hk : k.2 ≠ sd.name) :
    (fs.foldl (scanFile u vote sd) acc).get? k = acc.get? k := by
  induction fs generalizing acc with
  | nil => rfl
  | cons f fs ih => rw [List.foldl_cons, ih, get?_scanFile, if_neg fun h => hk h.1]

/-- Adding files to an entry adds up what they have. -/
theorem foldl_addAttributed (sd : SpecDir) (fs : List SpecFile) {e₀ e : PairEntry}
    (h : fs.foldl (addAttributed u vote sd) (some e₀) = some e) :
    (∀ t, t ∈ e.signalTypes ↔ t ∈ e₀.signalTypes ∨ ∃ f ∈ fs, t ∈ (vote sd.name f).types) ∧
      (e.conflict = true ↔ e₀.conflict = true ∨ ∃ f ∈ fs, (vote sd.name f).conflict = true) ∧
      e.fromKnownTable = e₀.fromKnownTable := by
  induction fs generalizing e₀ with
  | nil =>
    cases h
    simp
  | cons f fs ih =>
    obtain ⟨htypes, hconflict, hknown⟩ := ih h
    refine ⟨fun t => ?_, ?_, hknown⟩
    · rw [htypes]
      simp [PairEntry.add, or_assoc]
    · rw [hconflict]
      simp [PairEntry.add, or_assoc]

theorem gathered_of_foldl {sd : SpecDir} {nf : String} {e : PairEntry}
    (h : (attributed u vote sd nf).foldl (addAttributed u vote sd) none = some e) :
    Gathered u vote sd nf e := by
  have hfresh : (attributed u vote sd nf).foldl (addAttributed u vote sd)
      (some (freshEntry u sd)) = some e := by
    cases hfs : attributed u vote sd nf with
    | nil =>
      rw [hfs] at h
      cases h
    | cons f fs =>
      rw [hfs] at h
      exact h
  obtain ⟨htypes, hconflict, hknown⟩ := foldl_addAttributed sd _ hfresh
  refine ⟨fun t => ?_, ?_, hknown⟩
  · rw [htypes]
    simp [freshEntry]
  · rw [hconflict]
    simp [freshEntry]

theorem get?_scanDir (sd : SpecDir) (acc : Pairs) (k : String × String) :
    (scanDir u vote acc sd).get? k =
      ((yamlFiles u sd).foldl (scanFile u vote sd) acc).get? k := by
  rw [scanDir]
  have hknown : knownSpecToNf.lookup sd.name = none := rfl
  simp only [hknown]
  split_ifs <;> rfl

/-- Each directory is scanned once, so an entry is of one directory. -/
theorem gathered_foldl {dirs done : List SpecDir} {acc : Pairs}
    (hdistinct : ((done ++ dirs).map SpecDir.name).Nodup)
    (hacc : ∀ nf spec e, acc.get? (nf, spec) = some e →
      ∃ sd ∈ done, sd.name = spec ∧ Gathered u vote sd nf e) :
    ∀ nf spec e, (dirs.foldl (scanDir u vote) acc).get? (nf, spec) = some e →
      ∃ sd ∈ done ++ dirs, sd.name = spec ∧ Gathered u vote sd nf e := by
  induction dirs generalizing done acc with
  | nil => simpa using hacc
  | cons sd dirs ih =>
    have hlist : done ++ sd :: dirs = (done ++ [sd]) ++ dirs := by simp
    rw [hlist] at hdistinct ⊢
    refine ih hdistinct fun nf spec e he => ?_
    rw [get?_scanDir] at he
    by_cases hspec : spec = sd.name
    · subst hspec
      have hnone : acc.get? (nf, sd.name) = none := by
        cases hget : acc.get? (nf, sd.name) with
        | none => rfl
        | some e' =>
          obtain ⟨sd', hsd', hname, -⟩ := hacc nf sd.name e' hget
          rw [List.map_append, List.map_append, List.nodup_append] at hdistinct
          have hapart := (List.nodup_append.1 hdistinct.1).2.2
          exact absurd hname (hapart _ (List.mem_map_of_mem hsd') _ (by simp))
      rw [get?_scanFiles, hnone] at he
      exact ⟨sd, by simp, rfl, gathered_of_foldl he⟩
    · rw [get?_scanFiles_of_ne sd _ acc hspec] at he
      obtain ⟨sd', hsd', hname, hgathered⟩ := hacc nf spec e he
      exact ⟨sd', List.mem_append_left _ hsd', hname, hgathered⟩

theorem gathered_pairAcc (tree : SpecsTree) {nf spec : String} {e : PairEntry}
    (h : ((nf, spec), e) ∈ (pairAcc u vote tree).entries) :
    ∃ sd ∈ tree.dirs, sd.name = spec ∧ Gathered u vote sd nf e := by
  have hperm := List.perm_insertionSort (fun a b : SpecDir => a.name ≤ b.name)
    (tree.dirs.filter fun sd => sd.name.toList.head? ≠ some '_')
  have hdistinct : ((specDirs tree).map SpecDir.name).Nodup := by
    rw [specDirs, (hperm.map _).nodup_iff]
    exact tree.distinct.sublist (List.filter_sublist.map _)
  have hstart : ∀ nf spec e, (Dict.empty : Pairs).get? (nf, spec) = some e →
      ∃ sd ∈ ([] : List SpecDir), sd.name = spec ∧ Gathered u vote sd nf e := fun _ _ _ he => by
    cases he
  obtain ⟨sd, hsd, hname, hgathered⟩ := gathered_foldl (by simpa using hdistinct) hstart nf spec e
    ((Dict.get?_eq_some_iff _).2 h)
  have hin : sd ∈ specDirs tree := by simpa using hsd
  exact ⟨sd, List.mem_of_mem_filter (hperm.mem_iff.1 hin), hname, hgathered⟩

def PairEntry.conf (e : PairEntry) : Confidence :=
  confidence e.signalTypes e.conflict e.fromKnownTable

/-- A candidate is a pair that was found, with its confidence. -/
theorem candidate_of_foldl {entries : List ((String × String) × PairEntry)}
    {byNf : Dict String (List Candidate)} {P : String → Candidate → Prop}
    (hentries : ∀ nf spec e, ((nf, spec), e) ∈ entries → P nf ⟨spec, e.conf, e⟩)
    (hbyNf : ∀ nf cands, byNf.get? nf = some cands → ∀ c ∈ cands, P nf c) :
    ∀ nf cands, (entries.foldl addCandidate byNf).get? nf = some cands → ∀ c ∈ cands, P nf c := by
  induction entries generalizing byNf with
  | nil => exact hbyNf
  | cons p entries ih =>
    obtain ⟨⟨nf', spec'⟩, e'⟩ := p
    refine ih (fun nf spec e he => hentries nf spec e (List.mem_cons_of_mem _ he)) ?_
    intro nf cands hget c hc
    rw [addCandidate, Dict.get?_set] at hget
    split_ifs at hget with hnf
    · obtain rfl : nf = nf' := hnf
      rw [← Option.some.inj hget, List.mem_append, List.mem_singleton] at hc
      obtain hc | rfl := hc
      · cases hold : byNf.get? nf with
        | none =>
          rw [hold] at hc
          cases hc
        | some old =>
          rw [hold] at hc
          exact hbyNf nf old hold c hc
      · exact hentries nf spec' e' List.mem_cons_self
    · exact hbyNf nf cands hget c hc

/-- The candidate is a directory of the tree with the entry its files make up. -/
def Backed (u : Unicode) (vote : String → SpecFile → FileVote) (tree : SpecsTree) (nf : String)
    (c : Candidate) : Prop :=
  ∃ sd ∈ tree.dirs, sd.name = c.spec ∧ Gathered u vote sd nf c.entry ∧ c.conf = c.entry.conf

/-- A network function that is reported has a primary directory, whose files it is judged by. -/
theorem scanWith_spec (tree : SpecsTree) {nf : String} {e : NfEntry}
    (h : (nf, e) ∈ scanWith u vote tree) :
    ∃ sd ∈ tree.dirs, sd.name = e.primarySpec ∧
      ∃ p, Gathered u vote sd nf p ∧ e.primarySpecConfidence = p.conf := by
  rw [scanWith, List.mem_insertionSort, List.mem_filterMap] at h
  obtain ⟨⟨nf', cands⟩, hcands, h⟩ := h
  obtain ⟨e', hentry, heq⟩ := Option.map_eq_some_iff.1 h
  cases heq
  have hpairs : ∀ nf spec p, ((nf, spec), p) ∈ (pairAcc u vote tree).entries →
      Backed u vote tree nf ⟨spec, p.conf, p⟩ := fun nf spec p hp => by
    obtain ⟨sd, hsd, hname, hgathered⟩ := gathered_pairAcc tree hp
    exact ⟨sd, hsd, hname, hgathered, rfl⟩
  have hstart : ∀ nf cands, (Dict.empty : Dict String (List Candidate)).get? nf = some cands →
      ∀ c ∈ cands, Backed u vote tree nf c := fun nf cands hget => by cases hget
  have hcand := candidate_of_foldl hpairs hstart nf' cands ((Dict.get?_eq_some_iff _).2 hcands)
  rw [nfEntry] at hentry
  cases hsort : cands.insertionSort fun c d => c.ahead d = true with
  | nil =>
    rw [hsort] at hentry
    cases hentry
  | cons prim supporting =>
    have hprim : prim ∈ cands := by
      have hin : prim ∈ cands.insertionSort fun c d => c.ahead d = true := by
        rw [hsort]
        exact List.mem_cons_self
      simpa using hin
    rw [hsort] at hentry
    cases hentry
    obtain ⟨sd, hsd, hname, hgathered, hconf⟩ := hcand prim hprim
    exact ⟨sd, hsd, hname, prim.entry, hgathered, hconf⟩

theorem PairEntry.high_iff {e : PairEntry} (h : e.fromKnownTable = false) :
    e.conf = .high ↔ e.conflict = false ∧ 2 ≤ e.signalTypes.card := by
  simp only [PairEntry.conf, confidence, h, Bool.false_and, Bool.false_eq_true, if_false]
  split_ifs with hconflict htwo hone
  · simp [hconflict]
  · simp [hconflict, htwo]
  · simp [htwo]
  · simp [htwo]

end gathered

section policy

variable {u : Unicode}

/-- Two types of signal name the network function in these files, and no signal names another. -/
def Policy (u : Unicode) (files : List SpecFile) (nf : String) : Prop :=
  2 ≤ (Finset.univ.filter fun t => ∃ f ∈ files, nf ∈ namedBy u f t).card ∧
    ∀ f ∈ files, ¬Dissents u f nf

instance (u : Unicode) (f : SpecFile) (nf : String) : Decidable (Dissents u f nf) :=
  inferInstanceAs (Decidable (∃ t, ∃ n ∈ namedBy u f t, n ≠ nf))

instance (u : Unicode) (files : List SpecFile) (nf : String) : Decidable (Policy u files nf) :=
  inferInstanceAs (Decidable (_ ∧ _))

/-- Some file is contested, or none of them has a signal for another network function. -/
def Settled (u : Unicode) (files : List SpecFile) (nf : String) : Prop :=
  (∃ f ∈ files, Contested u f) ∨ ∀ f ∈ files, ¬Dissents u f nf

theorem high_iff_policy {files : List SpecFile} {nf : String} {types : Finset SignalType}
    (it : SpecFile → Iteration)
    (hfiles : ∀ f ∈ files, (fileVote u (it f) f).nf = some nf)
    (htypes : ∀ t, t ∈ types ↔ ∃ f ∈ files, t ∈ signalTypes u (it f) f) :
    ((¬∃ f ∈ files, Contested u f) ∧ 2 ≤ types.card ↔ Policy u files nf) ↔
      Settled u files nf := by
  by_cases hcontested : ∃ f ∈ files, Contested u f
  · -- neither side is high
    obtain ⟨f, hf, hcf⟩ := hcontested
    refine iff_of_true (iff_of_false (fun h => h.1 ⟨f, hf, hcf⟩) fun h => ?_) (.inl ⟨f, hf, hcf⟩)
    exact h.2 f hf hcf.dissents
  · by_cases hdissents : ∀ f ∈ files, ¬Dissents u f nf
    · refine iff_of_true ?_ (.inr hdissents)
      have hsame : types = Finset.univ.filter fun t => ∃ f ∈ files, nf ∈ namedBy u f t := by
        ext t
        rw [htypes, Finset.mem_filter_univ]
        constructor
        · rintro ⟨f, hf, ht⟩
          obtain ⟨n, hn⟩ := (mem_signalTypes (it f) f t).1 ht
          have hnf : n = nf := by_contra fun hne => hdissents f hf ⟨t, n, hn, hne⟩
          exact ⟨f, hf, hnf ▸ hn⟩
        · rintro ⟨f, hf, hn⟩
          exact ⟨f, hf, (mem_signalTypes (it f) f t).2 ⟨nf, hn⟩⟩
      rw [hsame]
      exact ⟨fun h => ⟨h.2, hdissents⟩, fun h => ⟨hcontested, h.1⟩⟩
    · -- two signals outvote the third
      have hnot : ¬Settled u files nf := fun h => h.elim hcontested hdissents
      refine iff_of_false (fun h => hdissents (h.1 ⟨hcontested, ?_⟩).2) hnot
      simp only [not_forall, not_not] at hdissents
      obtain ⟨f, hf, hdf⟩ := hdissents
      have htwo := two_types (it f) (fun hcf => hcontested ⟨f, hf, hcf⟩)
        (exists_named (it f) f (hfiles f hf)) hdf
      exact htwo.trans (Finset.card_le_card fun t ht => (htypes t).2 ⟨f, hf, ht⟩)

def treeDirs (tree : Option SpecsTree) : List SpecDir := tree.elim [] SpecsTree.dirs

/-- The YAML files of a specification that go to the network function. -/
def primaryFiles (u : Unicode) (it : String → SpecFile → Iteration) (tree : Option SpecsTree)
    (spec nf : String) : List SpecFile :=
  ((treeDirs tree).filter fun sd => sd.name = spec).flatMap fun sd =>
    (yamlFiles u sd).filter fun f => (fileVote u (it spec f) f).nf = some nf

theorem filter_name {dirs : List SpecDir} (hdistinct : (dirs.map SpecDir.name).Nodup) {sd : SpecDir}
    (h : sd ∈ dirs) : (dirs.filter fun sd' => sd'.name = sd.name) = [sd] := by
  induction dirs with
  | nil => cases h
  | cons d dirs ih =>
    obtain ⟨hfresh, hrest⟩ := List.nodup_cons.1 hdistinct
    obtain rfl | h := List.mem_cons.1 h
    · have hnone : (dirs.filter fun sd' => sd'.name = sd.name) = [] := by
        rw [List.filter_eq_nil_iff]
        exact fun d hd hname => hfresh (List.mem_map.2 ⟨d, hd, of_decide_eq_true hname⟩)
      rw [List.filter_cons_of_pos (by simp), hnone]
    · have hne : d.name ≠ sd.name := fun hname =>
        hfresh (List.mem_map.2 ⟨sd, h, hname.symm⟩)
      rw [List.filter_cons_of_neg (by simpa using hne), ih hrest h]

/-- High confidence is what the policy says just where the files are settled, and no set's order
shows in the registry. -/
theorem confidence_iff (u : Unicode) (it : String → SpecFile → Iteration)
    (tree : Option SpecsTree) :
    (∀ nf e, (nf, e) ∈ scanSpecs u it tree →
      ((e.primarySpecConfidence = .high ↔ Policy u (primaryFiles u it tree e.primarySpec nf) nf) ↔
        Settled u (primaryFiles u it tree e.primarySpec nf) nf)) ∧
    ∀ it', scanSpecs u it' tree = scanSpecs u it tree := by
  constructor
  · intro nf e h
    cases tree with
    | none => cases h
    | some tree =>
      obtain ⟨sd, hsd, hname, p, hgathered, hconf⟩ := scanWith_spec tree h
      have hfiles : primaryFiles u it (some tree) e.primarySpec nf =
          attributed u (fun spec f => fileVote u (it spec f) f) sd nf := by
        have hdirs : (treeDirs (some tree)).filter (fun sd => sd.name = e.primarySpec) = [sd] := by
          rw [← hname]
          exact filter_name tree.distinct hsd
        rw [primaryFiles, hdirs, List.flatMap_singleton, ← hname]
        rfl
      have hnamed : ∀ f ∈ attributed u (fun spec f => fileVote u (it spec f) f) sd nf,
          (fileVote u (it sd.name f) f).nf = some nf := fun f hf => by
        simpa using (List.mem_filter.1 hf).2
      have hcontested : p.conflict = false ↔
          ¬∃ f ∈ attributed u (fun spec f => fileVote u (it spec f) f) sd nf, Contested u f := by
        rw [← Bool.not_eq_true, hgathered.conflict]
        simp only [fileVote_conflict_iff]
      rw [hfiles, hconf, PairEntry.high_iff hgathered.found, hcontested]
      exact high_iff_policy (it sd.name) hnamed hgathered.types
  · intro it'
    have hvote : (fun spec f => fileVote u (it' spec f) f) =
        fun spec f => fileVote u (it spec f) f :=
      funext fun spec => funext fun f => fileVote_order (it' spec f) f (it spec f)
    cases tree with
    | none => rfl
    | some tree => rw [scanSpecs, scanSpecs, hvote]

/-- Tables that end with ASCII. -/
def asciiText : Unicode where
  words := ⟨fun c => c == '_' || c.isAlphanum, fun _ _ => Bool.or_comm _ _⟩
  lower := List.map Char.toLower

def inOrder : Iteration where
  types :=
    { list := fun s => [.filename, .title, .path].filter (· ∈ s)
      nodup := fun s => (by decide : [SignalType.filename, .title, .path].Nodup).filter _
      mem := fun s t => by cases t <;> simp }
  nfs :=
    { list := fun s => s.sort (· ≤ ·)
      nodup := fun s => s.sort_nodup (· ≤ ·)
      mem := fun s a => s.mem_sort (· ≤ ·) }

/-- One document with this path. -/
def oneFile (path : String) : SpecsTree where
  dirs :=
    [⟨"29.531", [⟨"TS29531_Nnssf_NSSelection.yaml", some ⟨some "NSSF NS Selection", [path]⟩⟩]⟩]
  distinct := List.nodup_singleton _

def oneFileEntry : NfEntry where
  primarySpec := "29.531"
  primarySpecConfidence := .high
  discoverySource := "auto"
  discoveredFrom := ["specs/29.531/"]
  supportingSpecs := []
  yaml := ["TS29531_Nnssf_NSSelection.yaml"]
  docx := []
  rationale := "signals=filename,path,title"

theorem confidence_agreed :
    oneFileEntry.primarySpecConfidence = .high ↔ Policy asciiText
      (primaryFiles asciiText (fun _ _ => inOrder) (some (oneFile "/nnssf-nsselection/v2")) "29.531"
        "nssf") "nssf" := by
  have hreported : ("nssf", oneFileEntry) ∈ scanSpecs asciiText (fun _ _ => inOrder)
      (some (oneFile "/nnssf-nsselection/v2")) := by decide +kernel
  have hagreed : ∀ f ∈ primaryFiles asciiText (fun _ _ => inOrder)
      (some (oneFile "/nnssf-nsselection/v2")) "29.531" "nssf", ¬Dissents asciiText f "nssf" := by
    decide +kernel
  exact ((confidence_iff asciiText (fun _ _ => inOrder)
    (some (oneFile "/nnssf-nsselection/v2"))).1 "nssf" oneFileEntry hreported).2 (.inr hagreed)

/-- The name of the file and its title outvote the path. -/
theorem confidence_outvoted : ¬∀ (u : Unicode) (it : String → SpecFile → Iteration)
    (tree : Option SpecsTree),
    (∀ nf e, (nf, e) ∈ scanSpecs u it tree →
      (e.primarySpecConfidence = .high ↔
        Policy u (primaryFiles u it tree e.primarySpec nf) nf)) ∧
    ∀ it', scanSpecs u it' tree = scanSpecs u it tree := by
  intro h
  have hreported : ("nssf", oneFileEntry) ∈ scanSpecs asciiText (fun _ _ => inOrder)
      (some (oneFile "/namf-comm/v1")) := by decide +kernel
  have hno : ¬Policy asciiText (primaryFiles asciiText (fun _ _ => inOrder)
      (some (oneFile "/namf-comm/v1")) "29.531" "nssf") "nssf" := by decide +kernel
  exact hno (((h asciiText (fun _ _ => inOrder) (some (oneFile "/namf-comm/v1"))).1 "nssf"
    oneFileEntry hreported).1 rfl)

end policy

end Nssf.Design.NfRegistry
