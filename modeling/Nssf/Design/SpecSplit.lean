import Nssf.Base.Dict
import Nssf.Base.PyText

/-! Splitting the text of a specification into one file per section. A heading line opens a
section, an annex line opens an annex and takes its title from the lines below when it has none
of its own, and every other line goes to the section that is open. -/

namespace Nssf.Design

open Base PyText

inductive SectionKind where
  | front
  | body
  | annex
  deriving DecidableEq

structure Section where
  kind : SectionKind
  fileStem : String
  sectionId : String
  title : String
  lines : List String
  deriving DecidableEq

namespace SpecSplit

def isAlnum (c : Char) : Bool :=
  ('A' ≤ c && c ≤ 'Z') || ('a' ≤ c && c ≤ 'z') || ('0' ≤ c && c ≤ '9')

/-- Each run of other characters becomes one hyphen. -/
def hyphenated : List Char → List Char
  | [] => []
  | c :: cs =>
    if isAlnum c then c :: hyphenated cs
    else
      match hyphenated cs with
      | '-' :: rest => '-' :: rest
      | rest => '-' :: rest

def slugify (text : String) : String :=
  let slug := (((hyphenated text.toList).dropWhile (· == '-')).rdropWhile (· == '-')).map
    Char.toLower
  if slug.isEmpty then "section" else String.ofList slug

/-- `\t\d+\s*$`: the page number at the end of a line of the table of contents. -/
def tocTail (line : List Char) : Bool :=
  let trimmed := rstrip line
  trimmed.reverse.head?.any isDigit && (trimmed.rdropWhile isDigit).getLast? == some '\t'

/-- `\d+(?:\.\d+)*`: the parts of the number and what is left of the line. -/
def numberParts : ℕ → List Char → Option (List (List Char) × List Char)
  | 0, _ => none
  | fuel + 1, cs =>
    let part := cs.takeWhile isDigit
    if part.isEmpty then none
    else
      match cs.dropWhile isDigit with
      | '.' :: rest =>
        match numberParts fuel rest with
        | some (parts, rest) => some (part :: parts, rest)
        | none => some ([part], '.' :: rest)
      | rest => some ([part], rest)

structure Heading where
  parts : List (List Char)
  title : String
  deriving DecidableEq

def isBlank (c : Char) : Bool := c == ' ' || c == '\t'

/-- The number ends at a blank, and the title begins after the blanks. -/
def isBodyHeading (line : String) : Option Heading :=
  let cs := line.toList
  if tocTail cs then none
  else
    match numberParts cs.length cs with
    | none => none
    | some (parts, rest) =>
      let title := rest.dropWhile isBlank
      if rest.head?.any isBlank && title.head?.any (!isSpace ·) then
        some ⟨parts, String.ofList (rstrip title)⟩
      else none

def Heading.num (h : Heading) : String := ".".intercalate (h.parts.map String.ofList)

/-- The clauses before the fourth, which are kept together. -/
def Heading.isIntro (h : Heading) : Bool :=
  h.parts.head?.any fun part => part == ['1'] || part == ['2'] || part == ['3']

/-- The file of a clause, or of a subclause of clause 6. -/
def Heading.stem? (h : Heading) : Option String :=
  match h.parts with
  | [part] =>
    if part = ['6'] then some ("06-0-" ++ slugify h.title)
    else some (twoDigits (intOf part) ++ "-" ++ slugify h.title)
  | [part, sub] =>
    if part = ['6'] then some ("06-" ++ toString (intOf sub) ++ "-" ++ slugify h.title) else none
  | _ => none

/-- The file that the heading opens, if it opens one. -/
def Heading.opens? (h : Heading) : Option String := if h.isIntro then none else h.stem?

structure AnnexLine where
  letter : Char
  kind : String
  title : String
  deriving DecidableEq

/-- `(?:\((?P<kind>[^)]*)\))?` -/
def annexKind (cs : List Char) : String × List Char :=
  match cs with
  | '(' :: rest =>
    match rest.dropWhile (· != ')') with
    | ')' :: after => (String.ofList (strip (rest.takeWhile (· != ')'))), after)
    | _ => ("", cs)
  | _ => ("", cs)

def annexMatch (line : String) : Option AnnexLine :=
  match line.toList with
  | 'A' :: 'n' :: 'n' :: 'e' :: 'x' :: rest =>
    match rest.dropWhile isSpace with
    | letter :: after =>
      if rest.head?.any isSpace && ('A' ≤ letter && letter ≤ 'Z') then
        let (kind, after) := annexKind (after.dropWhile isSpace)
        let after := match after with
          | ':' :: after => after
          | after => after
        some ⟨letter, kind, String.ofList (strip after)⟩
      else none
    | [] => none
  | _ => none

/-- The title of an annex, and how many of the lines below it are taken with it. -/
def annexTitle (a : AnnexLine) (below : List String) : String × ℕ :=
  if a.title = "" then
    let blank := below.takeWhile fun l => (strip l.toList).isEmpty
    match below.drop blank.length with
    | line :: _ => (stripText line, blank.length + 1)
    | [] => ("", 0)
  else (a.title, 0)

def annexSection (a : AnnexLine) (title : String) : Section where
  kind := .annex
  fileStem := "annex-" ++ String.ofList [a.letter.toLower] ++ "-" ++ slugify title
  sectionId := "Annex " ++ String.ofList [a.letter]
  title := "Annex " ++ String.ofList [a.letter] ++
    (if a.kind = "" then "" else " (" ++ a.kind ++ ")") ++
    (if title = "" then "" else ": " ++ title)
  lines := []

/-- `current` is the place of the open section; it has none when it is not in the list. -/
structure Splitter where
  sections : List Section
  current : Option ℕ
  inAnnex : Bool
  pastIntro : Bool

def front : Section where
  kind := .front
  fileStem := "00-front"
  sectionId := "1-3"
  title := "Scope, References, Definitions"
  lines := []

def Splitter.append (st : Splitter) (line : String) : Splitter :=
  match st.current with
  | some i =>
    { st with sections := st.sections.modify i fun s => { s with lines := s.lines ++ [line] } }
  | none => st

/-- A new section equal to one in the list becomes current without joining it. -/
def Splitter.switch (st : Splitter) (s : Section) : Splitter :=
  if s ∈ st.sections then { st with current := none }
  else { st with sections := st.sections ++ [s], current := some st.sections.length }

def Splitter.openBody (st : Splitter) (h : Heading) : Splitter :=
  if h.isIntro then
    if st.pastIntro then st else { st with current := some 0 }
  else
    match h.stem? with
    | some stem =>
      { st with pastIntro := true }.switch ⟨.body, stem, h.num, h.title, []⟩
    | none => { st with pastIntro := true }

def Splitter.openAnnex (st : Splitter) (a : AnnexLine) (title : String) : Splitter :=
  { st with
    sections := st.sections ++ [annexSection a title]
    current := some st.sections.length
    inAnnex := true }

/-- The lines from `start` on; `taken` of them go with the annex above. -/
def scan (st : Splitter) : ℕ → List String → Splitter
  | _, [] => st
  | taken + 1, line :: below => scan (st.append line) taken below
  | 0, line :: below =>
    match annexMatch line with
    | some a =>
      let (title, taken) := annexTitle a below
      scan ((st.openAnnex a title).append line) taken below
    | none =>
      match if st.inAnnex then none else isBodyHeading line with
      | some h => scan ((st.openBody h).append line) 0 below
      | none => scan (st.append line) 0 below

def splitSections (lines : List String) (start : ℕ) : List Section :=
  (scan ⟨[front], some 0, false, false⟩ 0 (lines.drop start)).sections

/-- `str.replace` of one character by a text. -/
def replaceChar (c : Char) (new : List Char) (s : String) : String :=
  String.ofList (s.toList.flatMap fun d => if d = c then new else [d])

def escapePipe (s : String) : String := replaceChar '|' ['\\', '|'] s

def yamlEscape (s : String) : String :=
  "\"" ++ replaceChar '"' ['\\', '"'] (replaceChar '\\' ['\\', '\\'] s) ++ "\""

/-- What a run knows of its document. -/
structure Source where
  spec : String
  docxRel : String
  mtime : String

def bodyText (s : Section) : String := rstripText (joinLines s.lines)

def chars (s : Section) : ℕ := (bodyText s).length + 1

def buildSectionMd (src : Source) (s : Section) : String :=
  joinLines ["---", "source_spec: \"" ++ src.spec ++ "\"", "source_path: " ++ src.docxRel,
    "source_mtime: " ++ src.mtime, "section: \"" ++ s.sectionId ++ "\"",
    "title: " ++ yamlEscape s.title, "generator: spec-split.py", "generator_version: 1",
    "chars: " ++ toString (chars s), "---", "", "# " ++ s.title, "", bodyText s ++ "\n"]

def fileName (s : Section) : String := s.fileStem ++ ".md"

def label (s : Section) : String :=
  if s.kind = .annex then s.title else s.sectionId ++ " " ++ s.title

def indexRow (s : Section) : String :=
  "| `" ++ fileName s ++ "` | " ++ escapePipe (label s) ++ " | " ++ toString (chars s) ++ " |"

def stored (sections : List Section) : List Section := sections.filter fun s => !s.lines.isEmpty

def indexText (src : Source) (sections : List Section) : String :=
  joinLines (["# `" ++ src.spec ++ "` _extracted index", "", "- source — `" ++ src.docxRel ++ "`",
    "- source_mtime — `" ++ src.mtime ++ "`", "- generator — `spec-split.py` v1", "",
    "| file | section | chars |", "| --- | --- | --- |"] ++
    (stored sections).map indexRow ++ [""])

/-- The files after a run, each with the last text that was written to it. -/
def writeOutputs (src : Source) (sections : List Section) : Dict String String :=
  Dict.ofList ((stored sections).map (fun s => (fileName s, buildSectionMd src s)) ++
    [("_index.md", indexText src sections)])

/-- The file stem that a heading line opens outside the annexes. -/
def bodyStem? (line : String) : Option String :=
  (isBodyHeading line).bind Heading.opens?

/-- The file stems that the heading lines of a text open, in order. -/
def openedStems : Bool → ℕ → List String → List String
  | _, _, [] => []
  | inAnnex, taken + 1, _ :: below => openedStems inAnnex taken below
  | inAnnex, 0, line :: below =>
    match annexMatch line with
    | some a =>
      let (title, taken) := annexTitle a below
      (annexSection a title).fileStem :: openedStems true taken below
    | none =>
      match if inAnnex then none else bodyStem? line with
      | some stem => stem :: openedStems inAnnex 0 below
      | none => openedStems inAnnex 0 below

/-- Whether no line goes to the front. -/
def opensFirst : List String → Bool
  | [] => true
  | line :: _ => (annexMatch line).isSome || (bodyStem? line).isSome

def stems (lines : List String) : List String :=
  (if opensFirst lines then [] else ["00-front"]) ++ openedStems false 0 lines

/-- The text is in the sections, and each section that has any is in a file of its own, which
the index describes. -/
structure Lossless (src : Source) (lines : List String) (start : ℕ) : Prop where
  whole : (splitSections lines start).flatMap Section.lines = lines.drop start
  apart : ((stored (splitSections lines start)).map fileName).Nodup
  kept : ∀ s ∈ stored (splitSections lines start),
    (writeOutputs src (splitSections lines start)).get? (fileName s) =
      some (buildSectionMd src s)
  text : ∀ s ∈ stored (splitSections lines start), ∃ head,
    buildSectionMd src s = head ++ bodyText s ++ "\n"
  indexed : (writeOutputs src (splitSections lines start)).get? "_index.md" =
    some (indexText src (splitSections lines start))

section splitting

variable {st : Splitter} {done : List Section} {cur : Section}

def addLines (s : Section) (ls : List String) : Section := { s with lines := s.lines ++ ls }

theorem addLines_nil (s : Section) : addLines s [] = s := by
  cases s
  simp [addLines]

theorem addLines_add (s : Section) (ls ms : List String) :
    addLines (addLines s ls) ms = addLines s (ls ++ ms) := by
  simp [addLines]

theorem modify_concat {α : Type} (f : α → α) (l : List α) (a : α) :
    (l ++ [a]).modify l.length f = l ++ [f a] := by
  induction l with
  | nil => rfl
  | cons b l ih => exact congrArg (b :: ·) ih

/-- The section that is open is the last one, and of those before it only the front can be
empty. -/
structure At (st : Splitter) (done : List Section) (cur : Section) : Prop where
  sections : st.sections = done ++ [cur]
  current : st.current = some done.length
  filled : ∀ s ∈ done, s.lines = [] → s.kind = .front
  intro : st.pastIntro = false → st.inAnnex = false → done = []

theorem At.append (h : At st done cur) (line : String) :
    At (st.append line) done (addLines cur [line]) := by
  have happend : st.append line =
      { st with sections := done ++ [addLines cur [line]] } := by
    simp only [Splitter.append, h.current, h.sections, modify_concat]
    rfl
  rw [happend]
  exact ⟨rfl, h.current, h.filled, h.intro⟩

theorem At.openAnnex (h : At st done cur) (hcur : cur.lines = [] → cur.kind = .front)
    (a : AnnexLine) (title : String) :
    At (st.openAnnex a title) (done ++ [cur]) (annexSection a title) where
  sections := by rw [Splitter.openAnnex, h.sections]
  current := by
    rw [Splitter.openAnnex, h.sections]
  filled s hs := by
    rcases List.mem_append.1 hs with hs | hs
    · exact h.filled s hs
    · rw [List.mem_singleton.1 hs]
      exact hcur
  intro _ hannex := by cases hannex

theorem At.openBody_none (h : At st done cur) (hout : st.inAnnex = false) {b : Heading}
    (hb : b.opens? = none) : At (st.openBody b) done cur := by
  simp only [Heading.opens?] at hb
  simp only [Splitter.openBody]
  split_ifs at hb ⊢ with hintro hpast
  · exact h
  · have hdone := h.intro (Bool.eq_false_iff.2 hpast) hout
    refine ⟨h.sections, ?_, h.filled, h.intro⟩
    rw [hdone]
    rfl
  · rw [hb]
    exact ⟨h.sections, h.current, h.filled, fun hfalse => Bool.noConfusion hfalse⟩

theorem At.openBody_some (h : At st done cur) (hcur : cur.lines = [] → cur.kind = .front)
    {b : Heading} {stem : String} (hb : b.opens? = some stem) :
    At (st.openBody b) (done ++ [cur]) ⟨.body, stem, b.num, b.title, []⟩ := by
  have hnew : (⟨.body, stem, b.num, b.title, []⟩ : Section) ∉ done ++ [cur] := by
    intro hin
    rcases List.mem_append.1 hin with hin | hin
    · cases h.filled _ hin rfl
    · rw [List.mem_singleton] at hin
      rw [← hin] at hcur
      cases hcur rfl
  simp only [Heading.opens?] at hb
  split_ifs at hb with hintro
  simp only [Splitter.openBody, if_neg hintro, hb, Splitter.switch, h.sections, if_neg hnew]
  refine ⟨rfl, rfl, fun s hs => ?_, fun hfalse => Bool.noConfusion hfalse⟩
  rcases List.mem_append.1 hs with hs | hs
  · exact h.filled s hs
  · rw [List.mem_singleton.1 hs]
    exact hcur

theorem inAnnex_append (st : Splitter) (line : String) :
    (st.append line).inAnnex = st.inAnnex := by
  simp only [Splitter.append]
  cases st.current <;> rfl

theorem inAnnex_openBody (st : Splitter) (b : Heading) :
    (st.openBody b).inAnnex = st.inAnnex := by
  simp only [Splitter.openBody]
  split_ifs
  · rfl
  · rfl
  · cases b.stem? with
    | none => rfl
    | some stem =>
      simp only [Splitter.switch]
      split_ifs
      · rfl
      · rfl

/-- What the loop makes of the lines below: more for the section that is open, and new ones. -/
structure Scanned (done : List Section) (cur : Section) (inAnnex : Bool) (taken : ℕ)
    (lines more : List String) (news : List Section) (result : Splitter) : Prop where
  sections : result.sections = done ++ addLines cur more :: news
  whole : more ++ news.flatMap Section.lines = lines
  stems : news.map Section.fileStem = openedStems inAnnex taken lines
  filled : ∀ s ∈ news, s.lines ≠ []
  first : inAnnex = false → taken = 0 → (more = [] ↔ opensFirst lines = true)

theorem Scanned.goes {done : List Section} {cur : Section} {line : String} {inAnnex : Bool}
    {taken taken' : ℕ} {below more : List String} {news : List Section} {result : Splitter}
    (h : Scanned done (addLines cur [line]) inAnnex taken below more news result)
    (hstems : openedStems inAnnex taken' (line :: below) = openedStems inAnnex taken below)
    (hfirst : inAnnex = false → taken' = 0 → opensFirst (line :: below) = false) :
    Scanned done cur inAnnex taken' (line :: below) (line :: more) news result where
  sections := by rw [h.sections, addLines_add, List.singleton_append]
  whole := by rw [List.cons_append, h.whole]
  stems := by rw [h.stems, hstems]
  filled := h.filled
  first hin htaken := by simp [hfirst hin htaken]

theorem Scanned.opens {done : List Section} {cur new : Section} {line : String}
    {inAnnex inAnnex' : Bool} {taken taken' : ℕ} {below more : List String}
    {news : List Section} {result : Splitter} (hnew : new.lines = [])
    (h : Scanned (done ++ [cur]) (addLines new [line]) inAnnex' taken' below more news result)
    (hstems : openedStems inAnnex taken (line :: below) =
      new.fileStem :: openedStems inAnnex' taken' below)
    (hfirst : opensFirst (line :: below) = true) :
    Scanned done cur inAnnex taken (line :: below) [] (addLines new (line :: more) :: news)
      result where
  sections := by
    rw [h.sections, addLines_add, addLines_nil, List.append_assoc]
    rfl
  whole := by
    simp only [List.flatMap_cons, addLines, hnew, List.nil_append, List.cons_append, h.whole]
  stems := by
    rw [List.map_cons, h.stems, hstems]
    rfl
  filled s hs := by
    rcases List.mem_cons.1 hs with hs | hs
    · rw [hs]
      simp [addLines]
    · exact h.filled s hs
  first _ _ := by simp [hfirst]

theorem scan_scanned (lines : List String) {st : Splitter} {done : List Section} {cur : Section}
    (h : At st done cur) (hcur : cur.lines = [] → cur.kind = .front) (taken : ℕ) :
    ∃ more news, Scanned done cur st.inAnnex taken lines more news (scan st taken lines) := by
  induction lines generalizing st done cur taken with
  | nil =>
    refine ⟨[], [], ?_⟩
    cases taken with
    | zero =>
      exact ⟨by rw [addLines_nil]; exact h.sections, rfl, rfl, by simp, fun _ _ => by simp [opensFirst]⟩
    | succ taken =>
      exact ⟨by rw [addLines_nil]; exact h.sections, rfl, rfl, by simp, fun _ _ => by simp [opensFirst]⟩
  | cons line below ih =>
    have hfilled : ∀ s : Section, (addLines s [line]).lines = [] →
        (addLines s [line]).kind = .front := by
      intro s hs
      simp [addLines] at hs
    cases taken with
    | succ taken =>
      obtain ⟨more, news, hrest⟩ := ih (h.append line) (hfilled cur) taken
      rw [inAnnex_append] at hrest
      exact ⟨line :: more, news, hrest.goes rfl fun _ htaken => by cases htaken⟩
    | zero =>
      simp only [scan]
      cases hannex : annexMatch line with
      | some a =>
        have hopen := (h.openAnnex hcur a (annexTitle a below).1).append line
        obtain ⟨more, news, hrest⟩ := ih hopen (hfilled _) (annexTitle a below).2
        rw [inAnnex_append] at hrest
        refine ⟨[], _, hrest.opens rfl ?_ ?_⟩
        · simp only [openedStems, hannex]
          rfl
        · simp [opensFirst, hannex]
      | none =>
        cases hin : st.inAnnex with
        | true =>
          obtain ⟨more, news, hrest⟩ := ih (h.append line) (hfilled cur) 0
          rw [inAnnex_append, hin] at hrest
          refine ⟨line :: more, news, hrest.goes ?_ fun hfalse => by cases hfalse⟩
          simp only [openedStems, hannex, if_true]
        | false =>
          cases hbody : isBodyHeading line with
          | none =>
            obtain ⟨more, news, hrest⟩ := ih (h.append line) (hfilled cur) 0
            rw [inAnnex_append, hin] at hrest
            refine ⟨line :: more, news, hrest.goes ?_ fun _ _ => ?_⟩
            · simp [openedStems, hannex, bodyStem?, hbody]
            · simp [opensFirst, hannex, bodyStem?, hbody]
          | some b =>
            cases hopens : b.opens? with
            | none =>
              obtain ⟨more, news, hrest⟩ :=
                ih ((h.openBody_none hin hopens).append line) (hfilled cur) 0
              rw [inAnnex_append, inAnnex_openBody, hin] at hrest
              refine ⟨line :: more, news, hrest.goes ?_ fun _ _ => ?_⟩
              · simp [openedStems, hannex, bodyStem?, hbody, hopens]
              · simp [opensFirst, hannex, bodyStem?, hbody, hopens]
            | some stem =>
              obtain ⟨more, news, hrest⟩ :=
                ih ((h.openBody_some hcur hopens).append line) (hfilled _) 0
              rw [inAnnex_append, inAnnex_openBody, hin] at hrest
              refine ⟨[], _, hrest.opens rfl ?_ ?_⟩
              · simp [openedStems, hannex, bodyStem?, hbody, hopens]
              · simp [opensFirst, hannex, bodyStem?, hbody, hopens]

theorem at_start : At ⟨[front], some 0, false, false⟩ [] front where
  sections := rfl
  current := rfl
  filled s hs := absurd hs List.not_mem_nil
  intro _ _ := rfl

/-- The sections of a text: the front with the lines before the first heading that opens one,
and a section for each that does. -/
theorem splitSections_eq (lines : List String) (start : ℕ) :
    ∃ more news, splitSections lines start = addLines front more :: news ∧
      more ++ news.flatMap Section.lines = lines.drop start ∧
      (stored (splitSections lines start)).map Section.fileStem = stems (lines.drop start) ∧
      ∀ s ∈ news, s.lines ≠ [] := by
  obtain ⟨more, news, h⟩ := scan_scanned (lines.drop start) at_start (fun _ => rfl) 0
  refine ⟨more, news, h.sections, h.whole, ?_, h.filled⟩
  have hnews : stored news = news := by
    rw [stored, List.filter_eq_self]
    intro s hs
    simpa using h.filled s hs
  have hsplit : splitSections lines start = addLines front more :: news := h.sections
  have hstored : stored (addLines front more :: news) =
      (if more = [] then [] else [addLines front more]) ++ news := by
    rw [← hnews]
    by_cases hmore : more = []
    · simp [stored, addLines, front, hmore]
    · simp [stored, addLines, front, hmore]
  rw [hsplit, hstored, List.map_append, h.stems, stems]
  by_cases hmore : more = []
  · rw [if_pos hmore, if_pos ((h.first rfl rfl).1 hmore)]
    rfl
  · rw [if_neg hmore, if_neg fun hopens => hmore ((h.first rfl rfl).2 hopens)]
    rfl

end splitting

section files

theorem hyphen_mem_append (a b : String) : '-' ∈ (a ++ "-" ++ b).toList := by
  simp only [String.toList_append, List.mem_append]
  exact Or.inl (Or.inr (by decide))

theorem hyphen_of_stem {b : Heading} {stem : String} (h : b.stem? = some stem) :
    '-' ∈ stem.toList := by
  simp only [Heading.stem?] at h
  split at h
  · split_ifs at h
    · cases h
      exact hyphen_mem_append "06-0" _
    · cases h
      exact hyphen_mem_append _ _
  · split_ifs at h
    cases h
    exact hyphen_mem_append _ _
  · cases h

theorem hyphen_of_opened {stem : String} (lines : List String) {inAnnex : Bool} {taken : ℕ}
    (h : stem ∈ openedStems inAnnex taken lines) : '-' ∈ stem.toList := by
  induction lines generalizing inAnnex taken with
  | nil => cases taken <;> cases h
  | cons line below ih =>
    cases taken with
    | succ taken => exact ih h
    | zero =>
      simp only [openedStems] at h
      cases hannex : annexMatch line with
      | some a =>
        rw [hannex] at h
        rcases List.mem_cons.1 h with h | h
        · rw [h]
          exact hyphen_mem_append _ _
        · exact ih h
      | none =>
        rw [hannex] at h
        simp only at h
        cases hbody : (if inAnnex then none else bodyStem? line) with
        | none =>
          rw [hbody] at h
          exact ih h
        | some opened =>
          rw [hbody] at h
          rcases List.mem_cons.1 h with h | h
          · split_ifs at hbody
            obtain ⟨b, -, hopens⟩ := Option.bind_eq_some_iff.1 hbody
            simp only [Heading.opens?] at hopens
            split_ifs at hopens
            rw [h]
            exact hyphen_of_stem hopens
          · exact ih h

theorem hyphen_of_stems {stem : String} {lines : List String} (h : stem ∈ stems lines) :
    '-' ∈ stem.toList := by
  simp only [stems] at h
  rcases List.mem_append.1 h with h | h
  · split_ifs at h
    · cases h
    · rw [List.mem_singleton.1 h]
      decide
  · exact hyphen_of_opened lines h

/-- The file of a section ends with its text. -/
theorem buildSectionMd_eq (src : Source) (s : Section) :
    ∃ head, buildSectionMd src s = head ++ bodyText s ++ "\n" := by
  have hjoin : ∀ ls : List String, ls ≠ [] →
      joinLines (ls ++ [bodyText s ++ "\n"]) = joinLines ls ++ "\n" ++ bodyText s ++ "\n" := by
    intro ls hls
    simp only [joinLines]
    rw [String.intercalate_append_of_ne_nil hls (List.cons_ne_nil _ _),
      String.intercalate_singleton, ← String.append_assoc]
  exact ⟨_, hjoin ["---", _, _, _, _, _, _, _, _, _, _, _, _] (List.cons_ne_nil _ _)⟩

theorem map_fileName (sections : List Section) :
    sections.map fileName = (sections.map Section.fileStem).map fun stem => stem ++ ".md" := by
  rw [List.map_map]
  rfl

theorem fileName_injective : Function.Injective fun stem : String => stem ++ ".md" :=
  fun _ _ h => (String.append_left_inj ".md").1 h

end files

/-- Nothing is lost in the files just when the stems that the heading lines open, and the stem
of the front if a line goes there, are all different. -/
theorem lossless_iff (src : Source) (lines : List String) (start : ℕ) :
    Lossless src lines start ↔ (stems (lines.drop start)).Nodup := by
  obtain ⟨more, news, hsplit, hwhole, hstems, -⟩ := splitSections_eq lines start
  have hnames : (stored (splitSections lines start)).map fileName =
      (stems (lines.drop start)).map fun stem => stem ++ ".md" := by
    rw [map_fileName, hstems]
  constructor
  · intro h
    have hapart := h.apart
    rw [hnames] at hapart
    exact hapart.of_map _
  · intro h
    have hapart : ((stored (splitSections lines start)).map fileName).Nodup := by
      rw [hnames]
      exact h.map fileName_injective
    have hindex : ∀ s ∈ stored (splitSections lines start), fileName s ≠ "_index.md" := by
      intro s hs hname
      have hstem : s.fileStem ∈ stems (lines.drop start) := by
        rw [← hstems]
        exact List.mem_map.2 ⟨s, hs, rfl⟩
      have hsame : s.fileStem = "_index" := fileName_injective hname
      have hhyphen := hyphen_of_stems hstem
      rw [hsame] at hhyphen
      exact absurd hhyphen (by decide)
    refine ⟨?_, hapart, fun s hs => ?_, fun s _ => buildSectionMd_eq src s, ?_⟩
    · rw [hsplit, List.flatMap_cons]
      exact hwhole
    · obtain ⟨before, after, hat⟩ := List.append_of_mem hs
      have hlater : fileName s ∉ ((after.map fun t => (fileName t, buildSectionMd src t)) ++
          [("_index.md", indexText src (splitSections lines start))]).map Prod.fst := by
        rw [List.map_append, List.map_map]
        intro hin
        rcases List.mem_append.1 hin with hin | hin
        · rw [hat, List.map_append, List.map_cons] at hapart
          exact (List.nodup_cons.1 (List.nodup_append.1 hapart).2.1).1 hin
        · exact hindex s hs (List.mem_singleton.1 hin)
      rw [writeOutputs]
      have hlist : (stored (splitSections lines start)).map
            (fun t => (fileName t, buildSectionMd src t)) ++
          [("_index.md", indexText src (splitSections lines start))] =
          before.map (fun t => (fileName t, buildSectionMd src t)) ++
            (fileName s, buildSectionMd src s) ::
              (after.map (fun t => (fileName t, buildSectionMd src t)) ++
                [("_index.md", indexText src (splitSections lines start))]) := by
        rw [hat, List.map_append, List.map_cons, List.append_assoc, List.cons_append]
      rw [hlist]
      exact Dict.get?_ofList_append _ hlater
    · exact Dict.get?_ofList_append _ List.not_mem_nil

/-- Two clauses with one number and one title. -/
def repeatedClause : List String := ["4\tOverview", "first text", "4\tOverview", "second text"]

def sampleSource : Source := ⟨"29.531", "specs/29.531/29531.docx", "0.0"⟩

theorem split_overwrites : ¬Lossless sampleSource repeatedClause 0 := by
  intro h
  obtain ⟨-, -, -, -, hstems, -⟩ := splitSections_eq repeatedClause 0
  have hapart := h.apart
  rw [map_fileName, hstems] at hapart
  have hstem : stems (repeatedClause.drop 0) = ["04-overview", "04-overview"] := by
    decide
  have hnodup := hapart.of_map _
  rw [hstem] at hnodup
  exact absurd hnodup (by decide)

end SpecSplit

end Nssf.Design
