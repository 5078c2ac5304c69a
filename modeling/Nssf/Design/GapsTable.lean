import Nssf.Base.Matches
import Nssf.Design.MdTable

/-! The table of gaps as it is rendered and as it is read back from its section. -/

namespace Nssf.Design

open Base.PyText Base.Matches

abbrev Cells : Type := List (List Char)

def ruled (cell : List Char) : Bool := cell.all fun c => c == '-' || c == ':' || c == ' '

/-- The cells of a line of a table that is not a separator. -/
def tableRow? (line : List Char) : Option Cells :=
  let s := strip line
  if s.head? ≠ some '|' ∨ s.getLast? ≠ some '|' then none
  else if (splitRow s).all ruled then none
  else some (splitRow s)

def tableRows (text : List Char) : List Cells := (splitLines text).filterMap tableRow?

def h2 : List Char := ['#', '#', ' ']

/-- A section ends before the next line that begins a heading. -/
def sectionBody (behind : List Char) : List Char :=
  match splitFirst ('\n' :: h2) behind with
  | none => behind
  | some (body, _) => body

def parseSection (text header : List Char) : List Cells :=
  match splitFirst (h2 ++ header) text with
  | none => []
  | some (_, behind) => (tableRows (h2 ++ header ++ sectionBody behind)).tail

variable {V : Type} (str : V → List Char)

/-- A row that is no mapping is `none`, and so is the value `None`. -/
abbrev GapRow (V : Type) : Type := Option (List (String × Option V))

def gapFields : List String := ["id", "category", "description", "owner", "target_resolution"]

def gapCell (fields : List (String × Option V)) (key : String) : List Char :=
  match fields.lookup key with
  | none => cell id (some ['?'])
  | some value => cell str value

def gapsLines (rows : List (GapRow V)) : List (List Char) :=
  rowText (gapFields.map String.toList) :: "|---|---|---|---|---|".toList ::
    rows.filterMap (Option.map fun fields => rowText (gapFields.map (gapCell str fields)))

def renderGapsTable (rows : List (GapRow V)) : List Char :=
  if rows.isEmpty then "_readiness-config.gaps.rows 부재 — render skip._".toList
  else ['\n'].intercalate (gapsLines str rows)

section lines

theorem tableRow?_nil : tableRow? [] = none := rfl

theorem tableRows_append (a b : List Char) :
    tableRows (a ++ '\n' :: b) = tableRows a ++ tableRows b := by
  have hb : splitLines (a ++ '\n' :: b) = splitLines (a ++ ['\n']) ++ splitLines b :=
    splitLinesFrom_append [] a b
  rw [tableRows, hb, List.filterMap_append]
  obtain hend | hend : splitLines (a ++ ['\n']) = splitLines a ∨
      splitLines (a ++ ['\n']) = splitLines a ++ [[]] := splitLinesFrom_end [] a
  · rw [hend]
    rfl
  · rw [hend, List.filterMap_append, List.filterMap_cons_none tableRow?_nil, List.filterMap_nil,
      List.append_nil]
    rfl

theorem tableRows_lines (l : List Char) (ls : List (List Char)) :
    tableRows (l ++ ls.flatMap fun l => '\n' :: l) = tableRows l ++ ls.flatMap tableRows := by
  induction ls generalizing l with
  | nil => simp
  | cons l' ls ih =>
    rw [List.flatMap_cons, List.cons_append, tableRows_append, ih, List.flatMap_cons]

/-- Lines that are joined, each but the first behind its line feed. -/
theorem intercalate_lines (l : List Char) (ls : List (List Char)) :
    ['\n'].intercalate (l :: ls) = l ++ ls.flatMap fun l => '\n' :: l := by
  induction ls generalizing l with
  | nil => simp
  | cons l' ls ih =>
    rw [List.intercalate_cons_cons, ih, List.flatMap_cons, List.append_assoc]
    rfl

theorem tableRows_solid {l : List Char} (h : ∀ c ∈ l, isLineBreak c = false) :
    tableRows l = (tableRow? l).toList := by
  rw [tableRows, splitLines, splitLinesFrom_solid h, List.nil_append]
  split_ifs with hnil
  · rw [hnil]
    rfl
  · cases hrow : tableRow? l <;> simp [hrow]

theorem strip_cons {c : Char} (hc : isSpace c = false) (cs : List Char) :
    (strip (c :: cs)).head? = some c := by
  have hr : ∃ rest, rstrip (c :: cs) = c :: rest := by
    obtain ⟨rest, hrest⟩ := List.rdropWhile_prefix isSpace (l := c :: cs)
    cases hstrip : rstrip (c :: cs) with
    | nil =>
      have hall := List.rdropWhile_eq_nil_iff.1 hstrip c List.mem_cons_self
      rw [hc] at hall
      cases hall
    | cons d ds =>
      rw [rstrip] at hstrip
      rw [hstrip, List.cons_append, List.cons.injEq] at hrest
      exact ⟨ds, by rw [hrest.1]⟩
  obtain ⟨rest, hrest⟩ := hr
  rw [strip, hrest, lstrip, List.dropWhile_cons_of_neg (by simp [hc])]
  rfl

theorem tableRow?_of_head {c : Char} (hc : isSpace c = false) (hpipe : c ≠ '|') (cs : List Char) :
    tableRow? (c :: cs) = none := by
  rw [tableRow?]
  refine if_pos (.inl ?_)
  rw [strip_cons hc]
  exact fun h => hpipe (Option.some.inj h)

end lines

section rows

theorem tableRow?_rowText {cells : Cells} (hne : cells ≠ []) (h : ∀ w ∈ cells, Trimmed w) :
    tableRow? (rowText (cells.map escapePipes)) =
      if cells.all ruled then none else some cells := by
  have hlast : (rowText (cells.map escapePipes)).getLast? = some '|' := by
    rw [rowText, List.getLast?_append]
    rfl
  have hsplit : splitRow (rowText (cells.map escapePipes)) = cells := by
    rw [splitRow_rowText]
    exact splitCells_row hne h
  rw [tableRow?, strip_rowText, hsplit]
  exact if_neg (by rw [hlast]; simp [rowText])

theorem escapePipes_solid {w : List Char} (h : ∀ c ∈ w, isLineBreak c = false) :
    ∀ c ∈ escapePipes w, isLineBreak c = false := by
  induction w with
  | nil => exact h
  | cons c w ih =>
    have htail := ih fun x hx => h x (List.mem_cons_of_mem c hx)
    by_cases hc : c = '|'
    · subst hc
      rw [escapePipes]
      exact List.forall_mem_cons.2 ⟨rfl, List.forall_mem_cons.2 ⟨rfl, htail⟩⟩
    · rw [escapePipes_cons hc]
      exact List.forall_mem_cons.2 ⟨h c List.mem_cons_self, htail⟩

theorem collapse_solid {cs : List Char} : ∀ c ∈ collapse cs, isLineBreak c = false := by
  intro c hc
  by_contra hbreak
  have hspace := collapse_blank hc (isSpace_of_isLineBreak (by simpa using hbreak))
  subst hspace
  exact hbreak rfl

theorem rowText_solid {cells : Cells} (h : ∀ w ∈ cells, ∀ c ∈ w, isLineBreak c = false) :
    ∀ c ∈ rowText cells, isLineBreak c = false := by
  have hends : ∀ c, c = ' ' ∨ c = '|' → isLineBreak c = false := by
    rintro c (rfl | rfl) <;> rfl
  have hinner : ∀ c ∈ [' ', '|', ' '].intercalate cells, isLineBreak c = false := by
    intro c hc
    induction cells with
    | nil => cases hc
    | cons w cells ih =>
      cases cells with
      | nil =>
        rw [List.intercalate_singleton] at hc
        exact h w List.mem_cons_self c hc
      | cons w' cells =>
        rw [List.intercalate_cons_cons, List.mem_append, List.mem_append] at hc
        rcases hc with (hc | hc) | hc
        · exact h w List.mem_cons_self c hc
        · exact hends c (by simpa [or_comm, or_assoc] using hc)
        · exact ih (fun x hx => h x (List.mem_cons_of_mem w hx)) hc
  intro c hc
  rw [rowText, List.mem_append, List.mem_append] at hc
  rcases hc with (hc | hc) | hc
  · exact hends c (by simpa [or_comm] using hc)
  · exact hinner c hc
  · exact hends c (by simpa using hc)

/-- What `dict.get` with the question mark gives, as text. -/
def gapValue (fields : List (String × Option V)) (key : String) : List Char :=
  match fields.lookup key with
  | none => ['?']
  | some none => []
  | some (some value) => str value

/-- One list of cells for each mapping, each the text of the value with its blanks collapsed. -/
def gapCells (rows : List (GapRow V)) : List Cells :=
  rows.filterMap (Option.map fun fields =>
    gapFields.map fun key => collapse (gapValue str fields key))

theorem gapCell_eq (fields : List (String × Option V)) (key : String) :
    gapCell str fields key = escapePipes (collapse (gapValue str fields key)) := by
  unfold gapCell gapValue
  cases fields.lookup key with
  | none => exact cell_some id ['?']
  | some value =>
    cases value with
    | none => rfl
    | some v => exact cell_some str v

def gapNames : Cells := gapFields.map String.toList

theorem gapRow_solid (fields : List (String × Option V)) :
    ∀ c ∈ rowText (gapFields.map (gapCell str fields)), isLineBreak c = false := by
  refine rowText_solid fun w hw => ?_
  obtain ⟨key, -, rfl⟩ := List.mem_map.1 hw
  rw [gapCell_eq]
  exact escapePipes_solid collapse_solid

/-- A rendered row, as a line and as it is read. -/
theorem tableRows_gapRow (fields : List (String × Option V)) :
    tableRows (rowText (gapFields.map (gapCell str fields))) =
      [gapFields.map fun key => collapse (gapValue str fields key)].filter (!·.all ruled) := by
  have hcells : gapFields.map (gapCell str fields) =
      (gapFields.map fun key => collapse (gapValue str fields key)).map escapePipes := by
    rw [List.map_map]
    exact List.map_congr_left fun key _ => gapCell_eq str fields key
  have htrim : ∀ w ∈ gapFields.map fun key => collapse (gapValue str fields key), Trimmed w := by
    intro w hw
    obtain ⟨key, -, rfl⟩ := List.mem_map.1 hw
    exact trimmed_collapse _
  have hne : gapFields.map (fun key => collapse (gapValue str fields key)) ≠ [] := by
    simp [gapFields]
  rw [tableRows_solid (gapRow_solid str fields), hcells, tableRow?_rowText hne htrim]
  cases hruled : (gapFields.map fun key => collapse (gapValue str fields key)).all ruled with
  | true => rw [List.filter_singleton, hruled]; rfl
  | false => rw [List.filter_singleton, hruled]; rfl

theorem tableRows_gapRows (rows : List (GapRow V)) :
    (rows.filterMap (Option.map fun fields =>
      rowText (gapFields.map (gapCell str fields)))).flatMap tableRows =
      (gapCells str rows).filter (!·.all ruled) := by
  induction rows with
  | nil => rfl
  | cons row rows ih =>
    cases row with
    | none => exact ih
    | some fields =>
      have hcells : gapCells str (some fields :: rows) =
          [gapFields.map fun key => collapse (gapValue str fields key)] ++ gapCells str rows := rfl
      rw [hcells, List.filter_append, ← tableRows_gapRow, ← ih]
      rfl

theorem tableRows_renderGapsTable (rows : List (GapRow V)) :
    tableRows (renderGapsTable str rows) =
      if rows.isEmpty then [] else gapNames :: (gapCells str rows).filter (!·.all ruled) := by
  have hnone : tableRows "_readiness-config.gaps.rows 부재 — render skip._".toList = [] := by
    decide +kernel
  have hnames : tableRows (rowText (gapFields.map String.toList)) = [gapNames] := by
    decide +kernel
  have hrule : tableRows "|---|---|---|---|---|".toList = [] := by decide +kernel
  rw [renderGapsTable]
  split_ifs with hempty
  · exact hnone
  · rw [gapsLines, intercalate_lines, tableRows_lines, List.flatMap_cons, hnames, hrule,
      tableRows_gapRows]
    rfl

end rows

section sections

abbrev Line : Type := List Char

def NoH2 (l : Line) : Prop := ¬ '\n' :: h2 <:+: l

def belowH2 (l : Line) : Bool := !h2.isPrefixOf l

theorem noH2_of_line {l : Line} (h : '\n' ∉ l) : NoH2 l := fun hin => h (hin.subset (.head _))

theorem noH2_cons {l : Line} (hl : NoH2 l) (hbelow : belowH2 l = true) : NoH2 ('\n' :: l) := by
  intro hin
  obtain hhead | htail := List.infix_cons_iff.1 hin
  · have hpre := List.isPrefixOf_iff_prefix.2 (List.cons_prefix_cons.1 hhead).2
    rw [belowH2, hpre] at hbelow
    cases hbelow
  · exact hl htail

theorem noH2_lines {l : Line} {ls : List Line} (hl : NoH2 l)
    (h : ∀ l ∈ ls, NoH2 l ∧ belowH2 l = true) : NoH2 (l ++ ls.flatMap fun l => '\n' :: l) := by
  induction ls generalizing l with
  | nil => simpa using hl
  | cons l' ls ih =>
    obtain ⟨hl', hbelow⟩ := h l' List.mem_cons_self
    have hjoin : NoH2 (l ++ '\n' :: l') := fun hin =>
      (infix_or_of_head (by decide) hin).elim hl (noH2_cons hl' hbelow)
    rw [List.flatMap_cons, ← List.append_assoc]
    exact ih hjoin fun x hx => h x (List.mem_cons_of_mem _ hx)

/-- The section takes the lines up to the next one that begins a heading. -/
theorem sectionBody_lines {l : Line} {ls : List Line} (hl : NoH2 l) (h : ∀ l ∈ ls, NoH2 l) :
    sectionBody (l ++ ls.flatMap fun l => '\n' :: l) =
      l ++ (ls.takeWhile belowH2).flatMap fun l => '\n' :: l := by
  have hbody : NoH2 (l ++ (ls.takeWhile belowH2).flatMap fun l => '\n' :: l) :=
    noH2_lines hl fun x hx => ⟨h x ((List.takeWhile_prefix _).subset hx), List.mem_takeWhile_imp hx⟩
  have hls := @List.takeWhile_append_dropWhile _ belowH2 ls
  cases hrest : ls.dropWhile belowH2 with
  | nil =>
    rw [hrest, List.append_nil] at hls
    rw [hls] at hbody ⊢
    rw [sectionBody, splitFirst_eq_none hbody]
  | cons next rest =>
    have hnext : belowH2 next = false := by
      have hhead := @List.head?_dropWhile_not _ belowH2 ls
      rw [hrest] at hhead
      simpa using hhead
    obtain ⟨title, rfl⟩ : h2 <+: next := by
      rw [belowH2, Bool.not_eq_false'] at hnext
      exact List.isPrefixOf_iff_prefix.1 hnext
    rw [hrest] at hls
    have hsplit := splitFirst_head (p := '\n') (by decide) hbody
      (title ++ rest.flatMap fun l => '\n' :: l)
    have htext : l ++ (ls.flatMap fun l => '\n' :: l) =
        l ++ ((ls.takeWhile belowH2).flatMap fun l => '\n' :: l) ++
          '\n' :: (h2 ++ (title ++ rest.flatMap fun l => '\n' :: l)) := by
      conv_lhs => rw [← hls]
      simp only [List.flatMap_append, List.flatMap_cons, List.append_assoc, List.cons_append]
    rw [htext, sectionBody, hsplit]

/-- The first line that holds the needle, read from there on, and the lines below it up to the
next heading. -/
def mentionRows (needle : List Char) : List Line → Option (List Cells)
  | [] => none
  | l :: ls =>
    match splitFirst needle l with
    | none => mentionRows needle ls
    | some (_, behind) =>
      some (tableRows (needle ++ behind) ++ (ls.takeWhile belowH2).flatMap tableRows)

theorem mentionRows_eq {needle : List Char} (hne : needle ≠ []) (hneedle : '\n' ∉ needle)
    {ls : List Line} (h : ∀ l ∈ ls, NoH2 l) :
    mentionRows needle ls = (splitFirst needle (['\n'].intercalate ls)).map
      fun p => tableRows (needle ++ sectionBody p.2) := by
  induction ls with
  | nil => rw [mentionRows, List.intercalate_nil, splitFirst, if_neg hne, Option.map_none]
  | cons l ls ih =>
    have hls : ∀ x ∈ ls, NoH2 x := fun x hx => h x (List.mem_cons_of_mem l hx)
    rw [mentionRows]
    cases hl : splitFirst needle l with
    | some p =>
      obtain ⟨pre, behind⟩ := p
      have hbehind : NoH2 behind := fun hin =>
        h l List.mem_cons_self (hin.trans ⟨pre ++ needle, [], by rw [splitFirst_spec hl]; simp⟩)
      rw [intercalate_lines, splitFirst_left hl, Option.map_some, sectionBody_lines hbehind hls,
        ← List.append_assoc, tableRows_lines]
    | none =>
      have hnone : ¬needle <:+: l := fun hin => by
        obtain ⟨p, hp⟩ := exists_splitFirst hin
        rw [hl] at hp
        cases hp
      have htail := ih hls
      cases ls with
      | nil => rw [List.intercalate_singleton, hl, mentionRows, Option.map_none]
      | cons l' ls =>
        rw [List.intercalate_cons_cons, List.append_assoc, List.singleton_append,
          splitFirst_right hneedle hnone, Option.map_map]
        exact htail

theorem parseSection_lines {header : List Char} (hheader : '\n' ∉ header) {ls : List Line}
    (h : ∀ l ∈ ls, NoH2 l) : parseSection (['\n'].intercalate ls) header =
      ((mentionRows (h2 ++ header) ls).getD []).tail := by
  have hneedle : '\n' ∉ h2 ++ header := fun hin =>
    (List.mem_append.1 hin).elim (by decide) hheader
  rw [mentionRows_eq (List.append_ne_nil_of_left_ne_nil (by decide) header) hneedle h, parseSection]
  cases splitFirst (h2 ++ header) (['\n'].intercalate ls) <;> rfl

theorem mentionRows_append (needle : List Char) {l : Line} (hl : belowH2 l = false)
    (before ls : List Line) : mentionRows needle (before ++ l :: ls) =
      (mentionRows needle before).or (mentionRows needle (l :: ls)) := by
  induction before with
  | nil => rfl
  | cons b before ih =>
    rw [List.cons_append, mentionRows, mentionRows]
    cases splitFirst needle b with
    | none => exact ih
    | some p =>
      have htake : (before ++ l :: ls).takeWhile belowH2 = before.takeWhile belowH2 := by
        rw [List.takeWhile_append]
        split_ifs with hall
        · rw [List.takeWhile_cons_of_neg (by simp [hl]), List.append_nil,
            (List.takeWhile_prefix _).eq_of_length hall]
        · rfl
      simp only [htake, Option.some_or]

end sections

section documents

/-- The H2 `Gaps` and what stands around the rendered table; only its own line begins with the
words `## Gaps`. -/
structure GapsDocument (V : Type) where
  before : List Line
  trail : Line
  mid : List Line
  rows : List (GapRow V)
  after : List Line
  rest : List Line
  lines : ∀ l ∈ before ++ mid ++ after ++ rest, '\n' ∉ l
  blank : ∀ c ∈ trail, c = ' ' ∨ c = '\t'
  unique : ∀ l ∈ before ++ rest, ¬h2 ++ "Gaps".toList <+: l
  inside : ∀ l ∈ mid ++ after, belowH2 l = true
  plain : ∀ l ∈ mid, tableRows l = []
  next : ∀ l ∈ rest.head?, belowH2 l = false

namespace GapsDocument

variable (d : GapsDocument V)

def chunks : List Line :=
  d.before ++ (h2 ++ "Gaps".toList ++ d.trail) ::
    (d.mid ++ renderGapsTable str d.rows :: d.after ++ d.rest)

def text : List Char := ['\n'].intercalate (d.chunks str)

/-- The rows of the tables that follow in the same section. -/
def later : List Cells := d.after.flatMap tableRows

/-- No line above the heading mentions it, no rendered row has only cells of dashes, colons and
blanks, and no table row follows in the section (but one, which is taken for a header, where
nothing was rendered). Or a line above mentions it and below this line the same rows stand. -/
def ReadsBack : Prop :=
  match mentionRows (h2 ++ "Gaps".toList) d.before with
  | none => (∀ cells ∈ gapCells str d.rows, cells.all ruled = false) ∧
      d.later.length ≤ if d.rows.isEmpty then 1 else 0
  | some rows => rows.tail = gapCells str d.rows

theorem title_solid : ∀ c ∈ h2 ++ "Gaps".toList ++ d.trail, isLineBreak c = false := by
  intro c hc
  obtain hc | hc := List.mem_append.1 hc
  · have hall : (h2 ++ "Gaps".toList).all (!isLineBreak ·) = true := by decide +kernel
    simpa using List.all_eq_true.1 hall c hc
  · obtain rfl | rfl := d.blank c hc <;> rfl

end GapsDocument

theorem belowH2_rowText (cells : Cells) (cs : List Char) :
    belowH2 (rowText cells ++ cs) = true := rfl

theorem renderGapsTable_noH2 (rows : List (GapRow V)) :
    NoH2 (renderGapsTable str rows) ∧ belowH2 (renderGapsTable str rows) = true := by
  have hplain : '\n' ∉ "_readiness-config.gaps.rows 부재 — render skip._".toList := by
    decide +kernel
  have hbelow : belowH2 "_readiness-config.gaps.rows 부재 — render skip._".toList = true := by
    decide +kernel
  have hnames : '\n' ∉ rowText (gapFields.map String.toList) := by decide +kernel
  have hrule : '\n' ∉ "|---|---|---|---|---|".toList := by decide +kernel
  have hrule' : belowH2 "|---|---|---|---|---|".toList = true := by decide +kernel
  rw [renderGapsTable]
  split_ifs with hempty
  · exact ⟨noH2_of_line hplain, hbelow⟩
  · rw [gapsLines, intercalate_lines, belowH2_rowText]
    refine ⟨noH2_lines (noH2_of_line hnames) fun l hl => ?_, rfl⟩
    obtain rfl | hl := List.mem_cons.1 hl
    · exact ⟨noH2_of_line hrule, hrule'⟩
    · obtain ⟨row, -, hrow⟩ := List.mem_filterMap.1 hl
      obtain ⟨fields, -, rfl⟩ := Option.map_eq_some_iff.1 hrow
      refine ⟨noH2_of_line fun hin => ?_, ?_⟩
      · cases gapRow_solid str fields _ hin
      · rw [← List.append_nil (rowText _), belowH2_rowText]

theorem mentionRows_chunks (d : GapsDocument V) :
    mentionRows (h2 ++ "Gaps".toList) (d.chunks str) =
      (mentionRows (h2 ++ "Gaps".toList) d.before).or
        (some (tableRows (renderGapsTable str d.rows) ++ d.later)) := by
  have htitle : tableRows (h2 ++ "Gaps".toList ++ d.trail) = [] := by
    rw [tableRows_solid d.title_solid]
    exact congrArg Option.toList (tableRow?_of_head (c := '#') rfl (by decide) _)
  have hrest : d.rest.takeWhile belowH2 = [] := by
    cases hrest : d.rest with
    | nil => rfl
    | cons l ls =>
      have hl := d.next l (by rw [hrest]; rfl)
      rw [List.takeWhile_cons_of_neg (by simp [hl])]
  have hmid : d.mid.flatMap tableRows = [] := List.flatMap_eq_nil_iff.2 d.plain
  have hinside : ∀ l ∈ d.mid ++ renderGapsTable str d.rows :: d.after, belowH2 l = true := by
    intro l hl
    rw [List.mem_append, List.mem_cons] at hl
    obtain hl | rfl | hl := hl
    · exact d.inside l (List.mem_append_left _ hl)
    · exact (renderGapsTable_noH2 str d.rows).2
    · exact d.inside l (List.mem_append_right _ hl)
  rw [GapsDocument.chunks, mentionRows_append _ (by rfl)]
  congr 1
  rw [mentionRows, splitFirst_now, List.takeWhile_append_of_pos hinside, hrest]
  simp only [htitle, hmid, List.nil_append, List.append_nil, List.flatMap_append, List.flatMap_cons,
    GapsDocument.later]

theorem not_ruled {text : List Char} {cells : Cells} (h : cells ∈ tableRows text) :
    cells.all ruled = false := by
  obtain ⟨line, -, hline⟩ := List.mem_filterMap.1 h
  rw [tableRow?] at hline
  split_ifs at hline with hpipes hruled
  cases hline
  simpa using hruled

theorem filter_append_eq_iff {cells later : List Cells}
    (h : ∀ c ∈ later, List.all c ruled = false) :
    cells.filter (!·.all ruled) ++ later = cells ↔
      (∀ c ∈ cells, List.all c ruled = false) ∧ later = [] := by
  constructor
  · intro heq
    have hall : ∀ c ∈ cells, List.all c ruled = false := by
      intro c hc
      rw [← heq, List.mem_append, List.mem_filter] at hc
      exact hc.elim (fun hc => by simpa using hc.2) (h c)
    have hfilter : cells.filter (!·.all ruled) = cells :=
      List.filter_eq_self.2 fun c hc => by rw [hall c hc]; rfl
    rw [hfilter] at heq
    exact ⟨hall, List.append_right_eq_self.1 heq⟩
  · rintro ⟨hall, rfl⟩
    rw [List.append_nil]
    exact List.filter_eq_self.2 fun c hc => by rw [hall c hc]; rfl

/-- The section gives the rows back exactly where the table is the first and only one, none of its
rows looks like a separator and the heading is not mentioned above. -/
theorem parseSection_gaps_iff (d : GapsDocument V) :
    parseSection (d.text str) "Gaps".toList = gapCells str d.rows ↔ d.ReadsBack str := by
  have hchunks : ∀ l ∈ d.chunks str, NoH2 l := by
    have hline : ∀ l, l ∈ d.before ∨ l ∈ d.mid ∨ l ∈ d.after ∨ l ∈ d.rest → NoH2 l := fun l hl =>
      noH2_of_line (d.lines l (by simpa only [List.mem_append, or_assoc] using hl))
    intro l hl
    simp only [GapsDocument.chunks, List.mem_append, List.mem_cons] at hl
    rcases hl with hl | rfl | ((hl | rfl | hl) | hl)
    · exact hline l (.inl hl)
    · exact noH2_of_line fun hin => by cases d.title_solid _ hin
    · exact hline l (.inr (.inl hl))
    · exact (renderGapsTable_noH2 str d.rows).1
    · exact hline l (.inr (.inr (.inl hl)))
    · exact hline l (.inr (.inr (.inr hl)))
  have hlater : ∀ c ∈ d.later, List.all c ruled = false := by
    intro c hc
    obtain ⟨l, -, hl⟩ := List.mem_flatMap.1 hc
    exact not_ruled hl
  rw [GapsDocument.text, parseSection_lines (by decide +kernel) hchunks, mentionRows_chunks,
    GapsDocument.ReadsBack]
  cases mentionRows (h2 ++ "Gaps".toList) d.before with
  | some rows => exact Iff.rfl
  | none =>
    rw [Option.none_or, Option.getD_some, tableRows_renderGapsTable]
    cases hrows : d.rows with
    | nil => simp [gapCells, ← List.length_eq_zero_iff, Nat.sub_eq_zero_iff_le]
    | cons row rows =>
      have hiff := @filter_append_eq_iff (gapCells str (row :: rows)) _ hlater
      simpa using hiff

/-- One gap, and a table of something else below the rendered one. -/
def laterTable : GapsDocument (List Char) where
  before := ["# Readiness".toList, []]
  trail := []
  mid := [[]]
  rows := [some [("id", some "GAP-1".toList), ("category", some "non-blocker".toList),
    ("description", some "soak test".toList), ("owner", some "nssf".toList),
    ("target_resolution", some "P3".toList)]]
  after := [[], "| owner | contact |".toList, "|---|---|".toList, "| nssf | core |".toList]
  rest := ["## References".toList]
  lines := fun l hl hin => by
    have hall : (["# Readiness".toList, [], [], [], "| owner | contact |".toList,
      "|---|---|".toList, "| nssf | core |".toList, "## References".toList].all
        fun l => !l.contains '\n') = true := by decide +kernel
    have hl' := List.all_eq_true.1 hall l hl
    rw [List.contains_eq_mem, decide_eq_true hin] at hl'
    cases hl'
  blank := fun _ hc => by cases hc
  unique := fun l hl hpre => by
    have hall : (["# Readiness".toList, [], "## References".toList].all
        fun l => !(h2 ++ "Gaps".toList).isPrefixOf l) = true := by decide +kernel
    have hl' := List.all_eq_true.1 hall l hl
    rw [List.isPrefixOf_iff_prefix.2 hpre] at hl'
    cases hl'
  inside := fun l hl => by
    have hall : ([[], [], "| owner | contact |".toList, "|---|---|".toList,
      "| nssf | core |".toList].all belowH2) = true := by decide +kernel
    exact List.all_eq_true.1 hall l hl
  plain := fun l hl => by
    rw [List.mem_singleton.1 hl]
    rfl
  next := fun l hl => by
    have hhead : belowH2 "## References".toList = false := by decide +kernel
    cases hl
    exact hhead

theorem parseSection_gaps_later : ¬∀ d : GapsDocument (List Char),
    parseSection (d.text id) "Gaps".toList = gapCells id d.rows := by
  have hrows : (parseSection (laterTable.text id) "Gaps".toList).length ≠
      (gapCells id laterTable.rows).length := by decide +kernel
  exact fun h => hrows (congrArg List.length (h laterTable))

end documents

end Nssf.Design
