import Nssf.Base.Dict
import Nssf.Base.Matches
import Nssf.Base.PyText

/-! Marked blocks of a text, as the generators read them back: a start marker on a line, a body,
and on a line of its own the next end marker with the same id. -/

namespace Nssf.Design.UserBlocks

open Base Base.Matches

abbrev Text := List Char

/-- `\w`; beyond ASCII it is a matter of the Unicode tables. -/
structure WordClass where
  word : Char → Bool
  ascii : ∀ c, c.toNat < 128 → word c = (c.isAlphanum || c == '_')

/-- `[\w-]`. -/
def WordClass.idChar (w : WordClass) (c : Char) : Bool := w.word c || c == '-'

def opening (kind : Text) : Text := "<!-- ".toList ++ kind ++ [':']

def startMarker (kind id : Text) : Text := opening kind ++ id ++ ":start -->".toList

def endMarker (kind id : Text) : Text := opening kind ++ id ++ ":end -->".toList

def blockText (kind id body : Text) : Text :=
  startMarker kind id ++ '\n' :: body ++ '\n' :: endMarker kind id

def dropLiteral (lit cs : Text) : Option Text :=
  if lit.isPrefixOf cs then some (cs.drop lit.length) else none

/-- `<!-- kind:([\w-]+):start -->\n(.*?)\n<!-- kind:\1:end -->` at the head of a text. -/
def matchAt (w : WordClass) (kind cs : Text) : Option ((Text × Text) × Text) :=
  (dropLiteral (opening kind) cs).bind fun cs =>
    let id := cs.takeWhile w.idChar
    if id = [] then none
    else
      (dropLiteral ":start -->\n".toList (cs.dropWhile w.idChar)).bind fun cs =>
        (splitFirst ('\n' :: endMarker kind id) cs).map fun p => ((id, p.1), p.2)

/-- `re.finditer`: ids and bodies. -/
def blocks (w : WordClass) (kind text : Text) : List (Text × Text) := scan (matchAt w kind) text

/-- Of two blocks with one id the last stays. -/
def extractBlocks (w : WordClass) (kind text : Text) : Dict Text Text :=
  Dict.ofList (blocks w kind text)

/-- The pairs of markers of a text: those that are found, and those in their bodies. -/
inductive Block (w : WordClass) (kind : Text) : Text → Text → Text → Prop where
  | found {text id body : Text} (h : (id, body) ∈ blocks w kind text) : Block w kind text id body
  | within {text id body id' body' : Text} (h' : (id', body') ∈ blocks w kind text)
      (h : Block w kind body' id body) : Block w kind text id body

variable {w : WordClass} {kind : Text}

theorem block_iff {text id body : Text} : Block w kind text id body ↔
    (id, body) ∈ blocks w kind text ∨
      ∃ id' body', (id', body') ∈ blocks w kind text ∧ Block w kind body' id body := by
  constructor
  · intro h
    cases h with
    | found h => exact .inl h
    | within h' h => exact .inr ⟨_, _, h', h⟩
  · rintro (h | ⟨id', body', h', h⟩)
    · exact .found h
    · exact .within h' h

theorem Block.trans {text id body id' body' : Text} (h' : Block w kind text id' body')
    (h : Block w kind body' id body) : Block w kind text id body := by
  induction h' with
  | found hfound => exact .within hfound h
  | within hfound _ ih => exact .within hfound (ih h)

structure IsId (w : WordClass) (id : Text) : Prop where
  nonempty : id ≠ []
  chars : ∀ c ∈ id, w.idChar c = true

/-- The first end marker after the body is its own. -/
def Enclosed (kind id body : Text) : Prop :=
  splitFirst ('\n' :: endMarker kind id) (body ++ '\n' :: endMarker kind id ++ []) =
    some (body, [])

theorem idChar_colon (w : WordClass) : w.idChar ':' = false := by
  rw [WordClass.idChar, w.ascii ':' (by decide)]
  rfl

theorem dropLiteral_eq_some_iff {lit cs rest : Text} :
    dropLiteral lit cs = some rest ↔ cs = lit ++ rest := by
  rw [dropLiteral]
  constructor
  · intro h
    split_ifs at h with hlit
    cases h
    obtain ⟨rest, rfl⟩ := List.isPrefixOf_iff_prefix.1 hlit
    rw [List.drop_left]
  · rintro rfl
    rw [if_pos (List.isPrefixOf_iff_prefix.2 (List.prefix_append lit rest)), List.drop_left]

theorem takeWhile_id {id rest : Text} (hid : IsId w id) :
    (id ++ ':' :: rest).takeWhile w.idChar = id ∧
      (id ++ ':' :: rest).dropWhile w.idChar = ':' :: rest := by
  constructor
  · rw [List.takeWhile_append_of_pos hid.chars, List.takeWhile_cons_of_neg, List.append_nil]
    rw [idChar_colon]
    exact Bool.false_ne_true
  · rw [List.dropWhile_append_of_pos hid.chars, List.dropWhile_cons_of_neg]
    rw [idChar_colon]
    exact Bool.false_ne_true

theorem matchAt_block {id body rest : Text} (hid : IsId w id) (h : Enclosed kind id body) :
    matchAt w kind (blockText kind id body ++ rest) = some ((id, body), rest) := by
  have hopen : dropLiteral (opening kind) (blockText kind id body ++ rest) =
      some (id ++ ':' :: ("start -->\n".toList ++ (body ++ '\n' :: endMarker kind id ++ rest))) := by
    rw [dropLiteral_eq_some_iff]
    simp [blockText, startMarker]
  have hstart : dropLiteral ":start -->\n".toList
      (':' :: ("start -->\n".toList ++ (body ++ '\n' :: endMarker kind id ++ rest))) =
      some (body ++ '\n' :: endMarker kind id ++ rest) := by
    rw [dropLiteral_eq_some_iff]
    rfl
  obtain ⟨htake, hdrop⟩ := @takeWhile_id w id
    ("start -->\n".toList ++ (body ++ '\n' :: endMarker kind id ++ rest)) hid
  rw [matchAt, hopen, Option.bind_some]
  simp only [htake, hdrop, if_neg hid.nonempty, hstart, Option.bind_some]
  rw [splitFirst_append h rest]
  rfl

theorem matchAt_spec {cs id body rest : Text} (h : matchAt w kind cs = some ((id, body), rest)) :
    IsId w id ∧ Enclosed kind id body ∧ cs = blockText kind id body ++ rest := by
  rw [matchAt] at h
  obtain ⟨cs', hopen, h⟩ := Option.bind_eq_some_iff.1 h
  rw [dropLiteral_eq_some_iff] at hopen
  simp only at h
  split_ifs at h with hne
  obtain ⟨cs'', hstart, h⟩ := Option.bind_eq_some_iff.1 h
  rw [dropLiteral_eq_some_iff] at hstart
  obtain ⟨p, hsplit, heq⟩ := Option.map_eq_some_iff.1 h
  obtain ⟨body', rest'⟩ := p
  cases heq
  have hcs'' := splitFirst_spec hsplit
  refine ⟨⟨hne, fun c hc => List.mem_takeWhile_imp hc⟩, ?_, ?_⟩
  · rw [hcs''] at hsplit
    exact splitFirst_append hsplit []
  · have hcs' : cs' = cs'.takeWhile w.idChar ++ (":start -->\n".toList ++ cs'') := by
      rw [← hstart, List.takeWhile_append_dropWhile]
    rw [hopen]
    conv_lhs => rw [hcs', hcs'']
    simp [blockText, startMarker]

theorem lawful_matchAt : Lawful (matchAt w kind) := by
  rintro cs ⟨id, body⟩ rest h
  exact ⟨_, List.cons_ne_nil _ _, (matchAt_spec h).2.2⟩

theorem blocks_block {id body rest : Text} (hid : IsId w id) (h : Enclosed kind id body) :
    blocks w kind (blockText kind id body ++ rest) = (id, body) :: blocks w kind rest :=
  scan_of_match lawful_matchAt (matchAt_block hid h)

theorem of_mem_blocks {text id body : Text} (h : (id, body) ∈ blocks w kind text) :
    IsId w id ∧ Enclosed kind id body ∧ blockText kind id body <:+: text := by
  obtain ⟨before, from_, rest, rfl, hmatch⟩ := exists_of_mem_scan lawful_matchAt h
  obtain ⟨hid, hbody, rfl⟩ := matchAt_spec hmatch
  exact ⟨hid, hbody, before, rest, by rw [List.append_assoc]⟩

theorem Block.angle_mem {text id body : Text} (h : Block w kind text id body) : '<' ∈ text := by
  induction h with
  | found hfound => exact (of_mem_blocks hfound).2.2.subset (.head _)
  | within hfound _ _ => exact (of_mem_blocks hfound).2.2.subset (.head _)

theorem enclosed_of_line {id body : Text} (h : '\n' ∉ body) : Enclosed kind id body :=
  splitFirst_fresh h []

section quiet

theorem angle_mem_startMarker (kind id : Text) : '<' ∈ startMarker kind id := .head _

theorem quiet_of_no_angle {g : Text} (h : '<' ∉ g) : Quiet (matchAt w kind) g := by
  rintro before c after rfl rest
  have hc : c ≠ '<' := fun heq => h (by simp [heq])
  have hnone : dropLiteral (opening kind) (c :: after ++ rest) = none := by
    rw [dropLiteral, if_neg]
    intro hlit
    exact hc (List.cons_prefix_cons.1 (List.isPrefixOf_iff_prefix.1 hlit)).1.symm
  rw [matchAt, hnone, Option.bind_none]

/-- No start marker stands in the text. -/
def Unmarked (w : WordClass) (kind text : Text) : Prop :=
  ∀ id, IsId w id → ¬startMarker kind id <:+: text

theorem newline_not_mem_startMarker {id : Text} (hkind : '\n' ∉ kind)
    (hid : IsId w id) : '\n' ∉ startMarker kind id := by
  have hnewline : w.idChar '\n' = false := by
    rw [WordClass.idChar, w.ascii '\n' (by decide)]
    rfl
  have hnot : '\n' ∉ id := fun hmem => by
    have := hid.chars _ hmem
    rw [hnewline] at this
    cases this
  simp [startMarker, opening, hkind, hnot]

theorem prefix_of_prefix_line {m a rest : Text} (hm : '\n' ∉ m) (h : m <+: a ++ '\n' :: rest) :
    m <+: a := by
  obtain ⟨after, h⟩ := h
  rw [List.append_eq_append_iff] at h
  obtain ⟨mid, rfl, -⟩ | ⟨mid, rfl, h⟩ := h
  · exact List.prefix_append m mid
  · cases mid with
    | nil => rw [List.append_nil]
    | cons c mid =>
      rw [List.cons_append, List.cons.injEq] at h
      exact absurd (by rw [← h.1]; simp) hm

theorem exists_line_tail {g before after : Text} {c : Char}
    (h : g ++ ['\n'] = before ++ c :: after) :
    ∃ tail, tail <:+ g ∧ ∀ rest, c :: after ++ rest = tail ++ '\n' :: rest := by
  rw [List.append_eq_append_iff] at h
  obtain ⟨mid, rfl, h⟩ | ⟨mid, rfl, h⟩ := h
  · cases mid with
    | nil =>
      rw [List.nil_append] at h
      exact ⟨[], List.nil_suffix, fun rest => by rw [← h]; rfl⟩
    | cons d mid => simp at h
  · exact ⟨mid, List.suffix_append before mid, fun rest => by rw [h]; simp⟩

theorem quiet_line {g : Text} (hkind : '\n' ∉ kind) (h : Unmarked w kind g) :
    Quiet (matchAt w kind) (g ++ ['\n']) := by
  intro before c after hg rest
  cases hmatch : matchAt w kind (c :: after ++ rest) with
  | none => rfl
  | some found =>
    obtain ⟨⟨id, body⟩, rest'⟩ := found
    obtain ⟨hid, -, htext⟩ := matchAt_spec hmatch
    obtain ⟨tail, htail, heq⟩ := exists_line_tail hg
    have hstart : startMarker kind id <+: tail ++ '\n' :: rest := by
      rw [← heq rest, htext, blockText, List.append_assoc, List.append_assoc]
      exact List.prefix_append _ _
    have htail' := prefix_of_prefix_line (newline_not_mem_startMarker hkind hid) hstart
    exact absurd (htail'.isInfix.trans htail.isInfix) (h id hid)

end quiet

section pieces

open PyText

/-- `"\n".join`. -/
def joinTexts (parts : List Text) : Text := List.intercalate ['\n'] parts

theorem joinTexts_blank (parts : List Text) :
    joinTexts (parts ++ [[]]) = (parts.map fun p => p ++ ['\n']).flatten := by
  induction parts with
  | nil => rfl
  | cons p parts ih =>
    rw [joinTexts] at ih ⊢
    rw [List.cons_append, List.intercalate_cons_of_ne_nil (by simp), ih]
    simp

/-- A part of a generated text. -/
inductive Piece where
  | prose (text : Text)
  | block (id body : Text)

def Piece.text (kind : Text) : Piece → Text
  | prose text => text
  | block id body => blockText kind id body

def Piece.found? : Piece → Option (Text × Text)
  | prose _ => none
  | block id body => some (id, body)

def Piece.Fine (w : WordClass) (kind : Text) : Piece → Prop
  | prose text => Quiet (matchAt w kind) (text ++ ['\n'])
  | block id body => IsId w id ∧ Enclosed kind id body

def lines (kind : Text) (pieces : List Piece) : Text :=
  (pieces.map fun p => p.text kind ++ ['\n']).flatten

theorem blockText_getLast? (id body : Text) : (blockText kind id body).getLast? = some '>' := by
  rw [List.getLast?_eq_some_iff]
  exact ⟨startMarker kind id ++ '\n' :: body ++ '\n' :: (opening kind ++ id ++ ":end --".toList),
    by simp [blockText, endMarker]⟩

/-- A generated text ends without blanks, in a line break. -/
theorem rstrip_pieces (pieces : List Piece) {p : Piece} {c : Char}
    (hlast : (p.text kind).getLast? = some c) (hc : ¬isSpace c = true) :
    rstrip (joinTexts ((pieces ++ [p]).map (Piece.text kind) ++ [[]])) ++ ['\n'] =
      lines kind (pieces ++ [p]) := by
  obtain ⟨init, hinit⟩ := List.getLast?_eq_some_iff.1 hlast
  have hlines : lines kind (pieces ++ [p]) = lines kind pieces ++ (init ++ [c]) ++ ['\n'] := by
    simp [lines, hinit]
  have hjoin : joinTexts ((pieces ++ [p]).map (Piece.text kind) ++ [[]]) =
      lines kind (pieces ++ [p]) := by
    rw [joinTexts_blank, List.map_map]
    rfl
  rw [hjoin, hlines, rstrip, List.rdropWhile_concat_pos _ _ _ (by decide), ← List.append_assoc,
    List.rdropWhile_concat_neg _ _ _ hc]

/-- Of the blocks that are written all are found again, and nothing else is. -/
theorem blocks_pieces {pieces : List Piece}
    (h : ∀ p ∈ pieces, p.Fine w kind) :
    blocks w kind (lines kind pieces) = pieces.filterMap Piece.found? := by
  induction pieces with
  | nil => rfl
  | cons p pieces ih =>
    have htail := ih fun p' hp' => h p' (.tail _ hp')
    have hhead := h p (.head _)
    have hlines : lines kind (p :: pieces) = p.text kind ++ ['\n'] ++ lines kind pieces := rfl
    rw [hlines]
    cases p with
    | prose text =>
      rw [List.filterMap_cons_none rfl, ← htail]
      exact scan_quiet hhead _
    | block id body =>
      have hbreak : Quiet (matchAt w kind) ['\n'] := quiet_of_no_angle (by decide)
      have hfound : (Piece.block id body :: pieces).filterMap Piece.found? =
          (id, body) :: pieces.filterMap Piece.found? := rfl
      rw [hfound, ← htail, Piece.text, List.append_assoc, blocks_block hhead.1 hhead.2]
      exact congrArg _ (scan_quiet hbreak _)

end pieces

end Nssf.Design.UserBlocks
