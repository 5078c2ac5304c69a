import Nssf.Base.PyWords

/-! The cells of a markdown table row, as the generator writes them and the validators read them
back. -/

namespace Nssf.Design

open Base.PyText

def escapePipes : List Char → List Char
  | [] => []
  | '|' :: cs => '\\' :: '|' :: escapePipes cs
  | c :: cs => c :: escapePipes cs

variable {V : Type}

/-- `str` is Python's, and nothing stands for `None`. -/
def cell (str : V → List Char) : Option V → List Char
  | none => []
  | some value =>
    let text := strip (str value)
    if text = [] then [] else escapePipes ([' '].intercalate (words text))

def rowText (cells : List (List Char)) : List Char :=
  ['|', ' '] ++ [' ', '|', ' '].intercalate cells ++ [' ', '|']

/-- `cur` is the cell being read. -/
def splitCells : List Char → List Char → List (List Char)
  | cur, [] => [strip cur]
  | cur, '\\' :: '|' :: cs => splitCells (cur ++ ['|']) cs
  | cur, '|' :: cs => strip cur :: splitCells [] cs
  | cur, c :: cs => splitCells (cur ++ [c]) cs

def splitRow (line : List Char) : List (List Char) :=
  let s := strip line
  let s := if s.head? = some '|' then s.tail else s
  let s := if s.getLast? = some '|' then s.dropLast else s
  splitCells [] s

theorem cell_some (str : V → List Char) (v : V) :
    cell str (some v) = escapePipes (collapse (str v)) := by
  rw [cell, collapse]
  by_cases hnil : strip (str v) = []
  · have hempty : words (str v) = [] := by
      rw [← words_strip, hnil]
      rfl
    rw [hempty]
    exact if_pos hnil
  · rw [← words_strip (str v)]
    exact if_neg hnil

theorem escapePipes_cons {c : Char} (hc : c ≠ '|') (cs : List Char) :
    escapePipes (c :: cs) = c :: escapePipes cs := by
  rw [escapePipes]
  exact fun h => absurd h hc

theorem escapePipes_head (cs rest : List Char) (hrest : rest.head? ≠ some '|') :
    (escapePipes cs ++ rest).head? ≠ some '|' := by
  cases cs with
  | nil => exact hrest
  | cons c cs =>
    by_cases hc : c = '|'
    · subst hc
      simp [escapePipes]
    · simpa [escapePipes_cons hc] using hc

theorem splitCells_cons {c : Char} {cs : List Char} (hc : c ≠ '|')
    (hcs : c = '\\' → cs.head? ≠ some '|') (cur : List Char) :
    splitCells cur (c :: cs) = splitCells (cur ++ [c]) cs := by
  rw [splitCells]
  · rintro rest rfl rfl
    exact hcs rfl rfl
  · exact hc

/-- Escaped text is read back into the cell, whatever stands behind it but a pipe. -/
theorem splitCells_escapePipes (cur w : List Char) {rest : List Char}
    (hrest : rest.head? ≠ some '|') :
    splitCells cur (escapePipes w ++ rest) = splitCells (cur ++ w) rest := by
  induction w generalizing cur with
  | nil => rw [escapePipes, List.nil_append, List.append_nil]
  | cons c w ih =>
    by_cases hc : c = '|'
    · subst hc
      rw [escapePipes, List.cons_append, List.cons_append, splitCells, ih, List.append_assoc,
        List.singleton_append]
    · rw [escapePipes_cons hc, List.cons_append,
        splitCells_cons hc (fun _ => escapePipes_head w rest hrest), ih, List.append_assoc,
        List.singleton_append]

theorem splitCells_padded (w rest : List Char) (hrest : rest.head? ≠ some '|') :
    splitCells [] (' ' :: (escapePipes w ++ rest)) = splitCells (' ' :: w) rest := by
  rw [splitCells_cons (by decide) (fun h => absurd h (by decide)), splitCells_escapePipes _ w hrest]
  rfl

theorem splitCells_row {ws : List (List Char)} (hne : ws ≠ []) (h : ∀ w ∈ ws, Trimmed w) :
    splitCells [] (' ' :: ([' ', '|', ' '].intercalate (ws.map escapePipes) ++ [' '])) = ws := by
  have hstrip : ∀ w, Trimmed w → strip (' ' :: w ++ [' ']) = w := fun w hw =>
    hw.strip_padded (a := [' ']) (by simp [isSpace]) (by simp [isSpace])
  induction ws with
  | nil => exact absurd rfl hne
  | cons w ws ih =>
    have hw := hstrip w (h w List.mem_cons_self)
    have hspace : ∀ cur cs, splitCells cur (' ' :: cs) = splitCells (cur ++ [' ']) cs :=
      fun cur cs => splitCells_cons (by decide) (fun h => absurd h (by decide)) cur
    cases ws with
    | nil =>
      rw [List.map_singleton, List.intercalate_singleton, splitCells_padded _ _ (by simp), hspace,
        splitCells, hw]
    | cons w' ws =>
      have htail := ih (List.cons_ne_nil w' ws) fun x hx => h x (List.mem_cons_of_mem _ hx)
      rw [List.map_cons, List.map_cons, List.intercalate_cons_cons, ← List.map_cons,
        List.append_assoc, List.append_assoc, splitCells_padded _ _ (by simp)]
      simp only [List.cons_append, List.nil_append]
      rw [hspace, splitCells, hw, htail]

theorem strip_rowText (cells : List (List Char)) : strip (rowText cells) = rowText cells := by
  have htrim : Trimmed (rowText cells) := by
    refine ⟨fun c hc => ?_, fun c hc => ?_⟩
    · rw [rowText, List.append_assoc] at hc
      cases hc
      decide
    · rw [rowText, List.getLast?_append] at hc
      cases hc
      decide
  exact htrim.strip

theorem splitRow_rowText {cells : List (List Char)} :
    splitRow (rowText cells) =
      splitCells [] (' ' :: ([' ', '|', ' '].intercalate cells ++ [' '])) := by
  have htail : (rowText cells).tail =
      (' ' :: ([' ', '|', ' '].intercalate cells ++ [' '])) ++ ['|'] := by
    simp [rowText]
  have hhead : (rowText cells).head? = some '|' := rfl
  rw [splitRow, strip_rowText]
  simp only [hhead, if_true, htail, List.getLast?_concat, List.dropLast_concat]

/-- Each cell of a written row is read back with its blanks collapsed. -/
theorem splitRow_cell {vs : List (List Char)} (hne : vs ≠ []) :
    splitRow (rowText (vs.map fun v => cell id (some v))) = vs.map collapse := by
  have hcells : (vs.map fun v => cell id (some v)) = (vs.map collapse).map escapePipes := by
    rw [List.map_map]
    exact List.map_congr_left fun v _ => cell_some id v
  rw [hcells, splitRow_rowText]
  refine splitCells_row (fun h => hne (List.map_eq_nil_iff.1 h)) fun w hw => ?_
  obtain ⟨v, -, rfl⟩ := List.mem_map.1 hw
  exact trimmed_collapse v

/-- A backslash before the pipe, a cell that ends in one and a cell of blanks. -/
theorem splitRow_cell_backslashes :
    splitRow (rowText (["a\\|b", "c\\", " \n", "d\t e"].map fun v => cell id (some v.toList))) =
      ["a\\|b".toList, "c\\".toList, [], "d e".toList] := by
  have h := @splitRow_cell ["a\\|b".toList, "c\\".toList, " \n".toList, "d\t e".toList] (by decide)
  exact h

end Nssf.Design
