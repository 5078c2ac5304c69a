import Nssf.Base.PyText

/-! The words and the lines of a text, as Python splits them. -/

namespace Nssf.Base.PyText

section words

def wordsFrom : List Char → List Char → List (List Char)
  | cur, [] => if cur = [] then [] else [cur]
  | cur, c :: cs =>
    if isSpace c then if cur = [] then wordsFrom [] cs else cur :: wordsFrom [] cs
    else wordsFrom (cur ++ [c]) cs

/-- `str.split` without a separator. -/
def words (cs : List Char) : List (List Char) := wordsFrom [] cs

/-- Every run of blanks as one space, none at the ends. -/
def collapse (cs : List Char) : List Char := [' '].intercalate (words cs)

/-- Something without blanks. -/
structure IsWord (w : List Char) : Prop where
  nonempty : w ≠ []
  solid : ∀ c ∈ w, isSpace c = false

theorem isWord_wordsFrom {cur cs : List Char} (hcur : ∀ c ∈ cur, isSpace c = false) :
    ∀ w ∈ wordsFrom cur cs, IsWord w := by
  induction cs generalizing cur with
  | nil =>
    intro w hw
    rw [wordsFrom] at hw
    split_ifs at hw with hnil
    · cases hw
    · rw [List.mem_singleton.1 hw]
      exact ⟨hnil, hcur⟩
  | cons c cs ih =>
    intro w hw
    rw [wordsFrom] at hw
    split_ifs at hw with hc hnil
    · exact ih (by simp) w hw
    · rcases List.mem_cons.1 hw with rfl | hw
      · exact ⟨hnil, hcur⟩
      · exact ih (by simp) w hw
    · refine ih (fun x hx => ?_) w hw
      rcases List.mem_append.1 hx with hx | hx
      · exact hcur x hx
      · rw [List.mem_singleton.1 hx]
        simpa using hc

theorem isWord_words {cs w : List Char} (h : w ∈ words cs) : IsWord w :=
  isWord_wordsFrom (by simp) w h

theorem words_lstrip (cs : List Char) : words (lstrip cs) = words cs := by
  induction cs with
  | nil => rfl
  | cons c cs ih =>
    unfold lstrip at ih ⊢
    by_cases hc : isSpace c = true
    · rw [List.dropWhile_cons_of_pos hc, ih, words, words, wordsFrom, if_pos hc, if_pos rfl]
    · rw [List.dropWhile_cons_of_neg hc]

theorem wordsFrom_blank (cur cs : List Char) {c : Char} (hc : isSpace c = true) :
    wordsFrom cur (cs ++ [c]) = wordsFrom cur cs := by
  induction cs generalizing cur with
  | nil =>
    simp only [List.nil_append, wordsFrom, if_pos hc, if_true]
  | cons d cs ih =>
    simp only [List.cons_append, wordsFrom, ih]

theorem words_rstrip (cs : List Char) : words (rstrip cs) = words cs := by
  induction cs using List.reverseRecOn with
  | nil => rfl
  | append_singleton cs c ih =>
    unfold rstrip at ih ⊢
    by_cases hc : isSpace c = true
    · rw [List.rdropWhile_concat_pos _ _ _ hc, ih, words, words, wordsFrom_blank [] cs hc]
    · rw [List.rdropWhile_concat_neg _ _ _ hc]

theorem words_strip (cs : List Char) : words (strip cs) = words cs := by
  rw [strip, words_lstrip, words_rstrip]

end words

section trimmed

/-- No blank at either end. -/
structure Trimmed (cs : List Char) : Prop where
  first : ∀ c ∈ cs.head?, isSpace c = false
  last : ∀ c ∈ cs.getLast?, isSpace c = false

variable {cs : List Char}

theorem trimmed_nil : Trimmed [] := ⟨by simp, by simp⟩

theorem Trimmed.lstrip_append (h : Trimmed cs) (hne : cs ≠ []) {a : List Char}
    (ha : ∀ c ∈ a, isSpace c = true) (b : List Char) : lstrip (a ++ (cs ++ b)) = cs ++ b := by
  obtain ⟨c, cs, rfl⟩ := List.exists_cons_of_ne_nil hne
  have hc := h.first c rfl
  rw [lstrip, List.dropWhile_append_of_pos ha, List.cons_append,
    List.dropWhile_cons_of_neg (by simp [hc])]

theorem Trimmed.rstrip_append (h : Trimmed cs) (hne : cs ≠ []) {b : List Char}
    (hb : ∀ c ∈ b, isSpace c = true) (a : List Char) : rstrip (a ++ (cs ++ b)) = a ++ cs := by
  induction b using List.reverseRecOn with
  | nil =>
    rcases List.eq_nil_or_concat cs with rfl | ⟨cs, c, rfl⟩
    · exact absurd rfl hne
    · have hc := h.last c (by simp)
      rw [List.append_nil, List.concat_eq_append, ← List.append_assoc, rstrip,
        List.rdropWhile_concat_neg _ _ _ (by simp [hc])]
  | append_singleton b c ih =>
    have hc := hb c (by simp)
    rw [← List.append_assoc, ← List.append_assoc, rstrip, List.rdropWhile_concat_pos _ _ _ hc,
      List.append_assoc]
    exact ih fun x hx => hb x (List.mem_append_left _ hx)

/-- Blanks around a trimmed text are stripped. -/
theorem Trimmed.strip_padded (h : Trimmed cs) {a b : List Char} (ha : ∀ c ∈ a, isSpace c = true)
    (hb : ∀ c ∈ b, isSpace c = true) : strip (a ++ (cs ++ b)) = cs := by
  by_cases hne : cs = []
  · subst hne
    have hall : ∀ c ∈ a ++ b, isSpace c = true := fun c hc =>
      (List.mem_append.1 hc).elim (ha c) (hb c)
    have hr : rstrip (a ++ ([] ++ b)) = [] := by
      rw [List.nil_append, rstrip, List.rdropWhile_eq_nil_iff]
      exact hall
    rw [strip, hr]
    rfl
  · have hl := h.lstrip_append hne ha []
    rw [List.append_nil] at hl
    rw [strip, h.rstrip_append hne hb a, hl]

theorem Trimmed.strip (h : Trimmed cs) : strip cs = cs := by
  have hpad := h.strip_padded (a := []) (b := []) (by simp) (by simp)
  rwa [List.nil_append, List.append_nil] at hpad

theorem IsWord.trimmed {w : List Char} (h : IsWord w) : Trimmed w :=
  ⟨fun c hc => h.solid c (List.mem_of_head? hc), fun c hc => h.solid c (List.mem_of_getLast? hc)⟩

/-- Trimmed parts that are not empty stay trimmed with a space between them. -/
theorem Trimmed.join {w rest : List Char} (hw : Trimmed w) (hne : w ≠ []) (hrest : Trimmed rest)
    (hrest' : rest ≠ []) : Trimmed (w ++ ' ' :: rest) := by
  refine ⟨fun c hc => hw.first c ?_, fun c hc => hrest.last c ?_⟩
  · rwa [List.head?_append_of_ne_nil _ hne] at hc
  · rwa [List.getLast?_append_of_ne_nil _ (List.cons_ne_nil _ _),
      List.getLast?_cons_of_ne_nil hrest'] at hc

theorem trimmed_intercalate {ws : List (List Char)} (h : ∀ w ∈ ws, IsWord w) :
    Trimmed ([' '].intercalate ws) ∧ ([' '].intercalate ws = [] → ws = []) := by
  induction ws with
  | nil => exact ⟨trimmed_nil, fun _ => rfl⟩
  | cons w ws ih =>
    have hw := h w List.mem_cons_self
    obtain ⟨htrim, hempty⟩ := ih fun x hx => h x (List.mem_cons_of_mem _ hx)
    cases ws with
    | nil =>
      rw [List.intercalate_singleton]
      exact ⟨hw.trimmed, fun hnil => absurd hnil hw.nonempty⟩
    | cons w' ws =>
      have hne : [' '].intercalate (w' :: ws) ≠ [] := fun hnil => by cases hempty hnil
      rw [List.intercalate_cons_cons, List.append_assoc, List.singleton_append]
      exact ⟨hw.trimmed.join hw.nonempty htrim hne, fun hnil => by simp at hnil⟩

theorem trimmed_collapse (cs : List Char) : Trimmed (collapse cs) :=
  (trimmed_intercalate fun _ hw => isWord_words hw).1

/-- The only blank in a collapsed text is the space. -/
theorem collapse_blank {cs : List Char} {c : Char} (hc : c ∈ collapse cs)
    (hspace : isSpace c = true) : c = ' ' := by
  have hwords : ∀ w ∈ words cs, IsWord w := fun w hw => isWord_words hw
  unfold collapse at hc
  generalize words cs = ws at hc hwords
  induction ws with
  | nil => cases hc
  | cons w ws ih =>
    have hw : c ∉ w := fun hmem => by
      rw [(hwords w List.mem_cons_self).solid c hmem] at hspace
      cases hspace
    cases ws with
    | nil =>
      rw [List.intercalate_singleton] at hc
      exact absurd hc hw
    | cons w' ws =>
      rw [List.intercalate_cons_cons, List.mem_append, List.mem_append] at hc
      rcases hc with (hc | hc) | hc
      · exact absurd hc hw
      · exact List.mem_singleton.1 hc
      · exact ih hc fun x hx => hwords x (List.mem_cons_of_mem _ hx)

end trimmed

section lines

/-- What ends a line for `str.splitlines`; a carriage return with a line feed behind it is one
end. -/
def isLineBreak (c : Char) : Bool :=
  let n := c.toNat
  (10 ≤ n && n ≤ 13) || (28 ≤ n && n ≤ 30) || n == 0x85 || n == 0x2028 || n == 0x2029

def splitLinesFrom : List Char → List Char → List (List Char)
  | cur, [] => if cur = [] then [] else [cur]
  | cur, '\r' :: '\n' :: cs => cur :: splitLinesFrom [] cs
  | cur, c :: cs =>
    if isLineBreak c then cur :: splitLinesFrom [] cs else splitLinesFrom (cur ++ [c]) cs

/-- `str.splitlines`. -/
def splitLines (cs : List Char) : List (List Char) := splitLinesFrom [] cs

theorem isSpace_of_isLineBreak {c : Char} (h : isLineBreak c = true) : isSpace c = true := by
  simp only [isLineBreak, isSpace, Bool.or_eq_true, Bool.and_eq_true, decide_eq_true_eq,
    beq_iff_eq] at h ⊢
  omega

theorem splitLinesFrom_cons {c : Char} {cs : List Char}
    (hc : ∀ rest, c = '\r' → cs = '\n' :: rest → False) (cur : List Char) :
    splitLinesFrom cur (c :: cs) =
      if isLineBreak c then cur :: splitLinesFrom [] cs else splitLinesFrom (cur ++ [c]) cs := by
  rw [splitLinesFrom]
  exact hc

theorem splitLinesFrom_feed (cur cs : List Char) :
    splitLinesFrom cur ('\n' :: cs) = cur :: splitLines cs := by
  rw [splitLinesFrom_cons (fun _ h => by cases h), if_pos (by rfl), splitLines]

theorem unpaired_append {c : Char} {cs : List Char}
    (h : ∀ rest, c = '\r' → cs = '\n' :: rest → False) (hend : ¬(c = '\r' ∧ cs = []))
    (b : List Char) : ∀ rest, c = '\r' → cs ++ '\n' :: b = '\n' :: rest → False := by
  intro rest hc hcs
  cases cs with
  | nil => exact hend ⟨hc, rfl⟩
  | cons d cs => exact h cs hc (by rw [(List.cons.inj hcs).1])

/-- Behind a line feed the lines are those of the rest. -/
theorem splitLinesFrom_append (cur a b : List Char) :
    splitLinesFrom cur (a ++ '\n' :: b) = splitLinesFrom cur (a ++ ['\n']) ++ splitLines b := by
  have hnil : splitLines [] = [] := rfl
  induction cur, a using splitLinesFrom.induct with
  | case1 =>
    rw [List.nil_append, List.nil_append, splitLinesFrom_feed, splitLinesFrom_feed, hnil]
    rfl
  | case2 cur cur_nonempty =>
    rw [List.nil_append, List.nil_append, splitLinesFrom_feed, splitLinesFrom_feed, hnil]
    rfl
  | case3 cur cs ih =>
    simp only [List.cons_append, splitLinesFrom, ih]
  | case4 cur c cs hpair hbreak ih =>
    by_cases hend : c = '\r' ∧ cs = []
    · -- the carriage return joins the line feed
      obtain ⟨rfl, rfl⟩ := hend
      simp only [List.cons_append, List.nil_append, splitLinesFrom, splitLines, if_true]
    · rw [List.cons_append, List.cons_append,
        splitLinesFrom_cons (unpaired_append hpair hend b),
        splitLinesFrom_cons (unpaired_append hpair hend []), if_pos hbreak, if_pos hbreak, ih,
        List.cons_append]
  | case5 cur c cs hpair hbreak ih =>
    have hcr : c ≠ '\r' := fun h => by
      subst h
      exact hbreak rfl
    rw [List.cons_append, List.cons_append, splitLinesFrom_cons (fun _ h => absurd h hcr),
      splitLinesFrom_cons (fun _ h => absurd h hcr), if_neg hbreak, if_neg hbreak, ih]

/-- A line feed at the end of a text ends its last line or begins an empty one. -/
theorem splitLinesFrom_end (cur a : List Char) :
    splitLinesFrom cur (a ++ ['\n']) = splitLinesFrom cur a ∨
      splitLinesFrom cur (a ++ ['\n']) = splitLinesFrom cur a ++ [[]] := by
  induction cur, a using splitLinesFrom.induct with
  | case1 => exact .inr rfl
  | case2 cur hcur =>
    refine .inl ?_
    rw [List.nil_append, splitLinesFrom_feed, splitLinesFrom, if_neg hcur]
    rfl
  | case3 cur cs ih =>
    simp only [List.cons_append, splitLinesFrom]
    exact ih.imp (congrArg _) (congrArg _)
  | case4 cur c cs hpair hbreak ih =>
    by_cases hend : c = '\r' ∧ cs = []
    · obtain ⟨rfl, rfl⟩ := hend
      exact .inl rfl
    · rw [List.cons_append, splitLinesFrom_cons (unpaired_append hpair hend []), if_pos hbreak,
        splitLinesFrom_cons hpair, if_pos hbreak]
      exact ih.imp (congrArg _) (congrArg _)
  | case5 cur c cs hpair hbreak ih =>
    have hcr : c ≠ '\r' := fun h => by
      subst h
      exact hbreak rfl
    rw [List.cons_append, splitLinesFrom_cons (fun _ h => absurd h hcr), if_neg hbreak,
      splitLinesFrom_cons (fun _ h => absurd h hcr), if_neg hbreak]
    exact ih

/-- A text without line ends is one line. -/
theorem splitLinesFrom_solid {cs : List Char} (h : ∀ c ∈ cs, isLineBreak c = false)
    (cur : List Char) : splitLinesFrom cur cs = if cur ++ cs = [] then [] else [cur ++ cs] := by
  induction cs generalizing cur with
  | nil => rw [splitLinesFrom, List.append_nil]
  | cons c cs ih =>
    have hc := h c List.mem_cons_self
    have hcr : c ≠ '\r' := fun hcr => by
      subst hcr
      cases hc
    rw [splitLinesFrom_cons (fun _ hcr' => absurd hcr' hcr), hc, if_neg Bool.false_ne_true,
      ih (fun x hx => h x (List.mem_cons_of_mem _ hx)), List.append_assoc, List.singleton_append]

end lines

end Nssf.Base.PyText
