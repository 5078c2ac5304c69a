import Mathlib.Data.List.Perm.Subperm
import Nssf.Base.Dict

/-! Double-quoted scalars and flow mappings of them, as YAML 1.1 reads them. Blanks around a line
break are dropped, a single break becomes a blank, and the line and paragraph separators stay. -/

namespace Nssf.Base.Flow

abbrev Text := List Char

def isBlank (c : Char) : Bool := c == ' ' || c == '\t'

/-- The separators keep their place when lines are folded. -/
def isSeparator (c : Char) : Bool := c == '\u2028' || c == '\u2029'

def isBreak (c : Char) : Bool := c == '\n' || c == '\r' || c == '\u0085' || isSeparator c

/-- A line break as it is read. -/
def normal (c : Char) : Char := if isSeparator c then c else '\n'

/-- `---` or `...` at the beginning of a line ends the document. -/
def isMarker (cs : Text) : Bool :=
  ("---".toList.isPrefixOf cs || "...".toList.isPrefixOf cs) &&
    (cs.drop 3).head?.all fun c => isBlank c || isBreak c

/-- What is read but not yet written: blanks that may turn out to end a line, breaks that may be
folded, an escape that has begun. -/
inductive Run where
  | text
  | blanks (ws : Text)
  | folded (first : Char) (more : Text)
  | joined (more : Text)
  | escape
  | hex (left acc : ℕ)

/-- What the run adds when something else than a blank or a break comes. -/
def Run.out : Run → Text
  | text => []
  | blanks ws => ws
  | folded first more => (if first ≠ '\n' then [first] else if more = [] then [' '] else []) ++ more
  | joined more => more
  | escape => []
  | hex _ _ => []

def hexValue? (c : Char) : Option ℕ :=
  if '0' ≤ c ∧ c ≤ '9' then some (c.toNat - '0'.toNat)
  else if 'a' ≤ c ∧ c ≤ 'f' then some (c.toNat - 'a'.toNat + 10)
  else if 'A' ≤ c ∧ c ≤ 'F' then some (c.toNat - 'A'.toNat + 10)
  else none

def escaped? (c : Char) : Option Char :=
  match c with
  | '0' => some '\x00'
  | 'a' => some '\x07'
  | 'b' => some '\x08'
  | 't' => some '\t'
  | '\t' => some '\t'
  | 'n' => some '\n'
  | 'v' => some '\x0b'
  | 'f' => some '\x0c'
  | 'r' => some '\r'
  | 'e' => some '\x1b'
  | ' ' => some ' '
  | '"' => some '"'
  | '\\' => some '\\'
  | '/' => some '/'
  | 'N' => some '\u0085'
  | '_' => some '\u00a0'
  | 'L' => some '\u2028'
  | 'P' => some '\u2029'
  | _ => none

/-- How many digits the code of a character has. -/
def codeLength? (c : Char) : Option ℕ :=
  match c with
  | 'x' => some 2
  | 'u' => some 4
  | 'U' => some 8
  | _ => none

def charOf? (n : ℕ) : Option Char := if n.isValidChar then some (Char.ofNat n) else none

def Run.blank (r : Run) (c : Char) : Run :=
  match r with
  | blanks ws => blanks (ws ++ [c])
  | folded first more => folded first more
  | joined more => joined more
  | _ => blanks [c]

def Run.newline (r : Run) (c : Char) : Run :=
  match r with
  | folded first more => folded first (more ++ [normal c])
  | joined more => joined (more ++ [normal c])
  | _ => folded (normal c) []

def prepend (out : Text) (r : Text × Text) : Text × Text := (out ++ r.1, r.2)

/-- After the opening quote: the value, and what is left after the closing one. -/
def scan : Run → Text → Option (Text × Text)
  | _, [] => none
  | .escape, c :: cs =>
    match escaped? c with
    | some out => (scan .text cs).map (prepend [out])
    | none =>
      match codeLength? c with
      | some left => scan (.hex left 0) cs
      | none =>
        if c = '\r' ∧ cs.head? = some '\n' then scan .escape cs
        else if isBreak c ∧ ¬isMarker cs then scan (.joined []) cs
        else none
  | .hex left acc, c :: cs =>
    match hexValue? c with
    | none => none
    | some d =>
      if left ≤ 1 then
        (charOf? (16 * acc + d)).bind fun out => (scan .text cs).map (prepend [out])
      else scan (.hex (left - 1) (16 * acc + d)) cs
  | r, c :: cs =>
    if c = '"' then some (r.out, cs)
    else if c = '\\' then (scan .escape cs).map (prepend r.out)
    else if isBlank c then scan (r.blank c) cs
    else if c = '\r' ∧ cs.head? = some '\n' then scan r cs
    else if isBreak c then if isMarker cs then none else scan (r.newline c) cs
    else (scan .text cs).map (prepend (r.out ++ [c]))

example : scan .text "a\\\"b  \n  c\" rest".toList = some ("a\"b c".toList, " rest".toList) := by
  decide

/-- No escape has begun. -/
def Run.isPlain : Run → Bool
  | escape => false
  | hex _ _ => false
  | _ => true

theorem scan_plain {r : Run} (hr : r.isPlain = true) (c : Char) (cs : Text) :
    scan r (c :: cs) =
      if c = '"' then some (r.out, cs)
      else if c = '\\' then (scan .escape cs).map (prepend r.out)
      else if isBlank c then scan (r.blank c) cs
      else if c = '\r' ∧ cs.head? = some '\n' then scan r cs
      else if isBreak c then if isMarker cs then none else scan (r.newline c) cs
      else (scan .text cs).map (prepend (r.out ++ [c])) := by
  cases r with
  | escape => cases hr
  | hex left acc => cases hr
  | text => rfl
  | blanks ws => rfl
  | folded first more => rfl
  | joined more => rfl

theorem scan_escape (c : Char) (cs : Text) :
    scan .escape (c :: cs) =
      match escaped? c with
      | some out => (scan .text cs).map (prepend [out])
      | none =>
        match codeLength? c with
        | some left => scan (.hex left 0) cs
        | none =>
          if c = '\r' ∧ cs.head? = some '\n' then scan .escape cs
          else if isBreak c ∧ ¬isMarker cs then scan (.joined []) cs
          else none := rfl

theorem scan_hex (left acc : ℕ) (c : Char) (cs : Text) :
    scan (.hex left acc) (c :: cs) =
      match hexValue? c with
      | none => none
      | some d =>
        if left ≤ 1 then
          (charOf? (16 * acc + d)).bind fun out => (scan .text cs).map (prepend [out])
        else scan (.hex (left - 1) (16 * acc + d)) cs := rfl

section measure

/-- A weight of characters that no reading makes larger; an escape that has begun may add to what
is read by as much as `credit`. -/
structure Measure where
  of : Char → ℕ
  credit : ℕ
  quote : of '"' = 1
  escape : credit ≤ of '\\'
  simple : ∀ c out, escaped? c = some out → of out ≤ credit + of c
  code : ∀ c d out, hexValue? c = some d → of out ≤ credit + of c
  newline : ∀ c, isBreak c = true → of (normal c) ≤ of c
  fold : ∀ c, isBreak c = true → of ' ' ≤ of (normal c)

def Measure.total (m : Measure) : Text → ℕ
  | [] => 0
  | c :: cs => m.of c + m.total cs

variable (m : Measure)

@[simp]
theorem Measure.total_nil : m.total [] = 0 := rfl

@[simp]
theorem Measure.total_cons (c : Char) (cs : Text) : m.total (c :: cs) = m.of c + m.total cs := rfl

@[simp]
theorem Measure.total_append (cs cs' : Text) : m.total (cs ++ cs') = m.total cs + m.total cs' := by
  induction cs with
  | nil => exact (Nat.zero_add _).symm
  | cons c cs ih =>
    rw [List.cons_append, total_cons, total_cons, ih]
    omega

def Run.credit (m : Measure) : Run → ℕ
  | escape => m.credit
  | hex _ _ => m.credit
  | _ => 0

theorem total_blank (r : Run) (c : Char) :
    m.total (r.blank c).out ≤ m.total r.out + m.of c := by
  cases r <;> simp [Run.blank, Run.out]

theorem total_newline (r : Run) {c : Char} (h : isBreak c = true) :
    m.total (r.newline c).out ≤ m.total r.out + m.of c := by
  have hbreak := m.newline c h
  have hfold := m.fold c h
  cases r with
  | folded first more =>
    have hne : more ++ [normal c] ≠ [] := by simp
    simp only [Run.newline, Run.out, if_neg hne]
    split_ifs <;> simp <;> omega
  | joined more =>
    simp only [Run.newline, Run.out, Measure.total_append, Measure.total_cons, Measure.total_nil]
    omega
  | text =>
    simp only [Run.newline, Run.out]
    split_ifs <;> simp <;> omega
  | blanks ws =>
    simp only [Run.newline, Run.out]
    split_ifs <;> simp <;> omega
  | escape =>
    simp only [Run.newline, Run.out]
    split_ifs <;> simp <;> omega
  | hex left acc =>
    simp only [Run.newline, Run.out]
    split_ifs <;> simp <;> omega

theorem credit_blank (r : Run) (c : Char) : (r.blank c).credit m = 0 := by
  cases r <;> rfl

theorem credit_newline (r : Run) (c : Char) : (r.newline c).credit m = 0 := by
  cases r <;> rfl

theorem map_prepend_eq_some {x : Option (Text × Text)} {out v rest : Text}
    (h : x.map (prepend out) = some (v, rest)) : ∃ v', x = some (v', rest) ∧ v = out ++ v' := by
  obtain ⟨⟨v', rest'⟩, rfl, heq⟩ := Option.map_eq_some_iff.1 h
  cases heq
  exact ⟨v', rfl, rfl⟩

/-- What is read from `cs` is no heavier than `cs`. -/
def Bounded (m : Measure) (rest cs : Text) : Prop :=
  ∀ r v, scan r cs = some (v, rest) →
    m.total v + 1 + m.total rest ≤ m.total cs + m.total r.out + r.credit m

variable {m}

theorem Bounded.text {rest cs v : Text} (h : Bounded m rest cs)
    (hread : scan .text cs = some (v, rest)) : m.total v + 1 + m.total rest ≤ m.total cs :=
  h .text v hread

theorem Bounded.plain {rest cs : Text} (h : Bounded m rest cs) {r : Run} (hr : r.isPlain = true)
    {c : Char} {v : Text} (hread : scan r (c :: cs) = some (v, rest)) :
    m.total v + 1 + m.total rest ≤ m.total (c :: cs) + m.total r.out + r.credit m := by
  rw [scan_plain hr] at hread
  rw [Measure.total_cons]
  split_ifs at hread with hquote hback hblank hreturn hbreak hmarker
  · cases hread
    rw [hquote, m.quote]
    omega
  · obtain ⟨v', hread', rfl⟩ := map_prepend_eq_some hread
    have hrest : m.total v' + 1 + m.total rest ≤ m.total cs + m.credit := h .escape v' hread'
    have hcredit := m.escape
    rw [Measure.total_append, hback]
    omega
  · have hrest := h (r.blank c) v hread
    have hout := total_blank m r c
    rw [credit_blank] at hrest
    omega
  · have hrest := h r v hread
    omega
  · have hrest := h (r.newline c) v hread
    have hout := total_newline m r hbreak
    rw [credit_newline] at hrest
    omega
  · obtain ⟨v', hread', rfl⟩ := map_prepend_eq_some hread
    have hrest := h.text hread'
    simp only [Measure.total_append, Measure.total_cons, Measure.total_nil]
    omega

theorem Bounded.escape {rest cs : Text} (h : Bounded m rest cs) {c : Char} {v : Text}
    (hread : scan .escape (c :: cs) = some (v, rest)) :
    m.total v + 1 + m.total rest ≤ m.total (c :: cs) + m.credit := by
  rw [scan_escape] at hread
  rw [Measure.total_cons]
  cases hesc : escaped? c with
  | some out =>
    rw [hesc] at hread
    obtain ⟨v', hread', rfl⟩ := map_prepend_eq_some hread
    have hrest := h.text hread'
    have hout := m.simple c out hesc
    simp only [Measure.total_append, Measure.total_cons, Measure.total_nil]
    omega
  | none =>
    rw [hesc] at hread
    cases hcode : codeLength? c with
    | some left =>
      rw [hcode] at hread
      have hrest : m.total v + 1 + m.total rest ≤ m.total cs + m.credit := h (.hex left 0) v hread
      omega
    | none =>
      rw [hcode] at hread
      simp only at hread
      split_ifs at hread
      · have hrest : m.total v + 1 + m.total rest ≤ m.total cs + m.credit := h .escape v hread
        omega
      · have hrest : m.total v + 1 + m.total rest ≤ m.total cs := h (.joined []) v hread
        omega

theorem Bounded.hex {rest cs : Text} (h : Bounded m rest cs) {left acc : ℕ} {c : Char} {v : Text}
    (hread : scan (.hex left acc) (c :: cs) = some (v, rest)) :
    m.total v + 1 + m.total rest ≤ m.total (c :: cs) + m.credit := by
  rw [scan_hex] at hread
  rw [Measure.total_cons]
  cases hvalue : hexValue? c with
  | none =>
    rw [hvalue] at hread
    cases hread
  | some d =>
    rw [hvalue] at hread
    simp only at hread
    split_ifs at hread
    · obtain ⟨out, -, hread⟩ := Option.bind_eq_some_iff.1 hread
      obtain ⟨v', hread', rfl⟩ := map_prepend_eq_some hread
      have hrest := h.text hread'
      have hout := m.code c d out hvalue
      simp only [Measure.total_append, Measure.total_cons, Measure.total_nil]
      omega
    · have hrest : m.total v + 1 + m.total rest ≤ m.total cs + m.credit := h (.hex _ _) v hread
      omega

/-- What is read is no heavier than what it is read from. -/
theorem scan_total (rest cs : Text) : Bounded m rest cs := by
  induction cs with
  | nil =>
    intro r v h
    rw [scan] at h
    cases h
  | cons c cs ih =>
    intro r v h
    cases r with
    | text => exact ih.plain rfl h
    | blanks ws => exact ih.plain rfl h
    | folded first more => exact ih.plain rfl h
    | joined more => exact ih.plain rfl h
    | escape => exact ih.escape h
    | hex left acc => exact ih.hex h

end measure

theorem normal_ne_quote {c : Char} : normal c ≠ '"' ∧ normal c ≠ '\\' := by
  rw [normal]
  split_ifs with hsep
  · constructor
    · rintro rfl
      exact absurd hsep (by decide)
    · rintro rfl
      exact absurd hsep (by decide)
  · decide

theorem normal_separator {c : Char} (h : isSeparator c = true) : normal c = c := if_pos h

theorem normal_ne_newline {c : Char} (h : isSeparator c = true) : normal c ≠ '\n' := by
  rw [normal_separator h]
  rintro rfl
  exact absurd h (by decide)

/-- How many quotes and backslashes there are. -/
def quotes : Measure where
  of c := if c = '"' ∨ c = '\\' then 1 else 0
  credit := 1
  quote := rfl
  escape := Nat.le_refl _
  simple c out _ := by split_ifs <;> omega
  code c d out _ := by split_ifs <;> omega
  newline c _ := by
    rw [if_neg (by simp [normal_ne_quote])]
    exact Nat.zero_le _
  fold c _ := by
    rw [if_neg (by decide)]
    exact Nat.zero_le _

def lengths : Measure where
  of _ := 1
  credit := 0
  quote := rfl
  escape := Nat.zero_le _
  simple _ _ _ := Nat.le_refl _
  code _ _ _ _ := Nat.le_refl _
  newline _ _ := Nat.le_refl _
  fold _ _ := Nat.le_refl _

@[simp]
theorem lengths_total (cs : Text) : lengths.total cs = cs.length := by
  induction cs with
  | nil => rfl
  | cons c cs ih =>
    have hc : lengths.of c = 1 := rfl
    rw [Measure.total_cons, ih, hc, List.length_cons]
    omega

theorem scan_length {r : Run} {cs v rest : Text} (h : scan r cs = some (v, rest)) :
    v.length + 1 + rest.length ≤ cs.length + r.out.length := by
  have hbound := @scan_total lengths rest cs r v h
  have hcredit : r.credit lengths = 0 := by cases r <;> rfl
  rw [hcredit] at hbound
  simpa using hbound

/-- A character either closes the scalar or is passed over. -/
theorem scan_step {r : Run} {c : Char} {cs v rest : Text}
    (h : scan r (c :: cs) = some (v, rest)) :
    (c = '"' ∧ rest = cs) ∨ ∃ r' v', scan r' cs = some (v', rest) := by
  by_cases hr : r.isPlain = true
  · rw [scan_plain hr] at h
    split_ifs at h with hquote
    · cases h
      exact .inl ⟨hquote, rfl⟩
    · obtain ⟨v', h, -⟩ := map_prepend_eq_some h
      exact .inr ⟨_, v', h⟩
    · exact .inr ⟨_, v, h⟩
    · exact .inr ⟨_, v, h⟩
    · exact .inr ⟨_, v, h⟩
    · obtain ⟨v', h, -⟩ := map_prepend_eq_some h
      exact .inr ⟨_, v', h⟩
  · cases r with
    | text => exact absurd rfl hr
    | blanks ws => exact absurd rfl hr
    | folded first more => exact absurd rfl hr
    | joined more => exact absurd rfl hr
    | escape =>
      rw [scan_escape] at h
      cases hesc : escaped? c with
      | some out =>
        rw [hesc] at h
        obtain ⟨v', h, -⟩ := map_prepend_eq_some h
        exact .inr ⟨_, v', h⟩
      | none =>
        rw [hesc] at h
        cases hcode : codeLength? c with
        | some left =>
          rw [hcode] at h
          exact .inr ⟨_, v, h⟩
        | none =>
          rw [hcode] at h
          simp only at h
          split_ifs at h
          · exact .inr ⟨_, v, h⟩
          · exact .inr ⟨_, v, h⟩
    | hex left acc =>
      rw [scan_hex] at h
      cases hvalue : hexValue? c with
      | none =>
        rw [hvalue] at h
        cases h
      | some d =>
        rw [hvalue] at h
        simp only at h
        split_ifs at h
        · obtain ⟨out, -, h⟩ := Option.bind_eq_some_iff.1 h
          obtain ⟨v', h, -⟩ := map_prepend_eq_some h
          exact .inr ⟨_, v', h⟩
        · exact .inr ⟨_, v, h⟩

theorem scan_suffix {r : Run} {cs v rest : Text} (h : scan r cs = some (v, rest)) :
    '"' :: rest <:+ cs := by
  induction cs generalizing r v with
  | nil =>
    rw [scan] at h
    cases h
  | cons c cs ih =>
    obtain ⟨rfl, rfl⟩ | ⟨r', v', h⟩ := scan_step h
    · exact List.suffix_rfl
    · exact (ih h).trans (List.suffix_cons c cs)

section steady

/-- Where the reading of a text stands that has been the text itself so far. -/
inductive Phase where
  | text
  | blank
  | broken
  deriving DecidableEq

/-- The text reads as itself between quotes: no quote and no backslash stands in it and no line
break that is folded, which leaves the line and paragraph separators without blanks beside them
and the line feeds after these. -/
def steady : Phase → Text → Bool
  | _, [] => true
  | p, c :: cs =>
    if c = '"' ∨ c = '\\' then false
    else if isBlank c then p != .broken && steady .blank cs
    else if isBreak c then
      ((isSeparator c && p != .blank) || (c == '\n' && p == .broken)) &&
        !isMarker (cs ++ ['"']) && steady .broken cs
    else steady .text cs

/-- The run that belongs to a phase. -/
inductive Run.At : Run → Phase → Prop where
  | text : At text .text
  | blank {ws : Text} (h : ws ≠ []) : At (blanks ws) .blank
  | broken {first : Char} {more : Text} (h : first ≠ '\n') : At (folded first more) .broken

theorem Run.At.isPlain {r : Run} {p : Phase} (h : r.At p) : r.isPlain = true := by
  cases h <;> rfl

theorem folded_out {first : Char} (hfirst : first ≠ '\n') (more : Text) :
    (Run.folded first more).out = first :: more := by
  rw [Run.out, if_pos hfirst]
  rfl

theorem folded_single (first : Char) : (Run.folded first []).out.length = 1 := by
  rw [Run.out, if_pos rfl]
  split_ifs
  · rfl
  · rfl

theorem newline_text (c : Char) : Run.text.newline c = .folded (normal c) [] := rfl

theorem newline_blanks (ws : Text) (c : Char) :
    (Run.blanks ws).newline c = .folded (normal c) [] := rfl

theorem newline_folded (first : Char) (more : Text) (c : Char) :
    (Run.folded first more).newline c = .folded first (more ++ [normal c]) := rfl

theorem isMarker_append (cs rest : Text) :
    isMarker (cs ++ '"' :: rest) = isMarker (cs ++ ['"']) := by
  rcases cs with _ | ⟨a, _ | ⟨b, _ | ⟨c, _ | ⟨d, cs⟩⟩⟩⟩
  · rfl
  · simp [isMarker, List.isPrefixOf]
  · simp [isMarker, List.isPrefixOf]
  · simp [isMarker, List.isPrefixOf]
  · simp [isMarker, List.isPrefixOf]

theorem steady_cons {p : Phase} {c : Char} {cs : Text} (h : steady p (c :: cs) = true) :
    c ≠ '"' ∧ c ≠ '\\' := by
  rw [steady] at h
  split_ifs at h with hquote
  · exact not_or.1 hquote
  · exact not_or.1 hquote
  · exact not_or.1 hquote

/-- A steady text is read back, whatever comes after its closing quote. -/
theorem scan_steady {r : Run} {p : Phase} (hr : r.At p) {text : Text}
    (h : steady p text = true) (rest : Text) :
    scan r (text ++ '"' :: rest) = some (r.out ++ text, rest) := by
  induction text generalizing r p with
  | nil => rw [List.nil_append, List.append_nil, scan_plain hr.isPlain, if_pos rfl]
  | cons c cs ih =>
    obtain ⟨hquote, hback⟩ := steady_cons h
    rw [steady, if_neg (not_or.2 ⟨hquote, hback⟩)] at h
    rw [List.cons_append, scan_plain hr.isPlain, if_neg hquote, if_neg hback]
    by_cases hblank : isBlank c = true
    · rw [if_pos hblank, Bool.and_eq_true] at h
      rw [if_pos hblank]
      cases hr with
      | text => exact ih (.blank (List.cons_ne_nil _ _)) h.2
      | blank hws =>
        rw [Run.blank, ih (.blank (by simp)) h.2]
        simp [Run.out]
      | broken _ => exact absurd h.1 (by decide)
    · rw [if_neg hblank] at h ⊢
      by_cases hbreak : isBreak c = true
      · rw [if_pos hbreak, Bool.and_eq_true, Bool.and_eq_true, Bool.not_eq_true'] at h
        obtain ⟨⟨hkeep, hmarker⟩, h⟩ := h
        have hreturn : ¬(c = '\r' ∧ (cs ++ '"' :: rest).head? = some '\n') := by
          rintro ⟨rfl, -⟩
          cases hr <;> exact absurd hkeep (by decide)
        rw [if_neg hreturn, if_pos hbreak, isMarker_append, hmarker, if_neg Bool.false_ne_true]
        cases hr with
        | text =>
          have hsep : isSeparator c = true := by simpa using hkeep
          have hne : normal c ≠ '\n' := normal_ne_newline hsep
          rw [newline_text, ih (.broken hne) h, folded_out hne, normal_separator hsep]
          rfl
        | blank => simp at hkeep
        | broken hfirst =>
          have hnormal : normal c = c := by
            by_cases hsep : isSeparator c = true
            · exact normal_separator hsep
            · simp only [hsep, Bool.false_and, Bool.false_or, Bool.and_eq_true, beq_iff_eq] at hkeep
              rw [hkeep.1]
              rfl
          rw [newline_folded, ih (.broken hfirst) h, folded_out hfirst, folded_out hfirst, hnormal]
          simp
      · have hreturn : ¬(c = '\r' ∧ (cs ++ '"' :: rest).head? = some '\n') := by
          rintro ⟨rfl, -⟩
          exact hbreak rfl
        rw [if_neg hbreak] at h
        rw [if_neg hreturn, if_neg hbreak, ih .text h]
        simp [prepend, Run.out]

/-- What a run with a separator in front will add is there to stay. -/
theorem folded_prefix {first : Char} (hfirst : first ≠ '\n') {more cs v rest : Text}
    (h : scan (.folded first more) cs = some (v, rest)) : first :: more <+: v := by
  have hout := folded_out hfirst
  induction cs generalizing more with
  | nil =>
    rw [scan] at h
    cases h
  | cons c cs ih =>
    rw [scan_plain rfl] at h
    split_ifs at h
    · cases h
      exact ⟨[], by rw [List.append_nil, hout]⟩
    · obtain ⟨v', -, rfl⟩ := map_prepend_eq_some h
      rw [hout]
      exact List.prefix_append _ _
    · exact ih h
    · exact ih h
    · exact (List.prefix_append (first :: more) [normal c]).trans (ih h)
    · obtain ⟨v', -, rfl⟩ := map_prepend_eq_some h
      rw [hout, List.append_assoc]
      exact List.prefix_append _ _

/-- A single line break is read as a blank; more of them lose one. -/
theorem folded_newline {cs v rest : Text} (h : scan (.folded '\n' []) cs = some (v, rest)) :
    v.head? = some ' ' ∨ v.length + 1 + rest.length ≤ cs.length := by
  induction cs with
  | nil =>
    rw [scan] at h
    cases h
  | cons c cs ih =>
    rw [scan_plain rfl] at h
    split_ifs at h
    · cases h
      exact .inl rfl
    · obtain ⟨v', -, rfl⟩ := map_prepend_eq_some h
      exact .inl rfl
    · exact (ih h).imp_right fun hle => by rw [List.length_cons]; omega
    · exact (ih h).imp_right fun hle => by rw [List.length_cons]; omega
    · have hle := scan_length h
      exact .inr (by simpa [Run.newline, Run.out] using hle)
    · obtain ⟨v', -, rfl⟩ := map_prepend_eq_some h
      exact .inl rfl

/-- Only a steady text is read back with the rest left as it is. -/
theorem steady_of_scan {r : Run} {p : Phase} (hr : r.At p) {text rest : Text}
    (h : scan r (text ++ '"' :: rest) = some (r.out ++ text, rest)) : steady p text = true := by
  induction text generalizing r p with
  | nil => rfl
  | cons c cs ih =>
    have hlong : ¬(r.out ++ c :: cs).length + 1 + rest.length ≤
        (cs ++ '"' :: rest).length + r.out.length := by simp; omega
    rw [List.cons_append, scan_plain hr.isPlain] at h
    split_ifs at h with hquote hback hblank hreturn hbreak hmarker
    · rw [Option.some.injEq, Prod.mk.injEq] at h
      have hlen := congrArg List.length h.1
      simp at hlen
    · obtain ⟨v', h, heq⟩ := map_prepend_eq_some h
      have hlen := scan_length h
      rw [heq] at hlong
      simp [Run.out] at hlen hlong
      omega
    · rw [steady, if_neg (not_or.2 ⟨hquote, hback⟩), if_pos hblank]
      cases hr with
      | text => exact ih (.blank (List.cons_ne_nil _ _)) h
      | @blank ws hws =>
        have hne : ws ++ [c] ≠ [] := by simp
        refine ih (.blank hne) ?_
        rw [Run.blank] at h
        rw [h]
        simp [Run.out]
      | broken _ => exact absurd (scan_length h) hlong
    · exact absurd (scan_length h) hlong
    · rw [isMarker_append] at hmarker
      rw [steady, if_neg (not_or.2 ⟨hquote, hback⟩), if_neg hblank, if_pos hbreak]
      cases hr with
      | text =>
        rw [newline_text] at h
        by_cases hsep : isSeparator c = true
        · have hne := normal_ne_newline hsep
          have hrest := ih (.broken hne) (by
            rw [h, folded_out hne, normal_separator hsep]
            rfl)
          simp [hsep, hmarker, hrest]
        · have hnormal : normal c = '\n' := if_neg hsep
          rw [hnormal] at h
          obtain hhead | hlen := folded_newline h
          · have hspace : c = ' ' := by simpa [Run.out] using hhead
            exact absurd (by rw [hspace]; rfl) hblank
          · exact absurd hlen (by simp [Run.out]; omega)
      | @blank ws hws =>
        have hlen := scan_length h
        have hpos := List.length_pos_of_ne_nil hws
        rw [newline_blanks, folded_single, Run.out] at hlen
        simp only [List.length_append, List.length_cons] at hlen
        omega
      | @broken first more hfirst =>
        rw [newline_folded] at h
        have hpre := folded_prefix hfirst h
        rw [folded_out hfirst, List.cons_append, List.cons_prefix_cons] at hpre
        have hnormal : normal c = c := by
          have := (List.prefix_append_right_inj more).1 hpre.2
          exact (List.cons_prefix_cons.1 this).1
        have hrest := ih (.broken hfirst) (by
          rw [h, folded_out hfirst, folded_out hfirst, hnormal]
          simp)
        by_cases hsep : isSeparator c = true
        · simp [hsep, hmarker, hrest]
        · have hnewline : c = '\n' := by rw [← hnormal, normal, if_neg hsep]
          simp [hnewline, hmarker, hrest]
    · obtain ⟨v', h, heq⟩ := map_prepend_eq_some h
      rw [List.append_assoc, List.append_cancel_left_eq] at heq
      rw [steady, if_neg (not_or.2 ⟨hquote, hback⟩), if_neg hblank, if_neg hbreak]
      cases heq
      exact ih .text h

/-- A text that is read as itself, with as many quotes left as come after it, is steady. -/
theorem read_back {text rest rest' : Text}
    (h : scan .text (text ++ '"' :: rest) = some (text, rest'))
    (hquotes : quotes.total rest ≤ quotes.total rest') :
    rest' = rest ∧ steady .text text = true := by
  have hsuffix := scan_suffix h
  have hlen := scan_length h
  have hrest : rest' = rest := by
    have hle : rest'.length ≤ rest.length := by
      simp only [List.length_append, List.length_cons, Run.out, List.length_nil] at hlen
      omega
    have hall : rest <:+ text ++ '"' :: rest := ⟨text ++ ['"'], by simp⟩
    obtain hlt | heq := Nat.lt_or_eq_of_le hle
    · obtain ⟨before, hbefore⟩ := List.suffix_of_suffix_length_le hsuffix hall (by simp; omega)
      rw [← hbefore, Measure.total_append, Measure.total_cons, quotes.quote] at hquotes
      omega
    · exact List.IsSuffix.eq_of_length
        (List.suffix_of_suffix_length_le ((List.suffix_cons '"' rest').trans hsuffix) hall
          (Nat.le_of_eq heq)) heq
  subst hrest
  exact ⟨rfl, steady_of_scan .text h⟩

end steady

end Nssf.Base.Flow
