import Nssf.Base.Flow

/-! Flow mappings with double-quoted values, and block sequences of them. A key that is given twice
keeps its last value, which is for the reader of the pairs to see to. -/

namespace Nssf.Base.Flow

/-- Spaces, line breaks and comments between tokens. -/
def skipSpace (comment : Bool) : Text → Text
  | [] => []
  | c :: cs =>
    if comment then skipSpace (!isBreak c) cs
    else if c = ' ' ∨ isBreak c then skipSpace false cs
    else if c = '#' then skipSpace true cs
    else c :: cs

def expect? (c : Char) : Text → Option Text
  | [] => none
  | d :: cs => if d = c then some cs else none

/-- A key is a word; a space or a line break follows its colon. -/
def readPair (cs : Text) : Option ((Text × Text) × Text) :=
  let key := cs.takeWhile Char.isAlpha
  (expect? ':' (cs.dropWhile Char.isAlpha)).bind fun after =>
    if key ≠ [] ∧ after.head?.any (fun c => c = ' ' ∨ isBreak c) then
      (expect? '"' (skipSpace false after)).bind fun quoted =>
        (scan .text quoted).map fun r => ((key, r.1), r.2)
    else none

/-- After the opening brace; there may be a comma before the closing one. -/
def readPairs : ℕ → Text → Option (List (Text × Text) × Text)
  | 0, _ => none
  | fuel + 1, cs =>
    match expect? '}' (skipSpace false cs) with
    | some rest => some ([], rest)
    | none => (readPair (skipSpace false cs)).bind fun p =>
      match expect? ',' (skipSpace false p.2) with
      | some rest => (readPairs fuel rest).map fun r => (p.1 :: r.1, r.2)
      | none => (expect? '}' (skipSpace false p.2)).map fun rest => ([p.1], rest)

def readFlow (cs : Text) : Option (List (Text × Text) × Text) :=
  (expect? '{' cs).bind fun rest => readPairs (rest.length + 1) rest

def afterLiteral? (lit cs : Text) : Option Text :=
  if lit.isPrefixOf cs then some (cs.drop lit.length) else none

/-- The entries of a block sequence at the indentation of `dash`, each on a line. -/
def readEntries (dash : Text) : ℕ → Text → Option (List (List (Text × Text)) × Text)
  | 0, _ => none
  | fuel + 1, cs =>
    match afterLiteral? dash cs with
    | none => some ([], cs)
    | some rest => (readFlow rest).bind fun p =>
      (expect? '\n' p.2).bind fun rest =>
        (readEntries dash fuel rest).map fun r => (p.1 :: r.1, r.2)

def fieldText (f : Text × Text) : Text := f.1 ++ ": \"".toList ++ f.2 ++ ['"']

/-- The fields of a mapping up to its closing brace. -/
def fieldsText : List (Text × Text) → Text
  | [] => "\x7d".toList
  | [f] => fieldText f ++ " \x7d".toList
  | f :: fs => fieldText f ++ ", ".toList ++ fieldsText fs

def entryText (dash : Text) (fields : List (Text × Text)) : Text :=
  dash ++ "\x7b ".toList ++ fieldsText fields ++ ['\n']

def entriesText (dash : Text) (entries : List (List (Text × Text))) : Text :=
  entries.flatMap (entryText dash)

section cost

theorem skipSpace_suffix (comment : Bool) (cs : Text) : skipSpace comment cs <:+ cs := by
  induction cs generalizing comment with
  | nil => exact List.suffix_rfl
  | cons c cs ih =>
    rw [skipSpace]
    split_ifs
    · exact (ih _).trans (List.suffix_cons c cs)
    · exact (ih _).trans (List.suffix_cons c cs)
    · exact (ih _).trans (List.suffix_cons c cs)
    · exact List.suffix_rfl

theorem quotes_le_of_suffix {cs cs' : Text} (h : cs <:+ cs') :
    quotes.total cs ≤ quotes.total cs' := by
  obtain ⟨before, rfl⟩ := h
  rw [Measure.total_append]
  omega

theorem quotes_skipSpace (comment : Bool) (cs : Text) :
    quotes.total (skipSpace comment cs) ≤ quotes.total cs :=
  quotes_le_of_suffix (skipSpace_suffix comment cs)

/-- The quotes that the pairs of a mapping take. -/
def cost : List (Text × Text) → ℕ
  | [] => 0
  | p :: pairs => 2 + quotes.total p.2 + cost pairs

@[simp]
theorem cost_nil : cost [] = 0 := rfl

@[simp]
theorem cost_cons (p : Text × Text) (pairs : List (Text × Text)) :
    cost (p :: pairs) = 2 + quotes.total p.2 + cost pairs := rfl

theorem expect?_eq_some_iff {c : Char} {cs rest : Text} :
    expect? c cs = some rest ↔ cs = c :: rest := by
  cases cs with
  | nil => simp [expect?]
  | cons d cs =>
    rw [expect?]
    constructor
    · intro h
      split_ifs at h with hd
      cases h
      rw [hd]
    · intro h
      cases h
      exact if_pos rfl

theorem quotes_expect {c : Char} {cs rest : Text} (h : expect? c cs = some rest) :
    quotes.of c + quotes.total rest = quotes.total cs := by
  rw [expect?_eq_some_iff.1 h, Measure.total_cons]

theorem readPair_cost {cs rest : Text} {p : Text × Text} (h : readPair cs = some (p, rest)) :
    2 + quotes.total p.2 + quotes.total rest ≤ quotes.total cs := by
  rw [readPair] at h
  obtain ⟨after, hcolon, h⟩ := Option.bind_eq_some_iff.1 h
  split_ifs at h
  obtain ⟨quoted, hquote, h⟩ := Option.bind_eq_some_iff.1 h
  obtain ⟨⟨v, rest'⟩, hscan, heq⟩ := Option.map_eq_some_iff.1 h
  cases heq
  have hvalue : quotes.total v + 1 + quotes.total rest' ≤ quotes.total quoted :=
    @scan_total quotes rest' quoted .text v hscan
  have hspace := quotes_skipSpace false after
  have hkey := quotes_le_of_suffix (@List.dropWhile_suffix _ cs Char.isAlpha)
  have hcolon := quotes_expect hcolon
  have hquote := quotes_expect hquote
  rw [quotes.quote] at hquote
  simp only
  omega

theorem readPairs_cost {fuel : ℕ} {cs rest : Text} {pairs : List (Text × Text)}
    (h : readPairs fuel cs = some (pairs, rest)) :
    cost pairs + quotes.total rest ≤ quotes.total cs := by
  induction fuel generalizing cs pairs with
  | zero => cases h
  | succ fuel ih =>
    have hspace := quotes_skipSpace false cs
    rw [readPairs] at h
    cases hclosed : expect? '}' (skipSpace false cs) with
    | some after =>
      rw [hclosed] at h
      cases h
      have hbrace := quotes_expect hclosed
      rw [cost_nil]
      omega
    | none =>
      rw [hclosed] at h
      obtain ⟨⟨p, after⟩, hpair, h⟩ := Option.bind_eq_some_iff.1 h
      have hcost := readPair_cost hpair
      have hafter := quotes_skipSpace false after
      simp only at h
      cases hcomma : expect? ',' (skipSpace false after) with
      | some after' =>
        rw [hcomma] at h
        obtain ⟨⟨pairs', rest'⟩, hpairs, heq⟩ := Option.map_eq_some_iff.1 h
        cases heq
        have hrest : cost pairs' + quotes.total rest' ≤ quotes.total after' := ih hpairs
        have hcomma := quotes_expect hcomma
        simp only [cost_cons]
        omega
      | none =>
        rw [hcomma] at h
        obtain ⟨after', hbrace, heq⟩ := Option.map_eq_some_iff.1 h
        cases heq
        have hbrace := quotes_expect hbrace
        simp only [cost_cons, cost_nil]
        omega

theorem readFlow_cost {cs rest : Text} {pairs : List (Text × Text)}
    (h : readFlow cs = some (pairs, rest)) :
    cost pairs + quotes.total rest ≤ quotes.total cs := by
  obtain ⟨after, hbrace, h⟩ := Option.bind_eq_some_iff.1 h
  have hpairs := readPairs_cost h
  have hbrace := quotes_expect hbrace
  omega

theorem afterLiteral?_eq_some_iff {lit cs rest : Text} :
    afterLiteral? lit cs = some rest ↔ cs = lit ++ rest := by
  rw [afterLiteral?]
  constructor
  · intro h
    split_ifs at h with hlit
    cases h
    obtain ⟨rest, rfl⟩ := List.isPrefixOf_iff_prefix.1 hlit
    rw [List.drop_left]
  · rintro rfl
    rw [if_pos (List.isPrefixOf_iff_prefix.2 (List.prefix_append lit rest)), List.drop_left]

def costs : List (List (Text × Text)) → ℕ
  | [] => 0
  | pairs :: entries => cost pairs + costs entries

@[simp]
theorem costs_nil : costs [] = 0 := rfl

@[simp]
theorem costs_cons (pairs : List (Text × Text)) (entries : List (List (Text × Text))) :
    costs (pairs :: entries) = cost pairs + costs entries := rfl

theorem readEntries_cost {dash : Text} {fuel : ℕ} {cs rest : Text}
    {entries : List (List (Text × Text))} (h : readEntries dash fuel cs = some (entries, rest)) :
    costs entries + quotes.total rest ≤ quotes.total cs := by
  induction fuel generalizing cs entries with
  | zero => cases h
  | succ fuel ih =>
    rw [readEntries] at h
    cases hdash : afterLiteral? dash cs with
    | none =>
      rw [hdash] at h
      cases h
      rw [costs_nil]
      omega
    | some after =>
      rw [hdash] at h
      obtain ⟨⟨pairs, after'⟩, hflow, h⟩ := Option.bind_eq_some_iff.1 h
      obtain ⟨after'', hbreak, h⟩ := Option.bind_eq_some_iff.1 h
      obtain ⟨⟨entries', rest'⟩, hentries, heq⟩ := Option.map_eq_some_iff.1 h
      cases heq
      have hflow := readFlow_cost hflow
      have hbreak : quotes.of '\n' + quotes.total after'' = quotes.total after' :=
        quotes_expect hbreak
      have hrest : costs entries' + quotes.total rest' ≤ quotes.total after'' := ih hentries
      rw [afterLiteral?_eq_some_iff.1 hdash, Measure.total_append]
      simp only [costs_cons]
      omega

end cost

section sync

/-- A word that can stand as a key. -/
structure IsKey (key : Text) : Prop where
  nonempty : key ≠ []
  word : ∀ c ∈ key, c.isAlpha = true

theorem skipSpace_of_word {c : Char} (h : c.isAlpha = true) (cs : Text) :
    skipSpace false (c :: cs) = c :: cs := by
  have hspace : ¬(c = ' ' ∨ isBreak c = true) := by
    rintro (rfl | hbreak)
    · exact absurd h (by decide)
    · simp only [isBreak, isSeparator, Bool.or_eq_true, beq_iff_eq] at hbreak
      rcases hbreak with ((rfl | rfl) | rfl) | (rfl | rfl) <;> exact absurd h (by decide)
  have hhash : c ≠ '#' := by
    rintro rfl
    exact absurd h (by decide)
  rw [skipSpace, if_neg Bool.false_ne_true, if_neg hspace, if_neg hhash]

theorem skipSpace_space (cs : Text) : skipSpace false (' ' :: cs) = skipSpace false cs := rfl

theorem fieldText_append (f : Text × Text) (rest : Text) :
    fieldText f ++ rest = f.1 ++ ':' :: ' ' :: '"' :: (f.2 ++ '"' :: rest) := by
  simp [fieldText]

theorem readPair_field {key : Text} (hkey : IsKey key) (value rest : Text) :
    readPair (fieldText (key, value) ++ rest) =
      (scan .text (value ++ '"' :: rest)).map fun r => ((key, r.1), r.2) := by
  have htake : (key ++ ':' :: ' ' :: '"' :: (value ++ '"' :: rest)).takeWhile Char.isAlpha =
      key := by
    rw [List.takeWhile_append_of_pos hkey.word, List.takeWhile_cons_of_neg (by decide),
      List.append_nil]
  have hdrop : (key ++ ':' :: ' ' :: '"' :: (value ++ '"' :: rest)).dropWhile Char.isAlpha =
      ':' :: ' ' :: '"' :: (value ++ '"' :: rest) := by
    rw [List.dropWhile_append_of_pos hkey.word, List.dropWhile_cons_of_neg (by decide)]
  rw [fieldText_append, readPair, hdrop]
  simp only [htake]
  have hcolon : expect? ':' (':' :: ' ' :: '"' :: (value ++ '"' :: rest)) =
      some (' ' :: '"' :: (value ++ '"' :: rest)) := rfl
  rw [hcolon, Option.bind_some, if_pos ⟨hkey.nonempty, rfl⟩, skipSpace_space]
  rfl

theorem cost_perm {pairs pairs' : List (Text × Text)} (h : pairs.Perm pairs') :
    cost pairs = cost pairs' := by
  induction h with
  | nil => rfl
  | cons p _ ih => rw [cost_cons, cost_cons, ih]
  | swap p q pairs =>
    simp only [cost_cons]
    omega
  | trans _ _ ih ih' => exact ih.trans ih'

theorem cost_append (pairs pairs' : List (Text × Text)) :
    cost (pairs ++ pairs') = cost pairs + cost pairs' := by
  induction pairs with
  | nil => exact (Nat.zero_add _).symm
  | cons p pairs ih =>
    rw [List.cons_append, cost_cons, cost_cons, ih]
    omega

theorem length_le_cost (pairs : List (Text × Text)) : pairs.length ≤ cost pairs := by
  induction pairs with
  | nil => exact Nat.le_refl _
  | cons p pairs ih =>
    rw [List.length_cons, cost_cons]
    omega

/-- Pairs that are no dearer than the fields among them are these fields. -/
theorem perm_of_cost {fields pairs : List (Text × Text)} (hsub : fields.Subperm pairs)
    (hcost : cost pairs ≤ cost fields) : fields.Perm pairs := by
  obtain ⟨fields', hperm, hsub⟩ := hsub
  obtain ⟨others, hothers⟩ := hsub.exists_perm_append
  have hsum : cost pairs = cost fields' + cost others := by
    rw [cost_perm hothers, cost_append]
  have hlen := length_le_cost others
  rw [cost_perm hperm.symm] at hcost
  obtain rfl : others = [] := List.eq_nil_of_length_eq_zero (by omega)
  rw [List.append_nil] at hothers
  exact hperm.symm.trans hothers.symm

theorem quotes_word {key : Text} (hkey : IsKey key) : quotes.total key = 0 := by
  have hword := hkey.word
  generalize key = cs at hword
  induction cs with
  | nil => rfl
  | cons c cs ih =>
    have hc : quotes.of c = 0 := by
      refine if_neg ?_
      rintro (rfl | rfl)
      · exact absurd (hword _ (.head _)) (by decide)
      · exact absurd (hword _ (.head _)) (by decide)
    rw [Measure.total_cons, hc, ih fun d hd => hword d (.tail _ hd)]

theorem quotes_fieldsText {fields : List (Text × Text)} (hkeys : ∀ f ∈ fields, IsKey f.1) :
    quotes.total (fieldsText fields) = cost fields := by
  have hfield : ∀ f ∈ fields, quotes.total (fieldText f) = 2 + quotes.total f.2 := by
    intro f hf
    simp only [fieldText, Measure.total_append, quotes_word (hkeys f hf)]
    have hcolon : quotes.total ": \"".toList = 1 := rfl
    have hquote : quotes.total ['"'] = 1 := rfl
    omega
  induction fields with
  | nil => rfl
  | cons f fs ih =>
    have hf := hfield f (.head _)
    have hfs := ih (fun g hg => hkeys g (.tail _ hg)) fun g hg => hfield g (.tail _ hg)
    cases fs with
    | nil =>
      have hbrace : quotes.total " \x7d".toList = 0 := rfl
      simp only [fieldsText, Measure.total_append, cost_cons, cost_nil]
      omega
    | cons g gs =>
      have hcomma : quotes.total ", ".toList = 0 := rfl
      rw [cost_cons, ← hfs, fieldsText, Measure.total_append, Measure.total_append]
      · omega
      · simp

/-- The keys of a mapping are words and are different. -/
structure Proper (fields : List (Text × Text)) : Prop where
  keys : ∀ f ∈ fields, IsKey f.1
  nodup : (fields.map Prod.fst).Nodup

theorem Proper.tail {f : Text × Text} {fs : List (Text × Text)} (h : Proper (f :: fs)) :
    Proper fs := ⟨fun g hg => h.keys g (.tail _ hg), (List.nodup_cons.1 h.nodup).2⟩

def Steady (fields : List (Text × Text)) : Prop := ∀ f ∈ fields, steady .text f.2 = true

theorem steady_fields_cons {f : Text × Text} {fs : List (Text × Text)}
    (hf : steady .text f.2 = true) (hfs : Steady fs) : Steady (f :: fs) := by
  intro g hg
  obtain rfl | hg := List.mem_cons.1 hg
  · exact hf
  · exact hfs g hg

theorem fieldsText_cons (f : Text × Text) {fs : List (Text × Text)} (hfs : fs ≠ []) :
    fieldsText (f :: fs) = fieldText f ++ ", ".toList ++ fieldsText fs := by
  cases fs with
  | nil => exact absurd rfl hfs
  | cons g gs => rfl

/-- What comes after the value of a field. -/
def afterField (fs : List (Text × Text)) : Text :=
  if fs = [] then " \x7d".toList else ", ".toList ++ fieldsText fs

theorem fieldsText_eq (f : Text × Text) (fs : List (Text × Text)) :
    fieldsText (f :: fs) = fieldText f ++ afterField fs := by
  rw [afterField]
  split_ifs with hfs
  · rw [hfs]
    rfl
  · rw [fieldsText_cons f hfs, List.append_assoc]

theorem quotes_afterField {fs : List (Text × Text)} (hkeys : ∀ f ∈ fs, IsKey f.1) :
    quotes.total (afterField fs) = cost fs := by
  rw [afterField]
  split_ifs with hfs
  · rw [hfs]
    rfl
  · have hcomma : quotes.total ", ".toList = 0 := rfl
    rw [Measure.total_append, quotes_fieldsText hkeys]
    omega

theorem word_fieldText {key : Text} (hkey : IsKey key) (value rest : Text) :
    ∃ c cs, fieldText (key, value) ++ rest = c :: cs ∧ c.isAlpha = true := by
  rw [fieldText_append]
  cases key with
  | nil => exact absurd rfl hkey.nonempty
  | cons c key => exact ⟨c, _, rfl, hkey.word c (.head _)⟩

theorem readPairs_field {key : Text} (hkey : IsKey key) (fuel : ℕ) (value rest : Text) :
    readPairs (fuel + 1) (fieldText (key, value) ++ rest) =
      (readPair (fieldText (key, value) ++ rest)).bind fun p =>
        match expect? ',' (skipSpace false p.2) with
        | some rest => (readPairs fuel rest).map fun r => (p.1 :: r.1, r.2)
        | none => (expect? '}' (skipSpace false p.2)).map fun rest => ([p.1], rest) := by
  obtain ⟨c, cs, htext, hword⟩ := word_fieldText hkey value rest
  have hskip := skipSpace_of_word hword cs
  have hbrace : expect? '}' (c :: cs) = none := by
    refine if_neg ?_
    rintro rfl
    exact absurd hword (by decide)
  rw [readPairs, htext, hskip, hbrace]

theorem readPairs_space (fuel : ℕ) (cs : Text) :
    readPairs fuel (' ' :: cs) = readPairs fuel cs := by
  cases fuel with
  | zero => rfl
  | succ fuel => rw [readPairs, readPairs, skipSpace_space]

/-- After a pair comes a comma and the other pairs, or the closing brace. -/
def readMore (fuel : ℕ) (after : Text) : Option (List (Text × Text) × Text) :=
  match expect? ',' (skipSpace false after) with
  | some rest => readPairs fuel rest
  | none => (expect? '}' (skipSpace false after)).map fun rest => ([], rest)

theorem readMore_cost {fuel : ℕ} {after rest : Text} {pairs : List (Text × Text)}
    (h : readMore fuel after = some (pairs, rest)) :
    cost pairs + quotes.total rest ≤ quotes.total after := by
  have hspace := quotes_skipSpace false after
  rw [readMore] at h
  cases hcomma : expect? ',' (skipSpace false after) with
  | some after' =>
    rw [hcomma] at h
    have hpairs := readPairs_cost h
    have hcomma := quotes_expect hcomma
    omega
  | none =>
    rw [hcomma] at h
    obtain ⟨after', hbrace, heq⟩ := Option.map_eq_some_iff.1 h
    cases heq
    have hbrace := quotes_expect hbrace
    rw [cost_nil]
    omega

theorem readPairs_eq {key : Text} (hkey : IsKey key) (fuel : ℕ) (value rest : Text) :
    readPairs (fuel + 1) (fieldText (key, value) ++ rest) =
      (scan .text (value ++ '"' :: rest)).bind fun r =>
        (readMore fuel r.2).map fun q => ((key, r.1) :: q.1, q.2) := by
  rw [readPairs_field hkey, readPair_field hkey, Option.bind_map]
  refine congrArg _ (funext fun r => ?_)
  simp only [Function.comp, readMore]
  cases expect? ',' (skipSpace false r.2) with
  | some rest => rfl
  | none => rw [Option.map_map]; rfl

theorem readMore_afterField {fs : List (Text × Text)} (fuel : ℕ) (rest : Text) :
    readMore fuel (afterField fs ++ rest) =
      if fs = [] then some ([], rest) else readPairs fuel (fieldsText fs ++ rest) := by
  rw [readMore, afterField]
  split_ifs with hfs
  · rfl
  · rw [← readPairs_space]
    rfl

/-- Proper fields with steady values are read back. -/
theorem readPairs_steady {fields : List (Text × Text)} (hproper : Proper fields)
    (hsteady : Steady fields) (hne : fields ≠ []) {fuel : ℕ} (hfuel : fields.length ≤ fuel)
    (rest : Text) : readPairs fuel (fieldsText fields ++ rest) = some (fields, rest) := by
  induction fields generalizing fuel with
  | nil => exact absurd rfl hne
  | cons f fs ih =>
    obtain ⟨key, value⟩ := f
    have hkey := hproper.keys _ (.head _)
    obtain ⟨fuel, rfl⟩ : ∃ n, fuel = n + 1 := ⟨fuel - 1, by
      rw [List.length_cons] at hfuel
      omega⟩
    have hvalue := scan_steady .text (hsteady _ (.head _)) (afterField fs ++ rest)
    rw [fieldsText_eq, List.append_assoc, readPairs_eq hkey, hvalue]
    simp only [Option.bind_some, readMore_afterField, Run.out, List.nil_append]
    by_cases hfs : fs = []
    · rw [if_pos hfs, hfs]
      rfl
    · have hrest := ih hproper.tail (fun g hg => hsteady g (.tail _ hg)) hfs
        (Nat.le_of_succ_le_succ hfuel)
      rw [if_neg hfs, hrest]
      rfl

/-- Where the pairs that are read have proper fields among them, and as many quotes are left as
come after these, the values are steady and nothing else has been read. -/
theorem readPairs_sync {fields pairs : List (Text × Text)} (hproper : Proper fields)
    (hne : fields ≠ []) {fuel : ℕ} {rest rest' : Text}
    (h : readPairs fuel (fieldsText fields ++ rest) = some (pairs, rest'))
    (hsub : fields.Subperm pairs) (hquotes : quotes.total rest ≤ quotes.total rest') :
    rest' = rest ∧ Steady fields := by
  induction fields generalizing fuel pairs with
  | nil => exact absurd rfl hne
  | cons f fs ih =>
    obtain ⟨key, value⟩ := f
    have hkey := hproper.keys _ (.head _)
    have hcost := readPairs_cost h
    rw [Measure.total_append, quotes_fieldsText hproper.keys] at hcost
    have hperm := perm_of_cost hsub (by omega)
    cases fuel with
    | zero => cases h
    | succ fuel =>
      rw [fieldsText_eq, List.append_assoc, readPairs_eq hkey] at h
      obtain ⟨⟨value', after⟩, hscan, h⟩ := Option.bind_eq_some_iff.1 h
      obtain ⟨⟨pairs', rest''⟩, hmore, heq⟩ := Option.map_eq_some_iff.1 h
      simp only [Prod.mk.injEq] at heq hmore
      obtain ⟨rfl, rfl⟩ := heq
      have hvalue : value' = value := by
        have hmem := hperm.symm.subset (.head _)
        obtain heq | hmem := List.mem_cons.1 hmem
        · exact (Prod.mk.inj heq).2
        · exact absurd (List.mem_map_of_mem hmem) (List.nodup_cons.1 hproper.nodup).1
      subst hvalue
      have hothers : fs.Perm pairs' := hperm.cons_inv
      have hleft := readMore_cost hmore
      rw [cost_perm hothers.symm] at hleft
      have htail := quotes_afterField hproper.tail.keys
      obtain ⟨rfl, hsteady⟩ := read_back hscan (by
        rw [Measure.total_append]
        omega)
      apply And.imp_right (steady_fields_cons hsteady)
      simp only [readMore_afterField] at hmore
      split_ifs at hmore with hfs
      · cases hmore
        subst hfs
        exact ⟨rfl, fun g hg => absurd hg List.not_mem_nil⟩
      · exact ih hproper.tail hfs hmore hothers.subperm

theorem cost_le_of_subperm {pairs pairs' : List (Text × Text)} (h : pairs.Subperm pairs') :
    cost pairs ≤ cost pairs' := by
  obtain ⟨pairs'', hperm, hsub⟩ := h
  obtain ⟨others, hothers⟩ := hsub.exists_perm_append
  rw [cost_perm hperm.symm, cost_perm hothers, cost_append]
  omega

theorem costs_le_of_subperm {entries found : List (List (Text × Text))}
    (h : List.Forall₂ List.Subperm entries found) : costs entries ≤ costs found := by
  induction h with
  | nil => exact Nat.le_refl _
  | cons hsub _ ih =>
    have hcost := cost_le_of_subperm hsub
    rw [costs_cons, costs_cons]
    omega

structure Entry (fields : List (Text × Text)) : Prop where
  proper : Proper fields
  nonempty : fields ≠ []

variable {dash : Text}

theorem quotes_entriesText (hdash : quotes.total dash = 0) {entries : List (List (Text × Text))}
    (h : ∀ e ∈ entries, Entry e) : quotes.total (entriesText dash entries) = costs entries := by
  induction entries with
  | nil => rfl
  | cons e es ih =>
    have htail := ih fun e' he' => h e' (.tail _ he')
    have hbrace : quotes.total "\x7b ".toList = 0 := rfl
    have hbreak : quotes.total ['\n'] = 0 := rfl
    rw [entriesText] at htail ⊢
    rw [List.flatMap_cons, Measure.total_append, htail, entryText]
    simp only [Measure.total_append, quotes_fieldsText (h e (.head _)).proper.keys, costs_cons]
    omega

theorem readEntries_cons (fuel : ℕ) (e : List (Text × Text)) (more : Text) :
    readEntries dash (fuel + 1) (entryText dash e ++ more) =
      (readPairs ((' ' :: (fieldsText e ++ '\n' :: more)).length + 1)
        (fieldsText e ++ '\n' :: more)).bind fun p =>
          (expect? '\n' p.2).bind fun rest =>
            (readEntries dash fuel rest).map fun r => (p.1 :: r.1, r.2) := by
  have htext : entryText dash e ++ more = dash ++ '{' :: ' ' :: (fieldsText e ++ '\n' :: more) := by
    simp [entryText]
  have hflow : readFlow ('{' :: ' ' :: (fieldsText e ++ '\n' :: more)) =
      readPairs ((' ' :: (fieldsText e ++ '\n' :: more)).length + 1)
        (fieldsText e ++ '\n' :: more) := by
    rw [← readPairs_space]
    rfl
  rw [readEntries, afterLiteral?_eq_some_iff.2 htext]
  simp only [hflow]

theorem length_le_fieldsText (fields : List (Text × Text)) :
    fields.length ≤ (fieldsText fields).length := by
  induction fields with
  | nil => exact Nat.zero_le _
  | cons f fs ih =>
    have hfield : 1 ≤ (fieldText f).length := by
      rw [fieldText, List.length_append, List.length_singleton]
      exact Nat.le_add_left 1 _
    have hmore : fs.length ≤ (afterField fs).length := by
      rw [afterField]
      split_ifs with hfs
      · rw [hfs]
        exact Nat.zero_le _
      · rw [List.length_append]
        omega
    rw [fieldsText_eq, List.length_append, List.length_cons]
    omega

/-- A sequence of entries with steady values is read back. -/
theorem readEntries_steady {entries : List (List (Text × Text))}
    (hentries : ∀ e ∈ entries, Entry e) (hsteady : ∀ e ∈ entries, Steady e) {rest : Text}
    (hrest : afterLiteral? dash rest = none) {fuel : ℕ} (hfuel : entries.length < fuel) :
    readEntries dash fuel (entriesText dash entries ++ rest) = some (entries, rest) := by
  induction entries generalizing fuel with
  | nil =>
    obtain ⟨fuel, rfl⟩ : ∃ n, fuel = n + 1 := ⟨fuel - 1, by omega⟩
    rw [entriesText, List.flatMap_nil, List.nil_append, readEntries, hrest]
  | cons e es ih =>
    obtain ⟨fuel, rfl⟩ : ∃ n, fuel = n + 1 := ⟨fuel - 1, by omega⟩
    have he := hentries e (.head _)
    have htail := ih (fun e' he' => hentries e' (.tail _ he'))
      (fun e' he' => hsteady e' (.tail _ he')) (Nat.lt_of_succ_lt_succ hfuel)
    have hlen := length_le_fieldsText e
    have hfuel : e.length ≤
        (' ' :: (fieldsText e ++ '\n' :: (entriesText dash es ++ rest))).length + 1 := by
      rw [List.length_cons, List.length_append]
      omega
    have hpairs := readPairs_steady he.proper (hsteady e (.head _)) he.nonempty hfuel
      ('\n' :: (entriesText dash es ++ rest))
    have htext : entriesText dash (e :: es) ++ rest =
        entryText dash e ++ (entriesText dash es ++ rest) := by
      rw [entriesText, List.flatMap_cons, List.append_assoc]
      rfl
    rw [htext, readEntries_cons, hpairs]
    simp only [Option.bind_some, expect?, if_true, htail, Option.map_some]

/-- Where the entries that are read have the ones that were written among their pairs, the
values are steady and nothing else has been read. -/
theorem readEntries_sync (hdash : quotes.total dash = 0)
    {entries found : List (List (Text × Text))} (hentries : ∀ e ∈ entries, Entry e)
    {rest rest' : Text}
    (hrest : afterLiteral? dash rest = none) {fuel : ℕ}
    (h : readEntries dash fuel (entriesText dash entries ++ rest) = some (found, rest'))
    (hfound : List.Forall₂ List.Subperm entries found)
    (hquotes : quotes.total rest ≤ quotes.total rest') :
    rest' = rest ∧ ∀ e ∈ entries, Steady e := by
  induction hfound generalizing fuel with
  | nil =>
    cases fuel with
    | zero => cases h
    | succ fuel =>
      rw [entriesText, List.flatMap_nil, List.nil_append, readEntries, hrest] at h
      cases h
      exact ⟨rfl, fun e he => absurd he List.not_mem_nil⟩
  | @cons e pairs es found hsub hfound ih =>
    cases fuel with
    | zero => cases h
    | succ fuel =>
      have he := hentries e (.head _)
      have hes := fun e' he' => hentries e' (.tail e he')
      have htext : entriesText dash (e :: es) ++ rest =
          entryText dash e ++ (entriesText dash es ++ rest) := by
        rw [entriesText, List.flatMap_cons, List.append_assoc]
        rfl
      rw [htext, readEntries_cons] at h
      obtain ⟨⟨pairs', after⟩, hpairs, h⟩ := Option.bind_eq_some_iff.1 h
      obtain ⟨after', hbreak, h⟩ := Option.bind_eq_some_iff.1 h
      obtain ⟨⟨found', rest''⟩, hmore, heq⟩ := Option.map_eq_some_iff.1 h
      simp only [Prod.mk.injEq, List.cons.injEq] at heq hbreak
      obtain ⟨⟨rfl, rfl⟩, rfl⟩ := heq
      have hleft := readEntries_cost hmore
      have hcosts := costs_le_of_subperm hfound
      have hwritten := quotes_entriesText hdash hes
      have hafter := quotes_expect hbreak
      have hline : quotes.total ('\n' :: (entriesText dash es ++ rest)) =
          quotes.of '\n' + (costs es + quotes.total rest) := by
        rw [Measure.total_cons, Measure.total_append, hwritten]
      obtain ⟨rfl, hsteady⟩ := readPairs_sync he.proper he.nonempty hpairs hsub (by omega)
      have hafter' : after' = entriesText dash es ++ rest := by
        have := expect?_eq_some_iff.1 hbreak
        rw [List.cons.injEq] at this
        exact this.2.symm
      subst hafter'
      obtain ⟨hrest', hall⟩ := ih hes hmore
      refine ⟨hrest', fun e' he' => ?_⟩
      obtain rfl | he' := List.mem_cons.1 he'
      · exact hsteady
      · exact hall e' he'

end sync

section characters

variable {dash : Text} {p : Char → Bool}

theorem mem_fieldsText {fs : List (Text × Text)} {f : Text × Text} (hf : f ∈ fs) {c : Char}
    (hc : c ∈ f.2) : c ∈ fieldsText fs := by
  induction fs with
  | nil => exact absurd hf List.not_mem_nil
  | cons g fs ih =>
    rw [fieldsText_eq, List.mem_append]
    obtain rfl | hf := List.mem_cons.1 hf
    · refine .inl ?_
      rw [fieldText, List.mem_append, List.mem_append]
      exact .inl (.inr hc)
    · have hmore := ih hf
      have hne : fs ≠ [] := List.ne_nil_of_mem hf
      rw [afterField, if_neg hne, List.mem_append]
      exact .inr (.inr hmore)

theorem mem_entriesText {entries : List (List (Text × Text))} {e : List (Text × Text)}
    (he : e ∈ entries) {f : Text × Text} (hf : f ∈ e) {c : Char} (hc : c ∈ f.2) :
    c ∈ entriesText dash entries := by
  have hfields := mem_fieldsText hf hc
  refine List.mem_flatMap.2 ⟨e, he, ?_⟩
  rw [entryText, List.mem_append, List.mem_append]
  exact .inl (.inr hfields)

/-- What a mapping is written with besides its keys and values. -/
def marks : Text := "\x7b \x7d:,\"\n".toList

theorem all_marks {cs : Text} (hcs : cs.all marks.elem = true) (hmarks : marks.all p = true) :
    cs.all p = true := by
  refine List.all_eq_true.2 fun c hc => List.all_eq_true.1 hmarks c ?_
  exact List.mem_of_elem_eq_true (List.all_eq_true.1 hcs c hc)

theorem all_fieldsText (hmarks : marks.all p = true) {fs : List (Text × Text)}
    (h : ∀ f ∈ fs, f.1.all p = true ∧ f.2.all p = true) : (fieldsText fs).all p = true := by
  have hcolon : ": \"".toList.all p = true := all_marks rfl hmarks
  have hquote : ['"'].all p = true := all_marks rfl hmarks
  have hcomma : ", ".toList.all p = true := all_marks rfl hmarks
  have hbrace : " \x7d".toList.all p = true := all_marks rfl hmarks
  induction fs with
  | nil => exact all_marks rfl hmarks
  | cons f fs ih =>
    have hf := h f (.head _)
    have hmore : (afterField fs).all p = true := by
      rw [afterField]
      split_ifs with hfs
      · exact hbrace
      · rw [List.all_append, hcomma, ih fun g hg => h g (.tail _ hg)]
        rfl
    rw [fieldsText_eq, List.all_append, hmore, fieldText, List.all_append, List.all_append,
      List.all_append, hf.1, hf.2, hcolon, hquote]
    rfl

theorem all_entriesText (hdash : dash.all p = true) (hmarks : marks.all p = true)
    {entries : List (List (Text × Text))}
    (h : ∀ e ∈ entries, ∀ f ∈ e, f.1.all p = true ∧ f.2.all p = true) :
    (entriesText dash entries).all p = true := by
  have hbrace : "\x7b ".toList.all p = true := all_marks rfl hmarks
  have hbreak : ['\n'].all p = true := all_marks rfl hmarks
  refine List.all_eq_true.2 fun c hc => ?_
  obtain ⟨e, he, hc⟩ := List.mem_flatMap.1 hc
  have hentry : (entryText dash e).all p = true := by
    rw [entryText, List.all_append, List.all_append, List.all_append, hdash, hbrace, hbreak,
      all_fieldsText hmarks (h e he)]
    rfl
  exact List.all_eq_true.1 hentry c hc

theorem length_le_entriesText (entries : List (List (Text × Text))) :
    entries.length ≤ (entriesText dash entries).length := by
  induction entries with
  | nil => exact Nat.zero_le _
  | cons e es ih =>
    have hentry : 1 ≤ (entryText dash e).length := by
      rw [entryText, List.length_append, List.length_singleton]
      exact Nat.le_add_left 1 _
    rw [entriesText] at ih ⊢
    rw [List.flatMap_cons, List.length_append, List.length_cons]
    omega

end characters

end Nssf.Base.Flow
