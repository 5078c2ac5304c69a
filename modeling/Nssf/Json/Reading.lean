import Mathlib.Data.List.DropRight
import Nssf.Base.Numerals
import Nssf.Json.Parse

/-! What the parser makes of a JSON text. It reads exactly the value that the text spells, as
long as the numerals fit its buffer, with three deviations: a value nested too deeply is
refused, a surrogate without a partner is refused, and a string ends at its first zero byte. -/

namespace Nssf.Json

open Base JsonText

/-- The string that a literal is read as. -/
def readString (ps : List Piece) : Option String :=
  if paired ps then some (String.ofList (cutAtNul (decode ps))) else none

def fitsBuffer (n : Numeral) : Prop := n.text.length ≤ 63

section strings

theorem hexVal_eq (c : Char) : hexVal c = hexDigit? c := by
  simp only [hexVal, hexDigit?]
  split_ifs with hdigit hupper hlower
  · rfl
  · have hle : 'A'.toNat ≤ c.toNat := hupper.1
    rw [Option.some.injEq]
    omega
  · have hle : 'a'.toNat ≤ c.toNat := hlower.1
    rw [Option.some.injEq]
    omega
  · rfl

theorem parseHex4_eq {a b c d : Char} {n : ℕ} (h : hex4? a b c d = some n) :
    parseHex4 a b c d = n := by
  simp only [hex4?, Option.bind_eq_bind, Option.bind_eq_some_iff] at h
  obtain ⟨va, ha, vb, hb, vc, hc, vd, hd, h⟩ := h
  simp only [parseHex4, hexVal_eq, ha, hb, hc, hd]
  exact Option.some.inj h

theorem hexDigit_ne {c : Char} {n : ℕ} (h : hexDigit? c = some n) : c ≠ '"' ∧ c ≠ '\\' := by
  constructor
  · rintro rfl
    cases h
  · rintro rfl
    cases h

theorem hex4_ne {a b c d : Char} {n : ℕ} (h : hex4? a b c d = some n) :
    ∀ x ∈ [a, b, c, d], x ≠ '"' ∧ x ≠ '\\' := by
  simp only [hex4?, Option.bind_eq_bind, Option.bind_eq_some_iff] at h
  obtain ⟨va, ha, vb, hb, vc, hc, vd, hd, -⟩ := h
  intro x hx
  simp only [List.mem_cons, List.not_mem_nil, or_false] at hx
  rcases hx with rfl | rfl | rfl | rfl
  · exact hexDigit_ne ha
  · exact hexDigit_ne hb
  · exact hexDigit_ne hc
  · exact hexDigit_ne hd

theorem isRaw_ne {c : Char} (h : isRaw c = true) : c ≠ '"' ∧ c ≠ '\\' := by
  simp only [isRaw, Bool.and_eq_true, bne_iff_ne, ne_eq] at h
  exact ⟨h.1.2, h.2⟩

theorem scanLiteral_plain {c : Char} (h : c ≠ '"' ∧ c ≠ '\\') (cs : List Char) :
    scanLiteral (c :: cs) = (scanLiteral cs).map fun r => (c :: r.1, r.2) := by
  conv_lhs => unfold scanLiteral
  split
  · contradiction
  · rename_i heq
    exact absurd (List.cons.inj heq).1 h.1
  · rename_i heq
    exact absurd (List.cons.inj heq).1 h.2
  · rename_i heq
    obtain ⟨rfl, rfl⟩ := List.cons.inj heq
    rfl

theorem scanLiteral_plains {cs : List Char} (h : ∀ c ∈ cs, c ≠ '"' ∧ c ≠ '\\')
    (rest : List Char) :
    scanLiteral (cs ++ rest) = (scanLiteral rest).map fun r => (cs ++ r.1, r.2) := by
  induction cs with
  | nil => simp
  | cons c cs ih =>
    have htail := ih fun x hx => h x (List.mem_cons_of_mem _ hx)
    rw [List.cons_append, scanLiteral_plain (h c List.mem_cons_self), htail, Option.map_map]
    rfl

theorem scanLiteral_piece (p : Piece) (rest : List Char) :
    scanLiteral (p.text ++ rest) = (scanLiteral rest).map fun r => (p.text ++ r.1, r.2) := by
  cases p with
  | raw c h => exact scanLiteral_plain (isRaw_ne h) rest
  | short c out h => rfl
  | unit a b c d n h =>
    have hplain := scanLiteral_plains (hex4_ne h) rest
    change (scanLiteral ([a, b, c, d] ++ rest)).map _ = _
    rw [hplain, Option.map_map]
    rfl

theorem scanLiteral_pieces (ps : List Piece) (rest : List Char) :
    scanLiteral (piecesText ps ++ '"' :: rest) = some (piecesText ps, rest) := by
  induction ps with
  | nil => rfl
  | cons p ps ih =>
    have htext : piecesText (p :: ps) = p.text ++ piecesText ps := List.flatMap_cons
    rw [htext, List.append_assoc, scanLiteral_piece, ih]
    rfl

theorem unescape_nil (n : ℕ) : unescape n [] = some [] := by
  cases n <;> rfl

theorem unescape_raw {c : Char} (h : c ≠ '\\') (n : ℕ) (cs : List Char) :
    unescape (n + 1) (c :: cs) = (unescape n cs).map (c :: ·) := by
  rw [unescape]
  all_goals
    intros
    contradiction

theorem unescape_short {c out : Char} (h : shortEscape? c = some out) (n : ℕ)
    (cs : List Char) :
    unescape (n + 1) ('\\' :: c :: cs) = (unescape n cs).map (out :: ·) := by
  simp only [shortEscape?] at h
  split at h
  all_goals cases h
  all_goals
    rw [unescape]
    cases unescape n cs <;> rfl

theorem unescape_unit {a b c d : Char} {h : ℕ} (hex : hex4? a b c d = some h) (n : ℕ)
    (cs : List Char) :
    unescape (n + 1) ('\\' :: 'u' :: a :: b :: c :: d :: cs) =
      (utf16LiteralToUtf8 h cs).bind fun r => (unescape n r.2).map (r.1 ++ ·) := by
  rw [unescape, parseHex4_eq hex]
  cases utf16LiteralToUtf8 h cs with
  | none => rfl
  | some r => cases hr : unescape n r.2 <;> simp [hr]

theorem utf16LiteralToUtf8_low {h : ℕ} (hlow : isLow h = true) (cs : List Char) :
    utf16LiteralToUtf8 h cs = none := by
  unfold utf16LiteralToUtf8
  rw [if_pos (of_decide_eq_true hlow)]

theorem utf16LiteralToUtf8_plain {h : ℕ} (hhigh : isHigh h = false) (hlow : isLow h = false)
    (cs : List Char) : utf16LiteralToUtf8 h cs = some (utf8 h, cs) := by
  unfold utf16LiteralToUtf8
  rw [if_neg (of_decide_eq_false hlow), if_neg (of_decide_eq_false hhigh)]
  rfl

theorem utf16LiteralToUtf8_pair {h l : ℕ} (hhigh : isHigh h = true) {a b c d : Char}
    (hex : hex4? a b c d = some l) (cs : List Char) :
    utf16LiteralToUtf8 h ('\\' :: 'u' :: a :: b :: c :: d :: cs) =
      if isLow l then some (utf8 (surrogatePair h l), cs) else none := by
  have hrange := of_decide_eq_true hhigh
  unfold utf16LiteralToUtf8
  rw [if_neg (by omega), if_pos hrange]
  simp only [parseHex4_eq hex, isLow, decide_eq_true_eq]
  split_ifs with hno hyes
  · omega
  · rfl
  · rfl
  · omega

theorem utf16LiteralToUtf8_lone {h : ℕ} (hhigh : isHigh h = true) {cs : List Char}
    (hno : ∀ a b c d rest, cs ≠ '\\' :: 'u' :: a :: b :: c :: d :: rest) :
    utf16LiteralToUtf8 h cs = none := by
  have hrange := of_decide_eq_true hhigh
  unfold utf16LiteralToUtf8
  rw [if_neg (by omega), if_pos hrange]
  split
  · exact absurd rfl (hno _ _ _ _ _)
  · rfl

theorem paired_unit {a b c d : Char} {n : ℕ} (h : hex4? a b c d = some n)
    (hhigh : isHigh n = false) (ps : List Piece) :
    paired (.unit a b c d n h :: ps) = (!isLow n && paired ps) ∧
      decode (.unit a b c d n h :: ps) = utf8 n ++ decode ps := by
  cases ps with
  | nil => simp [paired, decode, hhigh]
  | cons p ps =>
    cases p with
    | raw c h => simp [paired, decode, hhigh]
    | short c out h => simp [paired, decode, hhigh]
    | unit a b c d m h => simp [paired, decode, hhigh]

/-- The unescaping loop, with a step for each piece. -/
theorem unescape_pieces (ps : List Piece) {n : ℕ} (hn : ps.length ≤ n) :
    unescape n (piecesText ps) = if paired ps then some (decode ps) else none := by
  induction hlen : ps.length using Nat.strong_induction_on generalizing ps n with
  | _ len ih =>
    cases ps with
    | nil => exact unescape_nil n
    | cons p ps =>
      obtain ⟨n, rfl⟩ : ∃ m, n = m + 1 := ⟨n - 1, by simp only [List.length_cons] at hn; omega⟩
      have hps : ps.length ≤ n := by simpa using hn
      have hrest {m : ℕ} (hm : ps.length ≤ m) := ih ps.length (by simp [← hlen]) ps hm rfl
      have htext : piecesText (p :: ps) = p.text ++ piecesText ps := List.flatMap_cons
      rw [htext]
      cases p with
      | raw c h =>
        rw [Piece.text, List.singleton_append, unescape_raw (isRaw_ne h).2, hrest hps]
        by_cases hp : paired ps = true <;> simp [paired, decode, hp]
      | short c out h =>
        rw [Piece.text, List.cons_append, List.singleton_append, unescape_short h, hrest hps]
        by_cases hp : paired ps = true <;> simp [paired, decode, hp]
      | unit a b c d k h =>
        have hunit : unescape (n + 1) ((Piece.unit a b c d k h).text ++ piecesText ps) =
            (utf16LiteralToUtf8 k (piecesText ps)).bind fun r =>
              (unescape n r.2).map (r.1 ++ ·) := unescape_unit h n _
        rw [hunit]
        cases hhigh : isHigh k with
        | false =>
          obtain ⟨hpaired, hdecode⟩ := paired_unit h hhigh ps
          rw [hpaired, hdecode]
          cases hlow : isLow k with
          | true =>
            rw [utf16LiteralToUtf8_low hlow]
            rfl
          | false =>
            rw [utf16LiteralToUtf8_plain hhigh hlow, Option.bind_some, hrest hps]
            by_cases hp : paired ps = true <;> simp [hp]
        | true =>
          have hlone (hno : ∀ a b c d rest, piecesText ps ≠ '\\' :: 'u' :: a :: b :: c :: d :: rest)
              (hpaired : paired (.unit a b c d k h :: ps) = false) :
              ((utf16LiteralToUtf8 k (piecesText ps)).bind fun r =>
                (unescape n r.2).map (r.1 ++ ·)) =
              if paired (.unit a b c d k h :: ps) then some (decode (.unit a b c d k h :: ps))
              else none := by
            rw [utf16LiteralToUtf8_lone hhigh hno, hpaired]
            rfl
          cases ps with
          | nil => exact hlone (by simp [piecesText]) (by simp [paired, hhigh])
          | cons q ps =>
            cases q with
            | raw c' h' =>
              apply hlone
              · intro a b c d rest heq
                exact (isRaw_ne h').2 (List.cons.inj heq).1
              · simp [paired, hhigh]
            | short c' out h' =>
              apply hlone
              · intro a b c d rest heq
                have hu : c' = 'u' := (List.cons.inj (List.cons.inj heq).2).1
                rw [hu] at h'
                cases h'
              · simp [paired, hhigh]
            | unit a' b' c' d' m h' =>
              have hnext : piecesText (.unit a' b' c' d' m h' :: ps) =
                  '\\' :: 'u' :: a' :: b' :: c' :: d' :: piecesText ps := List.flatMap_cons
              have hlater := ih ps.length (by simp only [← hlen, List.length_cons]; omega) ps
                (n := n) (by simp only [List.length_cons] at hps; omega) rfl
              rw [hnext, utf16LiteralToUtf8_pair hhigh h']
              cases hlow : isLow m with
              | true =>
                by_cases hp : paired ps = true <;>
                  simp [hlater, paired, decode, hhigh, hlow, hp]
              | false => simp [paired, hhigh, hlow]

theorem parseString_text (ps : List Piece) (rest : List Char) :
    parseString (stringText ps ++ rest) = (readString ps).map fun s => (s, rest) := by
  have htext : stringText ps ++ rest = '"' :: (piecesText ps ++ '"' :: rest) := by
    simp [stringText]
  rw [htext]
  simp only [parseString, scanLiteral_pieces, Option.bind_eq_bind, Option.bind_some,
    unescape_pieces ps (length_le_piecesText ps), readString]
  by_cases hp : paired ps = true <;> simp [hp]

end strings

section numbers

/-- The text goes on with a byte that cannot belong to a number. -/
def Stops (rest : List Char) : Prop := ∀ c ∈ rest.head?, isNumberChar c = false

theorem isNumberChar_digits {ds : List Char} (h : ∀ c ∈ ds, Binary64.isDigit c = true) :
    ∀ c ∈ ds, isNumberChar c = true := by
  intro c hc
  simp [isNumberChar, h c hc]

theorem isNumberChar_exponent (x : Exponent) : ∀ c ∈ x.text, isNumberChar c = true := by
  intro c hc
  simp only [Exponent.text, List.mem_cons, List.mem_append] at hc
  rcases hc with rfl | hc | hc
  · cases x.upper <;> rfl
  · cases hsign : x.sign with
    | none => simp [hsign, Sign.text] at hc
    | plus =>
      simp only [hsign, Sign.text, List.mem_singleton] at hc
      rw [hc]
      rfl
    | minus =>
      simp only [hsign, Sign.text, List.mem_singleton] at hc
      rw [hc]
      rfl
  · exact isNumberChar_digits x.digits.digit c hc

theorem isNumberChar_numeral (n : Numeral) : ∀ c ∈ n.text, isNumberChar c = true := by
  intro c hc
  simp only [Numeral.text, Numeral.unsignedText, List.mem_append] at hc
  rcases hc with hc | hc | hc | hc
  · split_ifs at hc
    · rw [List.mem_singleton.1 hc]
      rfl
    · cases hc
  · exact isNumberChar_digits n.whole.digit c hc
  · simp only [Numeral.fracText] at hc
    cases hfrac : n.frac with
    | none => simp [hfrac] at hc
    | some ds =>
      simp only [hfrac, Option.elim_some, List.mem_cons] at hc
      rcases hc with rfl | hc
      · rfl
      · exact isNumberChar_digits ds.digit c hc
  · simp only [Numeral.expText] at hc
    cases hexp : n.exp with
    | none => simp [hexp] at hc
    | some x =>
      simp only [hexp, Option.elim_some] at hc
      exact isNumberChar_exponent x c hc

theorem parseNumber_text {n : Numeral} (hn : fitsBuffer n) {rest : List Char} (h : Stops rest) :
    parseNumber (n.text ++ rest) = some (.number (Binary64.ofNumeral n), rest) := by
  have htake : (n.text ++ rest).take 63 = n.text ++ rest.take (63 - n.text.length) := by
    rw [List.take_append, List.take_of_length_le hn]
  have hbuf : ((n.text ++ rest).take 63).takeWhile isNumberChar = n.text := by
    rw [htake]
    apply takeWhile_append_stop (isNumberChar_numeral n)
    intro c hc
    apply h c
    cases rest with
    | nil => simp at hc
    | cons x rest =>
      rw [List.head?_take] at hc
      split_ifs at hc
      · cases hc
      · exact hc
  simp only [parseNumber, hbuf, Binary64.strtod_text, Option.map_some, List.length_nil,
    Nat.sub_zero, List.drop_left]

end numbers

section blanks

theorem skipWhitespace_blanks (w : Blanks) (cs : List Char) :
    skipWhitespace (w.chars ++ cs) = skipWhitespace cs := by
  apply List.dropWhile_append_of_pos
  intro c hc
  have hblank := w.blank c hc
  simp only [isWs, Bool.or_eq_true, beq_iff_eq] at hblank
  rcases hblank with ((rfl | rfl) | rfl) | rfl <;> rfl

theorem skipWhitespace_cons {c : Char} (h : 32 < c.toNat) (cs : List Char) :
    skipWhitespace (c :: cs) = c :: cs := by
  apply List.dropWhile_cons_of_neg
  simpa using h

theorem skipWhitespace_skipWhitespace (cs : List Char) :
    skipWhitespace (skipWhitespace cs) = skipWhitespace cs :=
  List.dropWhile_idempotent _ cs

theorem startsValue_range {c : Char} (h : startsValue c = true) :
    32 < c.toNat ∧ c ≠ ']' ∧ c ≠ '}' := by
  simp only [startsValue, Bool.or_eq_true, List.contains_eq_mem, decide_eq_true_eq,
    List.mem_cons, List.not_mem_nil, or_false] at h
  rcases h with hdigit | h
  · simp only [Binary64.isDigit, Bool.and_eq_true, decide_eq_true_eq] at hdigit
    have hlow : '0'.toNat ≤ c.toNat := hdigit.1
    have hhigh : c.toNat ≤ '9'.toNat := hdigit.2
    simp only [Char.reduceToNat] at hlow hhigh
    refine ⟨by omega, ?_, ?_⟩
    · rintro rfl
      simp at hhigh
    · rintro rfl
      simp at hhigh
  · rcases h with rfl | rfl | rfl | rfl | rfl | rfl | rfl <;> decide

theorem skipWhitespace_text (t : Tree) (cs : List Char) :
    skipWhitespace (t.text ++ cs) = t.text ++ cs := by
  obtain ⟨c, r, hr, hc⟩ := t.text_head
  rw [hr]
  exact skipWhitespace_cons (startsValue_range hc).1 _

theorem stops_blanks (w : Blanks) {c : Char} (h : isNumberChar c = false) (cs : List Char) :
    Stops (w.chars ++ c :: cs) := by
  intro x hx
  cases hw : w.chars with
  | nil =>
    rw [hw] at hx
    cases hx
    exact h
  | cons y ys =>
    have hblank := w.blank y (hw ▸ List.mem_cons_self)
    rw [hw] at hx
    cases hx
    simp only [isWs, Bool.or_eq_true, beq_iff_eq] at hblank
    rcases hblank with ((rfl | rfl) | rfl) | rfl <;> rfl

end blanks

section trees

mutual

/-- The node that a value is read as, with so many levels of nesting left. -/
def Tree.toJson? : ℕ → Tree → Option Json
  | _, .null => some .null
  | _, .bool b => some (.bool b)
  | _, .number n => some (.number (Binary64.ofNumeral n))
  | _, .string ps => (readString ps).map .string
  | d + 1, .array _ items => (Items.toJson? d items).map .array
  | d + 1, .object _ members => (Members.toJson? d members).map .object
  | 0, .array _ _ => none
  | 0, .object _ _ => none

def Items.toJson? : ℕ → Items → Option (List Json)
  | _, .nil => some []
  | d, .cons _ t _ rest =>
    (Tree.toJson? d t).bind fun v => (Items.toJson? d rest).map fun vs => v :: vs

def Members.toJson? : ℕ → Members → Option (List (String × Json))
  | _, .nil => some []
  | d, .cons _ name _ _ t _ rest =>
    (readString name).bind fun k => (Tree.toJson? d t).bind fun v =>
      (Members.toJson? d rest).map fun ms => (k, v) :: ms

end

theorem parseItems_skip (value : List Char → Option (Json × List Char)) (n : ℕ)
    (cs : List Char) : parseItems value n (skipWhitespace cs) = parseItems value n cs := by
  cases n with
  | zero => rfl
  | succ n => simp only [parseItems, skipWhitespace_skipWhitespace]

theorem parseMembers_skip (value : List Char → Option (Json × List Char)) (n : ℕ)
    (cs : List Char) : parseMembers value n (skipWhitespace cs) = parseMembers value n cs := by
  cases n with
  | zero => rfl
  | succ n => simp only [parseMembers, skipWhitespace_skipWhitespace]

theorem parseValue_number (d : ℕ) {c : Char} (h : c = '-' ∨ Binary64.isDigit c = true)
    (cs : List Char) : parseValue d (c :: cs) = parseNumber (c :: cs) := by
  have hne : c ≠ 'n' ∧ c ≠ 'f' ∧ c ≠ 't' ∧ c ≠ '"' ∧ c ≠ '[' ∧ c ≠ '{' := by
    refine ⟨?_, ?_, ?_, ?_, ?_, ?_⟩
    all_goals
      rintro rfl
      rcases h with h | h <;> cases h
  unfold parseValue
  split
  all_goals rename_i heq
  all_goals simp only [List.cons.injEq, reduceCtorEq] at heq
  all_goals try simp_all

theorem isNumberChar_stop {c : Char} (h : c ∈ [',', ']', '}']) : isNumberChar c = false := by
  simp only [List.mem_cons, List.not_mem_nil, or_false] at h
  rcases h with rfl | rfl | rfl <;> rfl

theorem Items.text_cons (before : Blanks) (t : Tree) (after : Blanks) (rest : Items)
    (cs : List Char) : (Items.cons before t after rest).text ++ cs =
      before.chars ++ (t.text ++ (after.chars ++
        ((if rest.isNil then [] else ',' :: rest.text) ++ cs))) := by
  simp only [Items.text, List.append_assoc]

theorem Members.text_cons (before : Blanks) (name : List Piece) (mid before' : Blanks) (t : Tree)
    (after : Blanks) (rest : Members) (cs : List Char) :
    (Members.cons before name mid before' t after rest).text ++ cs =
      before.chars ++ (stringText name ++ (mid.chars ++ ':' :: (before'.chars ++ (t.text ++
        (after.chars ++ ((if rest.isNil then [] else ',' :: rest.text) ++ cs)))))) := by
  simp only [Members.text, List.append_assoc, List.cons_append]

variable {d n : ℕ} {rest : List Char}

theorem parseArray_text (w : Blanks) (items : Items)
    (hitems : items.isNil = false → ∀ n, items.count ≤ n →
      parseItems (parseValue d) n (items.text ++ ']' :: rest) =
        (Items.toJson? d items).map fun vs => (vs, rest)) :
    parseArray (parseValue d) (w.chars ++ (items.text ++ ']' :: rest)) =
      (Items.toJson? d items).map fun vs => (.array vs, rest) := by
  rw [parseArray, skipWhitespace_blanks]
  cases items with
  | nil => rfl
  | cons before t after more =>
    have hskip : skipWhitespace ((Items.cons before t after more).text ++ ']' :: rest) =
        t.text ++ (after.chars ++
          ((if more.isNil then [] else ',' :: more.text) ++ ']' :: rest)) := by
      rw [Items.text_cons, skipWhitespace_blanks, skipWhitespace_text]
    obtain ⟨c, cs, hcs, hc⟩ := t.text_head
    have hfuel : (Items.cons before t after more).count ≤
        (skipWhitespace ((Items.cons before t after more).text ++ ']' :: rest)).length + 1 := by
      have hcount := more.count_le
      rw [hskip, hcs]
      cases more with
      | nil =>
        simp only [Items.count, List.length_append, List.length_cons]
        omega
      | cons before' t' after' more' =>
        simp only [Items.isNil, Bool.false_eq_true, if_false, Items.count, List.length_append,
          List.length_cons] at hcount ⊢
        omega
    have hread := hitems rfl _ hfuel
    rw [← parseItems_skip] at hread
    have hbracket : ∀ r, skipWhitespace ((Items.cons before t after more).text ++ ']' :: rest) ≠
        ']' :: r := by
      intro r heq
      rw [hskip, hcs] at heq
      exact (startsValue_range hc).2.1 (List.cons.inj heq).1
    split
    · rename_i r heq
      exact absurd heq (hbracket r)
    · rw [hread, Option.map_map]
      rfl

theorem parseItems_cons (before : Blanks) (t : Tree) (after : Blanks) (more : Items)
    (hvalue : ∀ {r}, Stops r →
      parseValue d (t.text ++ r) = (Tree.toJson? d t).map fun j => (j, r))
    (hmore : more.isNil = false → parseItems (parseValue d) n (more.text ++ ']' :: rest) =
      (Items.toJson? d more).map fun vs => (vs, rest)) :
    parseItems (parseValue d) (n + 1) ((Items.cons before t after more).text ++ ']' :: rest) =
      (Items.toJson? d (.cons before t after more)).map fun vs => (vs, rest) := by
  rw [Items.text_cons, parseItems, skipWhitespace_blanks, skipWhitespace_text, Items.toJson?]
  cases more with
  | nil =>
    have hstop : Stops (after.chars ++ ']' :: rest) := stops_blanks after rfl rest
    have hclose : skipWhitespace (after.chars ++ ']' :: rest) = ']' :: rest := by
      rw [skipWhitespace_blanks, skipWhitespace_cons (by decide)]
    simp only [Items.isNil, if_true, List.nil_append, hvalue hstop]
    cases Tree.toJson? d t with
    | none => rfl
    | some v => simp [hclose, Items.toJson?]
  | cons before' t' after' more' =>
    have hmore := hmore rfl
    have hnil : (Items.cons before' t' after' more').isNil = false := rfl
    generalize Items.cons before' t' after' more' = more at hmore hnil
    have hstop : Stops (after.chars ++ ',' :: (more.text ++ ']' :: rest)) :=
      stops_blanks after rfl _
    have hcomma : skipWhitespace (after.chars ++ ',' :: (more.text ++ ']' :: rest)) =
        ',' :: (more.text ++ ']' :: rest) := by
      rw [skipWhitespace_blanks, skipWhitespace_cons (by decide)]
    simp only [hnil, Bool.false_eq_true, if_false, List.cons_append, hvalue hstop]
    cases Tree.toJson? d t with
    | none => rfl
    | some v =>
      simp only [Option.map_some, Option.bind_eq_bind, Option.bind_some, hcomma, hmore]
      cases Items.toJson? d more <;> rfl

theorem skipWhitespace_name (name : List Piece) (cs : List Char) :
    skipWhitespace (stringText name ++ cs) = stringText name ++ cs :=
  skipWhitespace_cons (by decide) _

theorem parseObject_text (w : Blanks) (members : Members)
    (hmembers : members.isNil = false → ∀ n, members.count ≤ n →
      parseMembers (parseValue d) n (members.text ++ '}' :: rest) =
        (Members.toJson? d members).map fun ms => (ms, rest)) :
    parseObject (parseValue d) (w.chars ++ (members.text ++ '}' :: rest)) =
      (Members.toJson? d members).map fun ms => (.object ms, rest) := by
  rw [parseObject, skipWhitespace_blanks]
  cases members with
  | nil => rfl
  | cons before name mid before' t after more =>
    have hskip : skipWhitespace
        ((Members.cons before name mid before' t after more).text ++ '}' :: rest) =
        stringText name ++ (mid.chars ++ ':' :: (before'.chars ++ (t.text ++ (after.chars ++
          ((if more.isNil then [] else ',' :: more.text) ++ '}' :: rest))))) := by
      rw [Members.text_cons, skipWhitespace_blanks, skipWhitespace_name]
    have hfuel : (Members.cons before name mid before' t after more).count ≤
        (skipWhitespace
          ((Members.cons before name mid before' t after more).text ++ '}' :: rest)).length + 1 := by
      have hcount := more.count_le
      rw [hskip]
      cases more with
      | nil =>
        simp only [Members.count, List.length_append, List.length_cons]
        omega
      | cons b k m b' t' a more' =>
        simp only [Members.isNil, Bool.false_eq_true, if_false, Members.count,
          List.length_append, List.length_cons] at hcount ⊢
        omega
    have hread := hmembers rfl _ hfuel
    rw [← parseMembers_skip] at hread
    split
    · rename_i r heq
      rw [hskip] at heq
      cases heq
    · rw [hread, Option.map_map]
      rfl

theorem parseMembers_cons (before : Blanks) (name : List Piece) (mid before' : Blanks) (t : Tree)
    (after : Blanks) (more : Members)
    (hvalue : ∀ {r}, Stops r →
      parseValue d (t.text ++ r) = (Tree.toJson? d t).map fun j => (j, r))
    (hmore : more.isNil = false → parseMembers (parseValue d) n (more.text ++ '}' :: rest) =
      (Members.toJson? d more).map fun ms => (ms, rest)) :
    parseMembers (parseValue d) (n + 1)
        ((Members.cons before name mid before' t after more).text ++ '}' :: rest) =
      (Members.toJson? d (.cons before name mid before' t after more)).map
        fun ms => (ms, rest) := by
  have hcolon (cs : List Char) : skipWhitespace (mid.chars ++ ':' :: cs) = ':' :: cs := by
    rw [skipWhitespace_blanks, skipWhitespace_cons (by decide)]
  rw [Members.text_cons, parseMembers, skipWhitespace_blanks, skipWhitespace_name,
    parseString_text, Members.toJson?]
  cases readString name with
  | none => rfl
  | some k =>
    simp only [Option.map_some, Option.bind_eq_bind, Option.bind_some, hcolon,
      skipWhitespace_blanks, skipWhitespace_text]
    cases more with
    | nil =>
      have hstop : Stops (after.chars ++ '}' :: rest) := stops_blanks after rfl rest
      have hclose : skipWhitespace (after.chars ++ '}' :: rest) = '}' :: rest := by
        rw [skipWhitespace_blanks, skipWhitespace_cons (by decide)]
      simp only [Members.isNil, if_true, List.nil_append, hvalue hstop]
      cases Tree.toJson? d t with
      | none => rfl
      | some v => simp [hclose, Members.toJson?]
    | cons b k' m b' t' a more' =>
      have hmore := hmore rfl
      have hnil : (Members.cons b k' m b' t' a more').isNil = false := rfl
      generalize Members.cons b k' m b' t' a more' = more at hmore hnil
      have hstop : Stops (after.chars ++ ',' :: (more.text ++ '}' :: rest)) :=
        stops_blanks after rfl _
      have hcomma : skipWhitespace (after.chars ++ ',' :: (more.text ++ '}' :: rest)) =
          ',' :: (more.text ++ '}' :: rest) := by
        rw [skipWhitespace_blanks, skipWhitespace_cons (by decide)]
      simp only [hnil, Bool.false_eq_true, if_false, List.cons_append, hvalue hstop]
      cases Tree.toJson? d t with
      | none => rfl
      | some v =>
        simp only [Option.map_some, Option.bind_some, hcomma, hmore]
        cases Members.toJson? d more <;> rfl

mutual

/-- The parser reads a value's text as its node, and leaves the rest. -/
theorem parseValue_text : ∀ (t : Tree) {d : ℕ} {rest : List Char}, t.AllNumerals fitsBuffer →
    Stops rest → parseValue d (t.text ++ rest) = (Tree.toJson? d t).map fun j => (j, rest)
  | .null, d, rest, _, _ => by cases d <;> rfl
  | .bool false, d, rest, _, _ => by cases d <;> rfl
  | .bool true, d, rest, _, _ => by cases d <;> rfl
  | .number n, d, rest, hfits, hstop => by
    obtain ⟨c, cs, hcs, hc⟩ := n.text_head
    have hnumber : parseValue d (n.text ++ rest) = parseNumber (n.text ++ rest) := by
      rw [hcs]
      exact parseValue_number d hc _
    rw [Tree.text, hnumber, parseNumber_text hfits hstop]
    cases d <;> rfl
  | .string ps, d, rest, _, _ => by
    have hstring : parseValue d (stringText ps ++ rest) =
        (parseString (stringText ps ++ rest)).map fun r => (.string r.1, r.2) := by
      cases d <;> rfl
    rw [Tree.text, hstring, parseString_text, Option.map_map]
    cases d <;> simp [Tree.toJson?, Option.map_map, Function.comp_def]
  | .array w items, 0, rest, _, _ => rfl
  | .array w items, d + 1, rest, hfits, _ => by
    have htext : (Tree.array w items).text ++ rest =
        '[' :: (w.chars ++ (items.text ++ ']' :: rest)) := by
      simp [Tree.text]
    rw [htext, Tree.toJson?, Option.map_map]
    exact parseArray_text w items fun hne n hn => parseItems_text items hfits hne hn
  | .object w members, 0, rest, _, _ => rfl
  | .object w members, d + 1, rest, hfits, _ => by
    have htext : (Tree.object w members).text ++ rest =
        '{' :: (w.chars ++ (members.text ++ '}' :: rest)) := by
      simp [Tree.text]
    rw [htext, Tree.toJson?, Option.map_map]
    exact parseObject_text w members fun hne n hn => parseMembers_text members hfits hne hn

theorem parseItems_text : ∀ (items : Items) {d : ℕ} {rest : List Char},
    items.AllNumerals fitsBuffer → items.isNil = false → ∀ {n}, items.count ≤ n →
      parseItems (parseValue d) n (items.text ++ ']' :: rest) =
        (Items.toJson? d items).map fun vs => (vs, rest)
  | .cons before t after more, _, _, hfits, _, _ + 1, hn =>
    parseItems_cons before t after more (fun hstop => parseValue_text t hfits.1 hstop)
      fun hne => parseItems_text more hfits.2 hne (Nat.le_of_succ_le_succ hn)

theorem parseMembers_text : ∀ (members : Members) {d : ℕ} {rest : List Char},
    members.AllNumerals fitsBuffer → members.isNil = false → ∀ {n}, members.count ≤ n →
      parseMembers (parseValue d) n (members.text ++ '}' :: rest) =
        (Members.toJson? d members).map fun ms => (ms, rest)
  | .cons before name mid before' t after more, _, _, hfits, _, _ + 1, hn =>
    parseMembers_cons before name mid before' t after more
      (fun hstop => parseValue_text t hfits.1 hstop)
      fun hne => parseMembers_text more hfits.2 hne (Nat.le_of_succ_le_succ hn)

end

theorem stops_of_blanks (w : Blanks) : Stops w.chars := by
  intro c hc
  cases hw : w.chars with
  | nil => simp [hw] at hc
  | cons y ys =>
    have hblank := w.blank y (hw ▸ List.mem_cons_self)
    rw [hw] at hc
    cases hc
    simp only [isWs, Bool.or_eq_true, beq_iff_eq] at hblank
    rcases hblank with ((rfl | rfl) | rfl) | rfl <;> rfl

theorem skipUtf8Bom_text (w : Blanks) (t : Tree) (cs : List Char) :
    skipUtf8Bom (w.chars ++ (t.text ++ cs)) = w.chars ++ (t.text ++ cs) := by
  have hhead : ∀ r, w.chars ++ (t.text ++ cs) ≠ '\xef' :: r := by
    intro r heq
    cases hw : w.chars with
    | nil =>
      obtain ⟨c, cs', hcs, hc⟩ := t.text_head
      rw [hw, hcs] at heq
      rw [(List.cons.inj heq).1] at hc
      cases hc
    | cons y ys =>
      have hblank := w.blank y (hw ▸ List.mem_cons_self)
      rw [hw] at heq
      rw [(List.cons.inj heq).1] at hblank
      cases hblank
  simp only [skipUtf8Bom]
  split
  · rename_i heq
    exact absurd heq (hhead _)
  · rfl

theorem parseText_text {s : String} {w w' : Blanks} {t : Tree} (hfits : t.AllNumerals fitsBuffer)
    (hs : s.toList = w.chars ++ (t.text ++ w'.chars)) :
    parseText s = Tree.toJson? nestingLimit t := by
  rw [parseText, hs, skipUtf8Bom_text, skipWhitespace_blanks, skipWhitespace_text,
    parseValue_text t hfits (stops_of_blanks w'), Option.map_map]
  cases Tree.toJson? nestingLimit t <;> rfl

end trees

end Nssf.Json
