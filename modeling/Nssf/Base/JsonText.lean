import Mathlib.Algebra.Field.Rat
import Mathlib.Algebra.Order.Ring.Rat
import Mathlib.Data.List.TakeWhile
import Mathlib.Tactic.NormNum
import Nssf.Base.Binary64
import Nssf.Base.Utf8

/-! The grammar of JSON texts, as trees that keep the spelling: whitespace, numerals digit by
digit, strings piece by piece. A text is the list of its bytes. `Tree.text` spells a tree out
and `Tree.value` says what it stands for. -/

namespace Nssf.Base.JsonText

open Binary64

def isWs (c : Char) : Bool := c == ' ' || c == '\t' || c == '\n' || c == '\r'

structure Blanks where
  chars : List Char
  blank : ∀ c ∈ chars, isWs c = true

def Blanks.none : Blanks := ⟨[], by simp⟩

section numerals

structure Digits where
  chars : List Char
  digit : ∀ c ∈ chars, isDigit c = true
  nonempty : chars ≠ []

inductive Sign where
  | none
  | plus
  | minus
  deriving DecidableEq

def Sign.text : Sign → List Char
  | .none => []
  | .plus => ['+']
  | .minus => ['-']

structure Exponent where
  upper : Bool
  sign : Sign
  digits : Digits

def Exponent.text (x : Exponent) : List Char :=
  (if x.upper then 'E' else 'e') :: (x.sign.text ++ x.digits.chars)

def Exponent.value (x : Exponent) : ℤ :=
  if x.sign = .minus then -digitsVal x.digits.chars else digitsVal x.digits.chars

structure Numeral where
  neg : Bool
  whole : Digits
  leading : whole.chars.head? = some '0' → whole.chars = ['0']
  frac : Option Digits
  exp : Option Exponent

namespace Numeral

def fracChars (n : Numeral) : List Char := n.frac.elim [] Digits.chars

def fracText (n : Numeral) : List Char := n.frac.elim [] fun ds => '.' :: ds.chars

def expText (n : Numeral) : List Char := n.exp.elim [] Exponent.text

def unsignedText (n : Numeral) : List Char := n.whole.chars ++ (n.fracText ++ n.expText)

def text (n : Numeral) : List Char := (if n.neg then ['-'] else []) ++ n.unsignedText

def digits (n : Numeral) : ℕ := digitsVal (n.whole.chars ++ n.fracChars)

def exponent (n : Numeral) : ℤ := n.exp.elim 0 Exponent.value - n.fracChars.length

def value (n : Numeral) : ℚ := (if n.neg then -1 else 1) * n.digits * 10 ^ n.exponent

end Numeral

end numerals

section strings

def isRaw (c : Char) : Bool := decide (0x20 ≤ c.toNat) && c != '"' && c != '\\'

def shortEscape? : Char → Option Char
  | '"' => some '"'
  | '\\' => some '\\'
  | '/' => some '/'
  | 'b' => some '\x08'
  | 'f' => some '\x0c'
  | 'n' => some '\n'
  | 'r' => some '\r'
  | 't' => some '\t'
  | _ => none

def hexDigit? (c : Char) : Option ℕ :=
  if '0' ≤ c ∧ c ≤ '9' then some (c.toNat - '0'.toNat)
  else if 'A' ≤ c ∧ c ≤ 'F' then some (c.toNat - 'A'.toNat + 10)
  else if 'a' ≤ c ∧ c ≤ 'f' then some (c.toNat - 'a'.toNat + 10)
  else none

def hex4? (a b c d : Char) : Option ℕ := do
  let a ← hexDigit? a
  let b ← hexDigit? b
  let c ← hexDigit? c
  let d ← hexDigit? d
  return ((a * 16 + b) * 16 + c) * 16 + d

/-- A character of a string as it is spelled. -/
inductive Piece where
  | raw (c : Char) (h : isRaw c = true)
  | short (c out : Char) (h : shortEscape? c = some out)
  | unit (a b c d : Char) (n : ℕ) (h : hex4? a b c d = some n)

def Piece.text : Piece → List Char
  | .raw c _ => [c]
  | .short c _ _ => ['\\', c]
  | .unit a b c d _ _ => ['\\', 'u', a, b, c, d]

def piecesText (ps : List Piece) : List Char := ps.flatMap Piece.text

def stringText (ps : List Piece) : List Char := '"' :: (piecesText ps ++ ['"'])

def isHigh (n : ℕ) : Bool := decide (0xd800 ≤ n ∧ n ≤ 0xdbff)

def isLow (n : ℕ) : Bool := decide (0xdc00 ≤ n ∧ n ≤ 0xdfff)

def surrogatePair (high low : ℕ) : ℕ := 0x10000 + (high % 0x400) * 0x400 + low % 0x400

/-- The bytes a string stands for. A surrogate without a partner stands for itself. -/
def decode : List Piece → List Char
  | [] => []
  | .raw c _ :: ps => c :: decode ps
  | .short _ out _ :: ps => out :: decode ps
  | .unit _ _ _ _ n _ :: .unit a b c d m h :: ps =>
    if isHigh n && isLow m then utf8 (surrogatePair n m) ++ decode ps
    else utf8 n ++ decode (.unit a b c d m h :: ps)
  | .unit _ _ _ _ n _ :: ps => utf8 n ++ decode ps

/-- Every surrogate has its partner. -/
def paired : List Piece → Bool
  | [] => true
  | .raw _ _ :: ps => paired ps
  | .short _ _ _ :: ps => paired ps
  | .unit _ _ _ _ n _ :: .unit a b c d m h :: ps =>
    if isHigh n && isLow m then paired ps
    else !(isHigh n || isLow n) && paired (.unit a b c d m h :: ps)
  | .unit _ _ _ _ n _ :: ps => !(isHigh n || isLow n) && paired ps

end strings

section trees

mutual

inductive Tree where
  | null
  | bool (b : Bool)
  | number (n : Numeral)
  | string (ps : List Piece)
  | array (w : Blanks) (items : Items)
  | object (w : Blanks) (members : Members)

inductive Items where
  | nil
  | cons (before : Blanks) (t : Tree) (after : Blanks) (rest : Items)

inductive Members where
  | nil
  | cons (before : Blanks) (name : List Piece) (mid : Blanks) (before' : Blanks) (t : Tree)
      (after : Blanks) (rest : Members)

end

def Items.isNil : Items → Bool
  | .nil => true
  | .cons _ _ _ _ => false

def Members.isNil : Members → Bool
  | .nil => true
  | .cons _ _ _ _ _ _ _ => false

mutual

def Tree.text : Tree → List Char
  | .null => ['n', 'u', 'l', 'l']
  | .bool true => ['t', 'r', 'u', 'e']
  | .bool false => ['f', 'a', 'l', 's', 'e']
  | .number n => n.text
  | .string ps => stringText ps
  | .array w items => '[' :: (w.chars ++ (items.text ++ [']']))
  | .object w members => '{' :: (w.chars ++ (members.text ++ ['}']))

def Items.text : Items → List Char
  | .nil => []
  | .cons before t after rest =>
    before.chars ++ (t.text ++ (after.chars ++ if rest.isNil then [] else ',' :: rest.text))

def Members.text : Members → List Char
  | .nil => []
  | .cons before name mid before' t after rest =>
    before.chars ++ (stringText name ++ (mid.chars ++ ':' :: (before'.chars ++ (t.text ++
      (after.chars ++ if rest.isNil then [] else ',' :: rest.text)))))

end

/-- What a text stands for. Numbers are exact, and the members of an object keep their order. -/
inductive Value where
  | null
  | bool (b : Bool)
  | number (q : ℚ)
  | string (s : List Char)
  | array (items : List Value)
  | object (members : List (List Char × Value))

mutual

def Tree.value : Tree → Value
  | .null => .null
  | .bool b => .bool b
  | .number n => .number n.value
  | .string ps => .string (decode ps)
  | .array _ items => .array items.values
  | .object _ members => .object members.values

def Items.values : Items → List Value
  | .nil => []
  | .cons _ t _ rest => t.value :: rest.values

def Members.values : Members → List (List Char × Value)
  | .nil => []
  | .cons _ name _ _ t _ rest => (decode name, t.value) :: rest.values

end

section predicates

variable (P : Numeral → Prop) (Q : List Piece → Prop)

mutual

def Tree.AllNumerals : Tree → Prop
  | .number n => P n
  | .array _ items => items.AllNumerals
  | .object _ members => members.AllNumerals
  | _ => True

def Items.AllNumerals : Items → Prop
  | .nil => True
  | .cons _ t _ rest => t.AllNumerals ∧ rest.AllNumerals

def Members.AllNumerals : Members → Prop
  | .nil => True
  | .cons _ _ _ _ t _ rest => t.AllNumerals ∧ rest.AllNumerals

end

mutual

/-- Of the strings and the names. -/
def Tree.AllStrings : Tree → Prop
  | .string ps => Q ps
  | .array _ items => items.AllStrings
  | .object _ members => members.AllStrings
  | _ => True

def Items.AllStrings : Items → Prop
  | .nil => True
  | .cons _ t _ rest => t.AllStrings ∧ rest.AllStrings

def Members.AllStrings : Members → Prop
  | .nil => True
  | .cons _ name _ _ t _ rest => Q name ∧ t.AllStrings ∧ rest.AllStrings

end

end predicates

mutual

def Tree.depth : Tree → ℕ
  | .array _ items => items.depth + 1
  | .object _ members => members.depth + 1
  | _ => 0

def Items.depth : Items → ℕ
  | .nil => 0
  | .cons _ t _ rest => max t.depth rest.depth

def Members.depth : Members → ℕ
  | .nil => 0
  | .cons _ _ _ _ t _ rest => max t.depth rest.depth

end

end trees

/-- One value with nothing but whitespace around it, in UTF-8. -/
def Denotes (cs : List Char) (v : Value) : Prop :=
  Utf8 cs ∧ ∃ (w w' : Blanks) (t : Tree), cs = w.chars ++ (t.text ++ w'.chars) ∧ t.value = v

def IsText (cs : List Char) : Prop := ∃ v, Denotes cs v

section scanning

theorem takeWhile_append_stop {p : Char → Bool} {a b : List Char} (ha : ∀ c ∈ a, p c = true)
    (hb : ∀ c ∈ b.head?, p c = false) : (a ++ b).takeWhile p = a := by
  rw [List.takeWhile_append_of_pos ha]
  cases b with
  | nil => simp
  | cons c b => simp [hb c rfl]

theorem dropWhile_append_stop {p : Char → Bool} {a b : List Char} (ha : ∀ c ∈ a, p c = true)
    (hb : ∀ c ∈ b.head?, p c = false) : (a ++ b).dropWhile p = b := by
  rw [List.dropWhile_append_of_pos ha]
  cases b with
  | nil => rfl
  | cons c b => simp [hb c rfl]

theorem Digits.takeWhile (ds : Digits) {rest : List Char}
    (h : ∀ c ∈ rest.head?, isDigit c = false) : (ds.chars ++ rest).takeWhile isDigit = ds.chars :=
  takeWhile_append_stop ds.digit h

theorem Digits.dropWhile (ds : Digits) {rest : List Char}
    (h : ∀ c ∈ rest.head?, isDigit c = false) : (ds.chars ++ rest).dropWhile isDigit = rest :=
  dropWhile_append_stop ds.digit h

theorem Digits.head (ds : Digits) : ∃ c cs, ds.chars = c :: cs ∧ isDigit c = true := by
  cases h : ds.chars with
  | nil => exact absurd h ds.nonempty
  | cons c cs => exact ⟨c, cs, rfl, ds.digit c (h ▸ List.mem_cons_self)⟩

theorem Digits.head_ne (ds : Digits) {d : Char} (hd : isDigit d = false) :
    ∀ r, ds.chars ≠ d :: r := by
  intro r h
  have hdigit := ds.digit d (h ▸ List.mem_cons_self)
  rw [hd] at hdigit
  cases hdigit

theorem scanExponent_text (x : Exponent) : scanExponent x.text = (x.value, []) := by
  obtain ⟨upper, sign, digits⟩ := x
  have hmark : (if upper = true then 'E' else 'e') = 'e' ∨
      (if upper = true then 'E' else 'e') = 'E' := by
    cases upper <;> decide
  have htake : digits.chars.takeWhile isDigit = digits.chars :=
    List.takeWhile_eq_self_iff.2 digits.digit
  have hdrop : digits.chars.dropWhile isDigit = [] :=
    List.dropWhile_eq_nil_iff.2 digits.digit
  have hnonempty : digits.chars.isEmpty = false := by simp [digits.nonempty]
  unfold scanExponent Exponent.text
  dsimp only
  rw [if_pos hmark]
  cases sign with
  | plus =>
    simp only [Sign.text, List.cons_append, List.nil_append, htake, hdrop, hnonempty,
      Exponent.value]
    rfl
  | minus =>
    simp only [Sign.text, List.cons_append, List.nil_append, htake, hdrop, hnonempty,
      Exponent.value]
    rfl
  | none =>
    rw [Sign.text, List.nil_append]
    split
    · rename_i h
      exact absurd h (digits.head_ne rfl _)
    · rename_i h
      exact absurd h (digits.head_ne rfl _)
    · simp only [htake, hdrop, hnonempty, Exponent.value]
      rfl

theorem Numeral.expText_head (n : Numeral) : ∀ c ∈ n.expText.head?, c = 'e' ∨ c = 'E' := by
  intro c hc
  simp only [expText] at hc
  cases hx : n.exp with
  | none => simp [hx] at hc
  | some x =>
    simp only [hx, Option.elim_some, Exponent.text, List.head?_cons, Option.mem_some_iff] at hc
    rw [← hc]
    cases x.upper
    · exact Or.inl rfl
    · exact Or.inr rfl

theorem Numeral.scanExponent_expText (n : Numeral) :
    scanExponent n.expText = (n.exp.elim 0 Exponent.value, []) := by
  simp only [expText]
  cases n.exp with
  | none => rfl
  | some x => exact scanExponent_text x

theorem Numeral.tail_head (n : Numeral) :
    ∀ c ∈ (n.fracText ++ n.expText).head?, isDigit c = false := by
  intro c hc
  simp only [fracText] at hc
  cases hfrac : n.frac with
  | none =>
    rw [hfrac, Option.elim_none, List.nil_append] at hc
    rcases n.expText_head c hc with rfl | rfl <;> rfl
  | some ds =>
    rw [hfrac] at hc
    cases hc
    rfl

/-- The scanner behind the sign. -/
def scanUnsigned (neg : Bool) (body : List Char) : Option Decimal :=
  let whole := body.takeWhile isDigit
  let (frac, rest) := match body.dropWhile isDigit with
    | '.' :: r => (r.takeWhile isDigit, r.dropWhile isDigit)
    | r => ([], r)
  if whole.isEmpty && frac.isEmpty then none
  else
    let (e, rest) := scanExponent rest
    some ⟨neg, digitsVal (whole ++ frac), e - frac.length, rest⟩

theorem scanDecimal_unsigned {c : Char} (h : isDigit c = true) (cs : List Char) :
    scanDecimal (c :: cs) = scanUnsigned false (c :: cs) := by
  have hminus : c ≠ '-' := by
    rintro rfl
    cases h
  have hplus : c ≠ '+' := by
    rintro rfl
    cases h
  simp only [scanDecimal]
  split
  · rename_i heq
    exact absurd (List.cons.inj heq).1 hminus
  · rename_i heq
    exact absurd (List.cons.inj heq).1 hplus
  · rfl

theorem scanUnsigned_text (neg : Bool) (n : Numeral) :
    scanUnsigned neg n.unsignedText = some ⟨neg, n.digits, n.exponent, []⟩ := by
  have htake : n.unsignedText.takeWhile isDigit = n.whole.chars := n.whole.takeWhile n.tail_head
  have hdrop : n.unsignedText.dropWhile isDigit = n.fracText ++ n.expText :=
    n.whole.dropWhile n.tail_head
  have hwhole : n.whole.chars.isEmpty = false := by
    simp [n.whole.nonempty]
  have hexpDigit : ∀ c ∈ n.expText.head?, isDigit c = false := by
    intro c hc
    rcases n.expText_head c hc with rfl | rfl <;> rfl
  simp only [scanUnsigned, htake, hdrop, hwhole, Bool.false_and, Bool.false_eq_true, if_false,
    Numeral.digits, Numeral.exponent, Numeral.fracChars, Numeral.fracText]
  cases n.frac with
  | none =>
    rw [Option.elim_none, List.nil_append]
    split
    · rename_i r heq
      have hdot := n.expText_head '.' (by rw [heq]; rfl)
      rcases hdot with hdot | hdot <;> cases hdot
    · rw [n.scanExponent_expText]
      rfl
  | some ds =>
    simp only [Option.elim_some, List.cons_append, ds.takeWhile hexpDigit,
      ds.dropWhile hexpDigit, n.scanExponent_expText]

/-- The scanner reads a numeral whole. -/
theorem scanDecimal_text (n : Numeral) :
    scanDecimal n.text = some ⟨n.neg, n.digits, n.exponent, []⟩ := by
  have hunsigned := scanUnsigned_text n.neg n
  rw [Numeral.text]
  cases hneg : n.neg with
  | true =>
    rw [hneg] at hunsigned
    exact hunsigned
  | false =>
    rw [hneg] at hunsigned
    obtain ⟨c, cs, hcs, hc⟩ := n.whole.head
    have hhead : n.unsignedText = c :: (cs ++ (n.fracText ++ n.expText)) := by
      rw [Numeral.unsignedText, hcs, List.cons_append]
    rw [if_neg Bool.false_ne_true, List.nil_append, hhead, scanDecimal_unsigned hc, ← hhead]
    exact hunsigned

theorem Numeral.text_head (n : Numeral) :
    ∃ c cs, n.text = c :: cs ∧ (c = '-' ∨ isDigit c = true) := by
  obtain ⟨c, cs, hcs, hc⟩ := n.whole.head
  cases hneg : n.neg with
  | true => exact ⟨'-', n.unsignedText, by simp [text, hneg], Or.inl rfl⟩
  | false =>
    refine ⟨c, cs ++ (n.fracText ++ n.expText), ?_, Or.inr hc⟩
    simp [text, hneg, unsignedText, hcs]

theorem Piece.text_ne_nil (p : Piece) : p.text ≠ [] := by
  cases p <;> simp [Piece.text]

theorem length_le_piecesText (ps : List Piece) : ps.length ≤ (piecesText ps).length := by
  induction ps with
  | nil => exact Nat.le_refl _
  | cons p ps ih =>
    have hp := List.length_pos_of_ne_nil p.text_ne_nil
    simp only [piecesText, List.flatMap_cons, List.length_append, List.length_cons] at ih ⊢
    omega

/-- The first byte of a value. -/
def startsValue (c : Char) : Bool :=
  isDigit c || ['n', 't', 'f', '"', '[', '{', '-'].contains c

theorem Tree.text_head (t : Tree) : ∃ c cs, t.text = c :: cs ∧ startsValue c = true := by
  cases t with
  | null => exact ⟨'n', _, by rw [Tree.text], rfl⟩
  | bool b =>
    cases b with
    | false => exact ⟨'f', _, by rw [Tree.text], rfl⟩
    | true => exact ⟨'t', _, by rw [Tree.text], rfl⟩
  | number n =>
    obtain ⟨c, cs, hcs, hc⟩ := n.text_head
    refine ⟨c, cs, by rw [Tree.text, hcs], ?_⟩
    rcases hc with rfl | hc
    · rfl
    · simp [startsValue, hc]
  | string ps => exact ⟨'"', _, by rw [Tree.text, stringText], rfl⟩
  | array w items => exact ⟨'[', _, by rw [Tree.text], rfl⟩
  | object w members => exact ⟨'{', _, by rw [Tree.text], rfl⟩

def Items.count : Items → ℕ
  | .nil => 0
  | .cons _ _ _ rest => rest.count + 1

def Members.count : Members → ℕ
  | .nil => 0
  | .cons _ _ _ _ _ _ rest => rest.count + 1

theorem Items.count_le : ∀ items : Items, items.count ≤ items.text.length
  | .nil => Nat.le_refl _
  | .cons before t after rest => by
    obtain ⟨c, cs, hcs, -⟩ := t.text_head
    have hrest := rest.count_le
    cases rest with
    | nil =>
      simp only [Items.count, Items.text, hcs, List.length_append, List.length_cons]
      omega
    | cons before' t' after' rest' =>
      simp only [Items.count, Items.text, hcs, List.length_append, List.length_cons, Items.isNil,
        Bool.false_eq_true, if_false] at hrest ⊢
      omega

theorem Members.count_le : ∀ members : Members, members.count ≤ members.text.length
  | .nil => Nat.le_refl _
  | .cons before name mid before' t after rest => by
    have hrest := rest.count_le
    cases rest with
    | nil =>
      simp only [Members.count, Members.text, List.length_append, List.length_cons]
      omega
    | cons b n m b' t' a rest' =>
      simp only [Members.count, Members.text, List.length_append, List.length_cons,
        Members.isNil, Bool.false_eq_true, if_false] at hrest ⊢
      omega

end scanning

end Nssf.Base.JsonText
