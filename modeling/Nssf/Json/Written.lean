import Nssf.Base.ReadBack
import Nssf.Json.Reading

/-! What the printer writes. The text of a tree is a JSON text, and it reads back as the tree,
but for an infinite number, which is written as `null`, and a string with a zero byte. -/

namespace Nssf.Json

open Base JsonText

section numbers

/-- The numeral a finite number is printed as reads as the number. -/
theorem printNumber_numeral {d : Binary64} (h : d.isInf = false) :
    ∃ n : Numeral, n.text = printNumber d ∧ Binary64.ofNumeral n = d := by
  obtain ⟨short, hneg, hshort, -⟩ := Binary64.printG_numeral (by decide : 0 < 15) d
  have hread : Binary64.strtod (d.printG 15) = some (Binary64.ofNumeral short, []) := by
    rw [← hshort, Binary64.strtod_text]
  simp only [printNumber, h, Bool.false_eq_true, if_false, hread]
  split_ifs with hback
  · refine ⟨short, hshort, ?_⟩
    have hsign : (Binary64.ofNumeral short).neg = d.neg := by
      rw [Binary64.ofNumeral, Binary64.ofDecimal_neg, hneg]
    simp only [Binary64.eqC, Bool.and_eq_true, beq_iff_eq] at hback
    generalize Binary64.ofNumeral short = back at hsign hback
    obtain ⟨neg, mag⟩ := back
    obtain ⟨neg', mag'⟩ := d
    obtain ⟨rfl, -⟩ := hback
    exact congrArg (Binary64.mk · mag) hsign
  · exact Binary64.printG_seventeen d

theorem length_printNumber_le (d : Binary64) : (printNumber d).length ≤ 24 := by
  have hlong := Binary64.length_printG_le (by decide : 0 < 17) d
  have hshort := Binary64.length_printG_le (by decide : 0 < 15) d
  simp only [printNumber]
  split_ifs with hinf
  · decide
  · cases Binary64.strtod (d.printG 15) with
    | none => exact hlong
    | some r =>
      dsimp only
      split_ifs
      · omega
      · exact hlong

end numbers

section strings

theorem hex4_control : ∀ n < 32,
    hex4? '0' '0' (hexDigit (n / 16)) (hexDigit (n % 16)) = some n := by
  decide

/-- A printed character is one piece, and never half of a surrogate pair. -/
theorem exists_piece (c : Char) : ∃ p : Piece, p.text = escapeChar c ∧
    ∀ ps, decode (p :: ps) = c :: decode ps ∧ paired (p :: ps) = paired ps := by
  by_cases hspecial : c ∈ ['"', '\\', '\x08', '\x0c', '\n', '\r', '\t']
  · simp only [List.mem_cons, List.not_mem_nil, or_false] at hspecial
    rcases hspecial with rfl | rfl | rfl | rfl | rfl | rfl | rfl
    · exact ⟨.short '"' _ rfl, rfl, fun ps => ⟨rfl, rfl⟩⟩
    · exact ⟨.short '\\' _ rfl, rfl, fun ps => ⟨rfl, rfl⟩⟩
    · exact ⟨.short 'b' _ rfl, rfl, fun ps => ⟨rfl, rfl⟩⟩
    · exact ⟨.short 'f' _ rfl, rfl, fun ps => ⟨rfl, rfl⟩⟩
    · exact ⟨.short 'n' _ rfl, rfl, fun ps => ⟨rfl, rfl⟩⟩
    · exact ⟨.short 'r' _ rfl, rfl, fun ps => ⟨rfl, rfl⟩⟩
    · exact ⟨.short 't' _ rfl, rfl, fun ps => ⟨rfl, rfl⟩⟩
  · simp only [List.mem_cons, List.not_mem_nil, or_false, not_or] at hspecial
    obtain ⟨hquote, hback, hb, hf, hn, hr, ht⟩ := hspecial
    simp only [escapeChar, hquote, hback, hb, hf, hn, hr, ht, if_false]
    by_cases hcontrol : c.toNat < 32
    · have hhigh : isHigh c.toNat = false := decide_eq_false (by omega)
      have hlow : isLow c.toNat = false := decide_eq_false (by omega)
      refine ⟨.unit _ _ _ _ _ (hex4_control c.toNat hcontrol), ?_, fun ps => ?_⟩
      · rw [if_pos hcontrol]
        rfl
      · obtain ⟨hpaired, hdecode⟩ := paired_unit (hex4_control c.toNat hcontrol) hhigh ps
        rw [hpaired, hdecode, hlow, utf8_ascii (by omega), Char.ofNat_toNat]
        exact ⟨rfl, rfl⟩
    · refine ⟨.raw c ?_, ?_, fun ps => ⟨rfl, rfl⟩⟩
      · simp [isRaw, hquote, hback]
        omega
      · rw [if_neg hcontrol]
        rfl

theorem exists_pieces (cs : List Char) : ∃ ps : List Piece,
    piecesText ps = cs.flatMap escapeChar ∧ decode ps = cs ∧ paired ps = true := by
  induction cs with
  | nil => exact ⟨[], rfl, rfl, rfl⟩
  | cons c cs ih =>
    obtain ⟨ps, htext, hdecode, hpaired⟩ := ih
    obtain ⟨p, hp, hfront⟩ := exists_piece c
    obtain ⟨hdecode', hpaired'⟩ := hfront ps
    refine ⟨p :: ps, ?_, ?_, ?_⟩
    · rw [piecesText, List.flatMap_cons, List.flatMap_cons, hp]
      exact congrArg _ htext
    · rw [hdecode', hdecode]
    · rw [hpaired', hpaired]

/-- The literal of a string. -/
theorem exists_literal (s : String) : ∃ ps : List Piece,
    stringText ps = printString s ∧ decode ps = s.toList ∧ paired ps = true := by
  obtain ⟨ps, htext, hdecode, hpaired⟩ := exists_pieces s.toList
  exact ⟨ps, by rw [stringText, printString, htext], hdecode, hpaired⟩

theorem escape_ascii {n : ℕ} (h : n < 0x80) :
    ∀ x ∈ escapeChar (Char.ofNat n), x.toNat < 0x80 := by
  have hall : ((List.range 0x80).all fun n =>
      (escapeChar (Char.ofNat n)).all fun x => Nat.blt x.toNat 0x80) = true := by
    decide
  intro x hx
  have hchar := List.all_eq_true.1 hall n (List.mem_range.2 h)
  exact Nat.blt_eq.mp (List.all_eq_true.1 hchar x hx)

theorem escape_high {c : Char} (h : 0x80 ≤ c.toNat) : escapeChar c = [c] := by
  have hne {x : Char} (hx : x.toNat < 0x80) : c ≠ x := by
    rintro rfl
    omega
  simp only [escapeChar]
  rw [if_neg (hne (by decide)), if_neg (hne (by decide)), if_neg (hne (by decide)),
    if_neg (hne (by decide)), if_neg (hne (by decide)), if_neg (hne (by decide)),
    if_neg (hne (by decide)), if_neg (by omega)]

/-- Escaping touches single bytes below `0x80` only. -/
theorem utf8_escape {cs : List Char} (h : Utf8 cs) : Utf8 (cs.flatMap escapeChar) := by
  obtain ⟨s, rfl⟩ := h
  induction s with
  | nil => exact Utf8.nil
  | cons c s ih =>
    rw [List.flatMap_cons, List.flatMap_append]
    refine Utf8.append ?_ ih
    by_cases hascii : c.toNat < 0x80
    · rw [utf8_ascii hascii, Char.ofNat_toNat, List.flatMap_singleton]
      have h := escape_ascii hascii
      rw [Char.ofNat_toNat] at h
      exact Utf8.of_ascii h
    · have hhigh := utf8_high (not_lt.1 hascii) (toNat_lt c)
      have hsame : (utf8 c.toNat).flatMap escapeChar = (utf8 c.toNat).flatMap fun x => [x] :=
        List.flatMap_congr fun x hx => escape_high (hhigh x hx)
      rw [hsame, List.flatMap_singleton']
      exact Utf8.char c

end strings

section trees

mutual

/-- Of the strings and the names. -/
def AllStrings (Q : String → Prop) : Json → Prop
  | .string s => Q s
  | .array xs => AllItems Q xs
  | .object ms => AllMembers Q ms
  | _ => True

def AllItems (Q : String → Prop) : List Json → Prop
  | [] => True
  | x :: xs => AllStrings Q x ∧ AllItems Q xs

def AllMembers (Q : String → Prop) : List (String × Json) → Prop
  | [] => True
  | (k, x) :: ms => Q k ∧ AllStrings Q x ∧ AllMembers Q ms

end

mutual

theorem AllStrings.imp {P Q : String → Prop} (h : ∀ s, P s → Q s) :
    ∀ {j : Json}, AllStrings P j → AllStrings Q j
  | .null, _ => trivial
  | .bool _, _ => trivial
  | .number _, _ => trivial
  | .string s, hs => h s hs
  | .array _, hxs => AllItems.imp h hxs
  | .object _, hms => AllMembers.imp h hms

theorem AllItems.imp {P Q : String → Prop} (h : ∀ s, P s → Q s) :
    ∀ {xs : List Json}, AllItems P xs → AllItems Q xs
  | [], _ => trivial
  | _ :: _, hxs => ⟨AllStrings.imp h hxs.1, AllItems.imp h hxs.2⟩

theorem AllMembers.imp {P Q : String → Prop} (h : ∀ s, P s → Q s) :
    ∀ {ms : List (String × Json)}, AllMembers P ms → AllMembers Q ms
  | [], _ => trivial
  | (k, _) :: _, hms => ⟨h k hms.1, AllStrings.imp h hms.2.1, AllMembers.imp h hms.2.2⟩

end

def NulFree (s : String) : Prop := '\x00' ∉ s.toList

mutual

/-- The tree that the text of a tree spells. -/
def written : Json → Json
  | .number d => if d.isInf then .null else .number d
  | .array xs => .array (writtenItems xs)
  | .object ms => .object (writtenMembers ms)
  | j => j

def writtenItems : List Json → List Json
  | [] => []
  | x :: xs => written x :: writtenItems xs

def writtenMembers : List (String × Json) → List (String × Json)
  | [] => []
  | (k, x) :: ms => (k, written x) :: writtenMembers ms

end

/-- The number that the digits of a printed number stand for. -/
def decimalOf (d : Binary64) : ℚ :=
  match Binary64.scanDecimal (printNumber d) with
  | some x => (if x.neg then -1 else 1) * x.digits * 10 ^ x.exponent
  | none => 0

mutual

/-- What the text of a tree stands for. -/
def value : Json → Value
  | .null => .null
  | .bool b => .bool b
  | .number d => if d.isInf then .null else .number (decimalOf d)
  | .string s => .string s.toList
  | .array xs => .array (itemValues xs)
  | .object ms => .object (memberValues ms)

def itemValues : List Json → List Value
  | [] => []
  | x :: xs => value x :: itemValues xs

def memberValues : List (String × Json) → List (List Char × Value)
  | [] => []
  | (k, x) :: ms => (k.toList, value x) :: memberValues ms

end

theorem decimalOf_numeral {d : Binary64} {n : Numeral} (h : n.text = printNumber d) :
    decimalOf d = n.value := by
  rw [decimalOf, ← h, scanDecimal_text]
  rfl

theorem readString_literal {s : String} {ps : List Piece} (hdecode : decode ps = s.toList)
    (hpaired : paired ps = true) (hnul : NulFree s) : readString ps = some s := by
  have hcut : cutAtNul s.toList = s.toList := by
    apply List.takeWhile_eq_self_iff.2
    intro c hc
    rw [bne_iff_ne]
    rintro rfl
    exact hnul hc
  rw [readString, if_pos hpaired, hdecode, hcut, String.ofList_toList]

mutual

/-- The syntax tree of what the printer writes. -/
theorem exists_tree : ∀ j : Json, ∃ t : Tree, t.text = printValue j ∧
    t.AllNumerals fitsBuffer ∧ t.value = value j ∧
    (AllStrings NulFree j → ∀ d, j.depth ≤ d → Tree.toJson? d t = some (written j))
  | .null => ⟨.null, rfl, trivial, rfl, fun _ d _ => by cases d <;> rfl⟩
  | .bool true => ⟨.bool true, rfl, trivial, rfl, fun _ d _ => by cases d <;> rfl⟩
  | .bool false => ⟨.bool false, rfl, trivial, rfl, fun _ d _ => by cases d <;> rfl⟩
  | .number x => by
    cases hinf : x.isInf with
    | true =>
      refine ⟨.null, ?_, trivial, ?_, fun _ d _ => ?_⟩
      · simp [Tree.text, printValue, printNumber, hinf]
      · simp [Tree.value, value, hinf]
      · cases d <;> simp [Tree.toJson?, written, hinf]
    | false =>
      obtain ⟨n, htext, hread⟩ := printNumber_numeral hinf
      have hlen := length_printNumber_le x
      refine ⟨.number n, ?_, ?_, ?_, fun _ d _ => ?_⟩
      · rw [Tree.text, printValue, htext]
      · rw [← htext] at hlen
        exact hlen.trans (by decide)
      · simp [Tree.value, value, hinf, decimalOf_numeral htext]
      · cases d <;> simp [Tree.toJson?, written, hinf, hread]
  | .string s => by
    obtain ⟨ps, htext, hdecode, hpaired⟩ := exists_literal s
    refine ⟨.string ps, ?_, trivial, ?_, fun hnul d _ => ?_⟩
    · rw [Tree.text, printValue, htext]
    · rw [Tree.value, value, hdecode]
    · have hread := readString_literal hdecode hpaired hnul
      cases d <;> simp [Tree.toJson?, written, hread]
  | .array xs => by
    obtain ⟨items, htext, -, hfits, hvalue, hread⟩ := exists_items xs
    refine ⟨.array Blanks.none items, ?_, hfits, ?_, fun hnul d hd => ?_⟩
    · simp [Tree.text, printValue, Blanks.none, htext]
    · rw [Tree.value, value, hvalue]
    · obtain ⟨d, rfl⟩ : ∃ e, d = e + 1 := ⟨d - 1, by simp only [depth] at hd; omega⟩
      have hd' : depthItems xs ≤ d := Nat.le_of_succ_le_succ hd
      rw [Tree.toJson?, hread hnul d hd', written]
      rfl
  | .object ms => by
    obtain ⟨members, htext, -, hfits, hvalue, hread⟩ := exists_members ms
    refine ⟨.object Blanks.none members, ?_, hfits, ?_, fun hnul d hd => ?_⟩
    · simp [Tree.text, printValue, Blanks.none, htext]
    · rw [Tree.value, value, hvalue]
    · obtain ⟨d, rfl⟩ : ∃ e, d = e + 1 := ⟨d - 1, by simp only [depth] at hd; omega⟩
      have hd' : depthMembers ms ≤ d := Nat.le_of_succ_le_succ hd
      rw [Tree.toJson?, hread hnul d hd', written]
      rfl

theorem exists_items : ∀ xs : List Json, ∃ items : Items, items.text = printItems xs ∧
    items.isNil = xs.isEmpty ∧ items.AllNumerals fitsBuffer ∧ items.values = itemValues xs ∧
    (AllItems NulFree xs → ∀ d, depthItems xs ≤ d →
      Items.toJson? d items = some (writtenItems xs))
  | [] => ⟨.nil, rfl, rfl, trivial, rfl, fun _ d _ => by cases d <;> rfl⟩
  | x :: xs => by
    obtain ⟨t, ht, hfits, hvalue, hread⟩ := exists_tree x
    obtain ⟨items, htext, hnil, hfits', hvalue', hread'⟩ := exists_items xs
    refine ⟨.cons Blanks.none t Blanks.none items, ?_, rfl, ⟨hfits, hfits'⟩, ?_,
      fun hnul d hd => ?_⟩
    · simp [Items.text, printItems, Blanks.none, ht, htext, hnil]
    · rw [Items.values, itemValues, hvalue, hvalue']
    · simp only [depthItems] at hd
      rw [Items.toJson?, hread hnul.1 d (by omega), hread' hnul.2 d (by omega)]
      rfl

theorem exists_members : ∀ ms : List (String × Json), ∃ members : Members,
    members.text = printMembers ms ∧ members.isNil = ms.isEmpty ∧
    members.AllNumerals fitsBuffer ∧ members.values = memberValues ms ∧
    (AllMembers NulFree ms → ∀ d, depthMembers ms ≤ d →
      Members.toJson? d members = some (writtenMembers ms))
  | [] => ⟨.nil, rfl, rfl, trivial, rfl, fun _ d _ => by cases d <;> rfl⟩
  | (k, x) :: ms => by
    obtain ⟨t, ht, hfits, hvalue, hread⟩ := exists_tree x
    obtain ⟨name, hname, hdecode, hpaired⟩ := exists_literal k
    obtain ⟨members, htext, hnil, hfits', hvalue', hread'⟩ := exists_members ms
    refine ⟨.cons Blanks.none name Blanks.none Blanks.none t Blanks.none members, ?_, rfl,
      ⟨hfits, hfits'⟩, ?_, fun hnul d hd => ?_⟩
    · simp [Members.text, printMembers, Blanks.none, ht, hname, htext, hnil]
    · rw [Members.values, memberValues, hvalue, hvalue', hdecode]
    · simp only [depthMembers] at hd
      rw [Members.toJson?, readString_literal hdecode hpaired hnul.1, hread hnul.2.1 d (by omega),
        hread' hnul.2.2 d (by omega)]
      rfl

end

/-- The text of a tree reads back as what it spells. -/
theorem parseValue_printValue {j : Json} (hnul : AllStrings NulFree j) {d : ℕ}
    (hd : j.depth ≤ d) {rest : List Char} (h : Stops rest) :
    parseValue d (printValue j ++ rest) = some (written j, rest) := by
  obtain ⟨t, htext, hfits, -, hread⟩ := exists_tree j
  rw [← htext, parseValue_text t hfits h, hread hnul d hd]
  rfl

theorem skipWhitespace_printValue (j : Json) (rest : List Char) :
    skipWhitespace (skipUtf8Bom (printValue j ++ rest)) = printValue j ++ rest := by
  obtain ⟨t, htext, -⟩ := exists_tree j
  have hbom := skipUtf8Bom_text Blanks.none t rest
  rw [← htext]
  simp only [Blanks.none, List.nil_append] at hbom
  rw [hbom, skipWhitespace_text]

theorem parseText_printText {j : Json} (hnul : AllStrings NulFree j)
    (hdepth : j.depth ≤ nestingLimit) : parseText (printText j) = some (written j) := by
  have hskip := skipWhitespace_printValue j []
  have hstop : Stops [] := by
    intro c hc
    cases hc
  have hread := parseValue_printValue hnul hdepth hstop
  rw [List.append_nil] at hskip hread
  rw [parseText, printText, String.toList_ofList, hskip, hread]
  rfl

mutual

theorem printValue_written : ∀ j : Json, printValue (written j) = printValue j
  | .null => rfl
  | .bool _ => rfl
  | .number d => by
    cases hinf : d.isInf <;> simp [written, printValue, printNumber, hinf]
  | .string _ => rfl
  | .array xs => by rw [written, printValue, printValue, printItems_written xs]
  | .object ms => by rw [written, printValue, printValue, printMembers_written ms]

theorem printItems_written : ∀ xs : List Json, printItems (writtenItems xs) = printItems xs
  | [] => rfl
  | x :: xs => by
    have hempty : (writtenItems xs).isEmpty = xs.isEmpty := by cases xs <;> rfl
    rw [writtenItems, printItems, printItems, printValue_written x, printItems_written xs, hempty]

theorem printMembers_written :
    ∀ ms : List (String × Json), printMembers (writtenMembers ms) = printMembers ms
  | [] => rfl
  | (k, x) :: ms => by
    have hempty : (writtenMembers ms).isEmpty = ms.isEmpty := by rcases ms with _ | ⟨⟨k, x⟩, ms⟩ <;> rfl
    rw [writtenMembers, printMembers, printMembers, printValue_written x, printMembers_written ms,
      hempty]

end

/-- Two trees are printed alike when they spell the same tree. -/
theorem printText_eq_iff {a b : Json} (ha : AllStrings NulFree a) (hb : AllStrings NulFree b) :
    printText a = printText b ↔ written a = written b := by
  constructor
  · intro h
    have htext : printValue a = printValue b := String.ofList_injective h
    have hstop : Stops [] := by
      intro c hc
      cases hc
    have hreadA := parseValue_printValue ha (Nat.le_max_left a.depth b.depth) hstop
    have hreadB := parseValue_printValue hb (Nat.le_max_right a.depth b.depth) hstop
    rw [htext, hreadB] at hreadA
    exact (congrArg Prod.fst (Option.some.inj hreadA)).symm
  · intro h
    rw [printText, printText, ← printValue_written a, ← printValue_written b, h]

end trees

section encoding

def Utf8String (s : String) : Prop := Utf8 s.toList

/-- Strings as a C program and a JSON text can both hold them. -/
def Proper : Json → Prop := AllStrings fun s => NulFree s ∧ Utf8String s

/-- Every character is printable ASCII, or at least no control character. -/
def isWord (cs : List Char) : Bool := cs.all fun c => Nat.blt 31 c.toNat && Nat.blt c.toNat 0x80

theorem isWord_ascii {cs : List Char} (h : isWord cs = true) :
    ∀ c ∈ cs, 31 < c.toNat ∧ c.toNat < 0x80 := by
  intro c hc
  have hboth := List.all_eq_true.1 h c hc
  simp only [Bool.and_eq_true, Nat.blt_eq] at hboth
  exact hboth

theorem utf8_word {cs : List Char} (h : isWord cs = true) : Utf8 cs :=
  Utf8.of_ascii fun c hc => (isWord_ascii h c hc).2

theorem proper_word {s : String} (h : isWord s.toList = true) : NulFree s ∧ Utf8String s := by
  refine ⟨fun hnul => ?_, utf8_word h⟩
  have hlow := (isWord_ascii h _ hnul).1
  simp at hlow

theorem utf8_printString {s : String} (h : Utf8String s) : Utf8 (printString s) := by
  have hbody := (Utf8.split_iff (b := []) (c := '"') (by decide)).2 ⟨utf8_escape h, Utf8.nil⟩
  exact (Utf8.cons_iff (by decide)).2 hbody

theorem isNumberChar_ascii {c : Char} (h : isNumberChar c = true) : c.toNat < 0x80 := by
  simp only [isNumberChar, Bool.or_eq_true, beq_iff_eq] at h
  rcases h with ((((hdigit | rfl) | rfl) | rfl) | rfl) | rfl
  · simp only [Binary64.isDigit, Bool.and_eq_true, decide_eq_true_eq] at hdigit
    have hhigh : c.toNat ≤ '9'.toNat := hdigit.2
    simp only [Char.reduceToNat] at hhigh
    omega
  all_goals decide

theorem utf8_printNumber (d : Binary64) : Utf8 (printNumber d) := by
  cases hinf : d.isInf with
  | true =>
    simp only [printNumber, hinf, if_true]
    exact utf8_word rfl
  | false =>
    obtain ⟨n, htext, -⟩ := printNumber_numeral hinf
    rw [← htext]
    exact Utf8.of_ascii fun c hc => isNumberChar_ascii (isNumberChar_numeral n c hc)

mutual

theorem utf8_printValue : ∀ j : Json, AllStrings Utf8String j → Utf8 (printValue j)
  | .null, _ => utf8_word rfl
  | .bool true, _ => utf8_word rfl
  | .bool false, _ => utf8_word rfl
  | .number d, _ => utf8_printNumber d
  | .string _, h => utf8_printString h
  | .array xs, h => by
    have hitems := utf8_printItems xs h
    exact (Utf8.cons_iff (by decide)).2 (hitems.append (Utf8.singleton (by decide)))
  | .object ms, h => by
    have hmembers := utf8_printMembers ms h
    exact (Utf8.cons_iff (by decide)).2 (hmembers.append (Utf8.singleton (by decide)))

theorem utf8_printItems : ∀ xs : List Json, AllItems Utf8String xs → Utf8 (printItems xs)
  | [], _ => Utf8.nil
  | x :: xs, h => by
    refine (utf8_printValue x h.1).append ?_
    split_ifs
    · exact Utf8.nil
    · exact (Utf8.cons_iff (by decide)).2 (utf8_printItems xs h.2)

theorem utf8_printMembers :
    ∀ ms : List (String × Json), AllMembers Utf8String ms → Utf8 (printMembers ms)
  | [], _ => Utf8.nil
  | (_, x) :: ms, h => by
    refine (utf8_printString h.1).append ((Utf8.cons_iff (by decide)).2 ?_)
    refine (utf8_printValue x h.2.1).append ?_
    split_ifs
    · exact Utf8.nil
    · exact (Utf8.cons_iff (by decide)).2 (utf8_printMembers ms h.2.2)

end

theorem Proper.nulFree {j : Json} (h : Proper j) : AllStrings NulFree j :=
  AllStrings.imp (fun _ hs => hs.1) h

theorem Proper.utf8 {j : Json} (h : Proper j) : AllStrings Utf8String j :=
  AllStrings.imp (fun _ hs => hs.2) h

/-- A tree of proper strings prints as a JSON text of its value. -/
theorem denotes_printValue {j : Json} (h : AllStrings Utf8String j) :
    Denotes (printValue j) (value j) := by
  obtain ⟨t, htext, -, hvalue, -⟩ := exists_tree j
  exact ⟨utf8_printValue j h, Blanks.none, Blanks.none, t, by simp [Blanks.none, htext], hvalue⟩

end encoding

end Nssf.Json
