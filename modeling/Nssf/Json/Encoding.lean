import Nssf.Json.Limits
import Nssf.Json.Written

/-! Texts in UTF-8 and their strings. The strings of a tree are in UTF-8 if its text is, whether
the printer wrote the text or it came from outside. -/

namespace Nssf.Json

open Base JsonText

section strings

theorem utf8_append_ascii {a b : List Char} (ha : ∀ c ∈ a, c.toNat < 0x80) :
    Utf8 (a ++ b) ↔ Utf8 b := by
  induction a with
  | nil => rfl
  | cons c a ih =>
    rw [List.cons_append, Utf8.cons_iff (ha c List.mem_cons_self)]
    exact ih fun x hx => ha x (List.mem_cons_of_mem _ hx)

theorem exists_escape_ascii {c : Char} (h : c.toNat < 0x80) :
    ∃ x xs, escapeChar c = x :: xs ∧ x.toNat < 0x80 ∧ ∀ y ∈ xs, y.toNat < 0x80 := by
  obtain ⟨p, hp, -⟩ := exists_piece c
  have hall := escape_ascii h
  rw [Char.ofNat_toNat] at hall
  cases hx : escapeChar c with
  | nil => exact absurd (hp.trans hx) p.text_ne_nil
  | cons x xs =>
    rw [hx] at hall
    exact ⟨x, xs, rfl, hall x List.mem_cons_self, fun y hy => hall y (List.mem_cons_of_mem _ hy)⟩

/-- A byte from `0x80` on may go on from what stands before it, so that is kept with the rest. -/
theorem utf8_of_escape {cs before : List Char} (h : Utf8 (before ++ cs.flatMap escapeChar)) :
    Utf8 (before ++ cs) := by
  induction cs generalizing before with
  | nil => exact h
  | cons c cs ih =>
    rw [List.flatMap_cons] at h
    by_cases hascii : c.toNat < 0x80
    · obtain ⟨x, xs, hx, hfirst, hrest⟩ := exists_escape_ascii hascii
      rw [hx, List.cons_append] at h
      obtain ⟨hbefore, hafter⟩ := Utf8.split hfirst h
      have hcs := @ih [] ((utf8_append_ascii hrest).1 hafter)
      exact (Utf8.split_iff hascii).2 ⟨hbefore, hcs⟩
    · rw [escape_high (not_lt.1 hascii), ← List.append_assoc] at h
      have hcs := ih h
      rwa [List.append_assoc] at hcs

theorem shortEscape_ascii {c out : Char} (h : shortEscape? c = some out) :
    c.toNat < 0x80 ∧ out.toNat < 0x80 := by
  unfold shortEscape? at h
  split at h
  all_goals first
    | (cases h; done)
    | (obtain rfl := Option.some.inj h; decide)

theorem hexDigit_ascii {c : Char} {n : ℕ} (h : hexDigit? c = some n) : c.toNat < 0x80 ∧ n < 16 := by
  have hle {x y : Char} (hxy : x ≤ y) : x.toNat ≤ y.toNat := hxy
  unfold hexDigit? at h
  split_ifs at h with h₁ h₂ h₃
  · have hlow := hle h₁.1
    have hhigh := hle h₁.2
    have hn := Option.some.inj h
    simp only [Char.reduceToNat] at hlow hhigh hn
    omega
  · have hlow := hle h₂.1
    have hhigh := hle h₂.2
    have hn := Option.some.inj h
    simp only [Char.reduceToNat] at hlow hhigh hn
    omega
  · have hlow := hle h₃.1
    have hhigh := hle h₃.2
    have hn := Option.some.inj h
    simp only [Char.reduceToNat] at hlow hhigh hn
    omega

theorem hex4_ascii {a b c d : Char} {n : ℕ} (h : hex4? a b c d = some n) :
    (∀ x ∈ ['u', a, b, c, d], x.toNat < 0x80) ∧ n < 0x10000 := by
  simp only [hex4?, Option.bind_eq_bind, Option.bind_eq_some_iff, Option.pure_def,
    Option.some.injEq] at h
  obtain ⟨i, hi, j, hj, k, hk, l, hl, rfl⟩ := h
  obtain ⟨ha, hi⟩ := hexDigit_ascii hi
  obtain ⟨hb, hj⟩ := hexDigit_ascii hj
  obtain ⟨hc, hk⟩ := hexDigit_ascii hk
  obtain ⟨hd, hl⟩ := hexDigit_ascii hl
  refine ⟨?_, by omega⟩
  simp only [List.mem_cons, List.not_mem_nil, or_false, forall_eq_or_imp, forall_eq]
  exact ⟨by decide, ha, hb, hc, hd⟩

theorem utf8_codePoint {n : ℕ} (h : n.isValidChar) : Utf8 (utf8 n) := by
  have hchar := Utf8.char (Char.ofNat n)
  have hn : (Char.ofNat n).toNat = n := by
    have haux : Char.ofNat n = Char.ofNatAux n h := dif_pos h
    rw [haux]
    rfl
  rwa [hn] at hchar

theorem utf8_unit {n : ℕ} (hn : n < 0x10000) (hhigh : isHigh n = false) (hlow : isLow n = false) :
    Utf8 (utf8 n) := by
  have hh := of_decide_eq_false hhigh
  have hl := of_decide_eq_false hlow
  refine utf8_codePoint ?_
  simp only [Nat.isValidChar]
  omega

theorem utf8_pair {n m : ℕ} (hhigh : isHigh n = true) (hlow : isLow m = true) :
    Utf8 (utf8 (surrogatePair n m)) := by
  have hh := of_decide_eq_true hhigh
  have hl := of_decide_eq_true hlow
  refine utf8_codePoint ?_
  simp only [Nat.isValidChar, surrogatePair]
  omega

/-- What stands behind an escape of a text in UTF-8 is in UTF-8 again, and so is what stands
before it. -/
theorem utf8_behind_escape {before cs rest : List Char} (hcs : ∀ c ∈ cs, c.toNat < 0x80)
    (h : Utf8 (before ++ ('\\' :: (cs ++ rest)))) : Utf8 before ∧ Utf8 rest := by
  obtain ⟨hbefore, hafter⟩ := Utf8.split (by decide) h
  exact ⟨hbefore, (utf8_append_ascii hcs).1 hafter⟩

theorem utf8_decode (ps : List Piece) {before : List Char} (hpaired : paired ps = true)
    (h : Utf8 (before ++ piecesText ps)) : Utf8 (before ++ decode ps) := by
  induction ps using decode.induct generalizing before with
  | case1 => exact h
  | case2 c hc ps ih =>
    have hcons : before ++ piecesText (.raw c hc :: ps) = (before ++ [c]) ++ piecesText ps := by
      simp [piecesText, Piece.text]
    rw [hcons] at h
    have hps := ih hpaired h
    rwa [List.append_assoc] at hps
  | case3 c out hc ps ih =>
    obtain ⟨hascii, hout⟩ := shortEscape_ascii hc
    have hcs : ∀ x ∈ [c], x.toNat < 0x80 := by simpa using hascii
    obtain ⟨hbefore, hrest⟩ := utf8_behind_escape hcs h
    exact (Utf8.split_iff hout).2 ⟨hbefore, @ih [] hpaired hrest⟩
  | case4 a b c d n hex a' b' c' d' m hex' ps hboth ih =>
    obtain ⟨hascii, -⟩ := hex4_ascii hex
    obtain ⟨hascii', -⟩ := hex4_ascii hex'
    rw [paired, if_pos hboth] at hpaired
    rw [decode, if_pos hboth]
    rw [Bool.and_eq_true] at hboth
    obtain ⟨hbefore, hrest⟩ := utf8_behind_escape hascii h
    obtain ⟨-, hrest'⟩ := @utf8_behind_escape [] _ _ hascii' hrest
    exact hbefore.append ((utf8_pair hboth.1 hboth.2).append (@ih [] hpaired hrest'))
  | case5 a b c d n hex a' b' c' d' m hex' ps hnot ih =>
    obtain ⟨hascii, hn⟩ := hex4_ascii hex
    rw [paired, if_neg hnot, Bool.and_eq_true, Bool.not_eq_true', Bool.or_eq_false_iff] at hpaired
    rw [decode, if_neg hnot]
    obtain ⟨hbefore, hrest⟩ := utf8_behind_escape hascii h
    exact hbefore.append ((utf8_unit hn hpaired.1.1 hpaired.1.2).append (@ih [] hpaired.2 hrest))
  | case6 a b c d n hex ps hps ih =>
    obtain ⟨hascii, hn⟩ := hex4_ascii hex
    obtain ⟨hbefore, hrest⟩ := utf8_behind_escape hascii h
    have hpair : (!(isHigh n || isLow n) && paired ps) = true := by
      rw [← hpaired]
      cases ps with
      | nil => rfl
      | cons p ps =>
        cases p with
        | unit a' b' c' d' m hex' => exact absurd rfl (hps a' b' c' d' m hex' ps)
        | _ => rfl
    have hdecode : decode (.unit a b c d n hex :: ps) = utf8 n ++ decode ps := by
      cases ps with
      | nil => rfl
      | cons p ps =>
        cases p with
        | unit a' b' c' d' m hex' => exact absurd rfl (hps a' b' c' d' m hex' ps)
        | _ => rfl
    rw [Bool.and_eq_true, Bool.not_eq_true', Bool.or_eq_false_iff] at hpair
    rw [hdecode]
    exact hbefore.append ((utf8_unit hn hpair.1.1 hpair.1.2).append (@ih [] hpair.2 hrest))

end strings

section trees

/-- Two parts can be told apart where the second begins with a byte below `0x80`. -/
theorem utf8_append_iff {a b : List Char} (hb : ∀ c ∈ b.head?, c.toNat < 0x80) :
    Utf8 (a ++ b) ↔ Utf8 a ∧ Utf8 b := by
  cases b with
  | nil => simp [Utf8.nil]
  | cons c b =>
    have hc := hb c rfl
    rw [Utf8.split_iff hc, Utf8.cons_iff hc]

theorem blanks_ascii (w : Blanks) : ∀ c ∈ w.chars, c.toNat < 0x80 := by
  intro c hc
  have hblank := w.blank c hc
  simp only [isWs, Bool.or_eq_true, beq_iff_eq] at hblank
  rcases hblank with ((rfl | rfl) | rfl) | rfl
  all_goals decide

theorem utf8_blanks {w : Blanks} {cs : List Char} : Utf8 (w.chars ++ cs) ↔ Utf8 cs :=
  utf8_append_ascii (blanks_ascii w)

theorem head_blanks {w : Blanks} {cs : List Char} (h : ∀ c ∈ cs.head?, c.toNat < 0x80) :
    ∀ c ∈ (w.chars ++ cs).head?, c.toNat < 0x80 := by
  cases hw : w.chars with
  | nil => exact h
  | cons x xs =>
    intro c hc
    obtain rfl := Option.some.inj hc
    exact blanks_ascii w x (hw ▸ List.mem_cons_self)

theorem utf8_name {ps : List Piece} (hclean : cleanString ps) (h : Utf8 (stringText ps)) :
    Utf8String (String.ofList (decode ps)) := by
  have hbody := (Utf8.cons_iff (by decide)).1 h
  obtain ⟨hpieces, -⟩ := Utf8.split (by decide) hbody
  rw [Utf8String, String.toList_ofList]
  exact @utf8_decode ps [] hclean.1 hpieces

/-- The rest of a list behind one of its values. -/
theorem head_rest {w : Blanks} {cs : List Char} (b : Bool) :
    ∀ c ∈ (w.chars ++ if b then [] else ',' :: cs).head?, c.toNat < 0x80 := by
  refine head_blanks ?_
  cases b with
  | true => simp
  | false => simp

theorem utf8_rest {w : Blanks} {cs : List Char} {b : Bool} (hcs : b = true → cs = [])
    (h : Utf8 (w.chars ++ if b then [] else ',' :: cs)) : Utf8 cs := by
  rw [utf8_blanks] at h
  cases b with
  | true =>
    rw [hcs rfl]
    exact Utf8.nil
  | false => exact (Utf8.cons_iff (by decide)).1 h

theorem Items.text_of_isNil {items : Items} (h : items.isNil = true) : items.text = [] := by
  cases items with
  | nil => rfl
  | cons _ _ _ _ => cases h

theorem Members.text_of_isNil {members : Members} (h : members.isNil = true) :
    members.text = [] := by
  cases members with
  | nil => rfl
  | cons _ _ _ _ _ _ _ => cases h

mutual

/-- The strings that a text in UTF-8 spells are in UTF-8. -/
theorem utf8_node : ∀ {t : Tree}, t.AllStrings cleanString → Utf8 t.text →
    AllStrings Utf8String (Tree.node t)
  | .null, _, _ => trivial
  | .bool _, _, _ => trivial
  | .number _, _, _ => trivial
  | .string _, hclean, h => utf8_name hclean h
  | .array _ _, hclean, h => by
    have hinner := utf8_blanks.1 ((Utf8.cons_iff (by decide)).1 h)
    exact utf8_nodes hclean (Utf8.split (by decide) hinner).1
  | .object _ _, hclean, h => by
    have hinner := utf8_blanks.1 ((Utf8.cons_iff (by decide)).1 h)
    exact utf8_memberNodes hclean (Utf8.split (by decide) hinner).1

theorem utf8_nodes : ∀ {items : Items}, items.AllStrings cleanString → Utf8 items.text →
    AllItems Utf8String (Items.nodes items)
  | .nil, _, _ => trivial
  | .cons _ _ _ _, hclean, h => by
    have hinner := utf8_blanks.1 h
    obtain ⟨ht, hrest⟩ := (utf8_append_iff (head_rest _)).1 hinner
    exact ⟨utf8_node hclean.1 ht, utf8_nodes hclean.2 (utf8_rest Items.text_of_isNil hrest)⟩

theorem utf8_memberNodes : ∀ {members : Members}, members.AllStrings cleanString →
    Utf8 members.text → AllMembers Utf8String (Members.nodes members)
  | .nil, _, _ => trivial
  | .cons _ name mid before' t after rest, hclean, h => by
    have hinner := utf8_blanks.1 h
    have hhead : ∀ c ∈ (mid.chars ++ ':' :: (before'.chars ++ (t.text ++ (after.chars ++
        if rest.isNil then [] else ',' :: rest.text)))).head?, c.toNat < 0x80 := by
      refine head_blanks ?_
      simp
    obtain ⟨hname, hafter⟩ := (utf8_append_iff hhead).1 hinner
    have hvalue := utf8_blanks.1 ((Utf8.cons_iff (by decide)).1 (utf8_blanks.1 hafter))
    obtain ⟨ht, hrest⟩ := (utf8_append_iff (head_rest _)).1 hvalue
    exact ⟨utf8_name hclean.1 hname, utf8_node hclean.2.1 ht,
      utf8_memberNodes hclean.2.2 (utf8_rest Members.text_of_isNil hrest)⟩

end

end trees

section printed

theorem utf8_string_iff (s : String) : Utf8 (printString s) ↔ Utf8String s := by
  constructor
  · intro h
    have hbody := (Utf8.cons_iff (by decide)).1 h
    obtain ⟨hescaped, -⟩ := Utf8.split (by decide) hbody
    exact @utf8_of_escape s.toList [] hescaped
  · exact utf8_printString

theorem head_more {cs : List Char} (b : Bool) :
    ∀ c ∈ (if b then [] else ',' :: cs).head?, c.toNat < 0x80 := by
  cases b with
  | true => simp
  | false => simp

mutual

theorem utf8_of_printValue : ∀ {j : Json}, Utf8 (printValue j) → AllStrings Utf8String j
  | .null, _ => trivial
  | .bool _, _ => trivial
  | .number _, _ => trivial
  | .string s, h => (utf8_string_iff s).1 h
  | .array _, h => by
    have hinner := (Utf8.cons_iff (by decide)).1 h
    exact utf8_of_printItems (Utf8.split (by decide) hinner).1
  | .object _, h => by
    have hinner := (Utf8.cons_iff (by decide)).1 h
    exact utf8_of_printMembers (Utf8.split (by decide) hinner).1

theorem utf8_of_printItems : ∀ {xs : List Json}, Utf8 (printItems xs) → AllItems Utf8String xs
  | [], _ => trivial
  | x :: xs, h => by
    obtain ⟨hx, hrest⟩ := (utf8_append_iff (head_more _)).1 h
    refine ⟨utf8_of_printValue hx, ?_⟩
    cases xs with
    | nil => trivial
    | cons y ys => exact utf8_of_printItems ((Utf8.cons_iff (by decide)).1 hrest)

theorem utf8_of_printMembers : ∀ {ms : List (String × Json)}, Utf8 (printMembers ms) →
    AllMembers Utf8String ms
  | [], _ => trivial
  | (k, x) :: ms, h => by
    obtain ⟨hname, hafter⟩ := Utf8.split (by decide) h
    obtain ⟨hx, hrest⟩ := (utf8_append_iff (head_more _)).1 hafter
    refine ⟨(utf8_string_iff k).1 hname, utf8_of_printValue hx, ?_⟩
    cases ms with
    | nil => trivial
    | cons m ms => exact utf8_of_printMembers ((Utf8.cons_iff (by decide)).1 hrest)

end

/-- A printed tree is a JSON text just when its strings are in UTF-8. -/
theorem isText_printValue_iff {j : Json} : IsText (printValue j) ↔ AllStrings Utf8String j := by
  constructor
  · intro h
    obtain ⟨v, hutf8, -⟩ := h
    exact utf8_of_printValue hutf8
  · intro h
    exact ⟨_, denotes_printValue h⟩

end printed

end Nssf.Json
