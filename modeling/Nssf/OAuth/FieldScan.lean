import Nssf.Json.Reading
import Nssf.OAuth.Acquire

/-! The search of a token response for a quoted key, run over the tree that the text spells. It
knows neither nesting nor escapes: it stops at the first member, at any depth, whose name is spelled
as the key or ends in an escaped quote and the key. -/

namespace Nssf.OAuth

open Base JsonText Run

/-- The characters of the keys that are looked for. -/
def isKeyChar (c : Char) : Bool := c.isLower || c == '_'

structure IsKey (key : List Char) : Prop where
  nonempty : key ≠ []
  chars : ∀ c ∈ key, isKeyChar c = true

/-- The value text behind a name, its closing quote read. -/
def afterColon (more : List Char) : Option (List Char) :=
  match more.dropWhile isBlank with
  | ':' :: q => some (q.dropWhile isBlank)
  | _ => none

def Piece.isQuote : Piece → Bool
  | .short c _ _ => c == '"'
  | _ => false

/-- The spelling ends in an escaped quote and the key. -/
def escapedEnd (key : List Char) : List Piece → Bool
  | [] => false
  | p :: ps => (Piece.isQuote p && decide (piecesText ps = key)) || escapedEnd key ps

/-- A quote of the string, the opening one or an escaped one, has the key between it and the end. -/
def endsAsKey (key : List Char) (ps : List Piece) : Bool :=
  decide (piecesText ps = key) || escapedEnd key ps

section strings

variable {key more : List Char} {ps : List Piece}

theorem isKeyChar_ne {c d : Char} (h : isKeyChar c = true) (hd : isKeyChar d = false) : c ≠ d := by
  rintro rfl
  rw [h] at hd
  cases hd

theorem piecesText_cons (p : Piece) (ps : List Piece) :
    piecesText (p :: ps) = p.text ++ piecesText ps := rfl

/-- A key and a quote stand before the end of a string just when they are its rest. -/
theorem prefix_pieces_iff (hkey : ∀ c ∈ key, isKeyChar c = true) (ps : List Piece)
    (more : List Char) :
    key ++ ['"'] <+: piecesText ps ++ '"' :: more ↔ piecesText ps = key := by
  have hescape {ks : List Char} (hks : ∀ c ∈ ks, isKeyChar c = true) (cs ds : List Char) :
      ¬ks ++ ['"'] <+: '\\' :: cs ∧ '\\' :: ds ≠ ks := by
    cases ks with
    | nil => simp [List.cons_prefix_cons]
    | cons k ks =>
      have hk : k ≠ '\\' := isKeyChar_ne (hks k List.mem_cons_self) (by decide)
      refine ⟨fun h => hk (List.cons_prefix_cons.1 h).1, fun h => hk (List.cons.inj h).1.symm⟩
  induction ps generalizing key with
  | nil =>
    cases key with
    | nil => simp [piecesText, List.cons_prefix_cons]
    | cons k ks =>
      have hk : k ≠ '"' := isKeyChar_ne (hkey k List.mem_cons_self) (by decide)
      simp [piecesText, List.cons_prefix_cons, hk]
  | cons p ps ih =>
    rw [piecesText_cons]
    cases p with
    | raw c h =>
      have hc := (Json.isRaw_ne h).1
      cases key with
      | nil => simp [Piece.text, List.cons_prefix_cons, hc.symm]
      | cons k ks =>
        have hrest := ih fun d hd => hkey d (List.mem_cons_of_mem _ hd)
        simp only [Piece.text, List.cons_append, List.nil_append, List.cons_prefix_cons, hrest,
          List.cons.injEq, eq_comm]
    | short c out h => exact iff_of_false (hescape hkey _ []).1 (hescape hkey [] _).2
    | unit a b c d n h => exact iff_of_false (hescape hkey _ []).1 (hescape hkey [] _).2

theorem afterKey_pieces (hkey : IsKey key) (ps : List Piece) (more : List Char) :
    afterKey key (piecesText ps ++ '"' :: more) =
      if decide (piecesText ps = key) then afterColon more else none := by
  unfold afterKey
  by_cases h : piecesText ps = key
  · have hdrop : (key ++ '"' :: more).drop (key.length + 1) = more := by
      rw [← List.drop_drop, List.drop_left]
      rfl
    have hprefix := List.isPrefixOf_iff_prefix.2 ((prefix_pieces_iff hkey.chars ps more).2 h)
    rw [if_pos hprefix, if_pos (decide_eq_true h), h, hdrop]
    rfl
  · have hprefix : ¬(key ++ ['"']).isPrefixOf (piecesText ps ++ '"' :: more) = true := fun hp =>
      h ((prefix_pieces_iff hkey.chars ps more).1 (List.isPrefixOf_iff_prefix.1 hp))
    rw [if_neg hprefix, if_neg (by simpa using h)]

theorem findKey_cons {c : Char} (h : c ≠ '"') (cs : List Char) :
    findKey key (c :: cs) = findKey key cs := by
  rw [findKey, if_neg h]

theorem findKey_quote (key cs : List Char) :
    findKey key ('"' :: cs) = (afterKey key cs).or (findKey key cs) := by
  rw [findKey, if_pos rfl]
  cases afterKey key cs <;> rfl

theorem findKey_skip {a : List Char} (h : '"' ∉ a) (cs : List Char) :
    findKey key (a ++ cs) = findKey key cs := by
  induction a with
  | nil => rfl
  | cons c a ih =>
    rw [List.mem_cons, not_or] at h
    rw [List.cons_append, findKey_cons (Ne.symm h.1), ih h.2]

/-- The text behind a string: no key starts with it. -/
theorem afterKey_none (hkey : IsKey key) (h : ∀ c ∈ more.head?, isKeyChar c = false) :
    afterKey key more = none := by
  obtain ⟨k, ks, rfl⟩ := List.exists_cons_of_ne_nil hkey.nonempty
  unfold afterKey
  rw [if_neg]
  intro hprefix
  rw [List.isPrefixOf_iff_prefix] at hprefix
  cases more with
  | nil => simp at hprefix
  | cons c cs =>
    have hk := hkey.chars k List.mem_cons_self
    rw [(List.cons_prefix_cons.1 hprefix).1, h c rfl] at hk
    cases hk

theorem or_ite_or {α : Type} (p q : Bool) (x y : Option α) :
    (if p then x else none).or ((if q then x else none).or y) =
      (if p || q then x else none).or y := by
  cases p <;> cases q <;> cases x <;> rfl

theorem findKey_pieces (hkey : IsKey key) (hmore : ∀ c ∈ more.head?, isKeyChar c = false)
    (ps : List Piece) : findKey key (piecesText ps ++ '"' :: more) =
      (if escapedEnd key ps then afterColon more else none).or (findKey key more) := by
  induction ps with
  | nil =>
    have hshut := afterKey_none hkey hmore
    rw [piecesText, List.flatMap_nil, List.nil_append, findKey_quote, hshut]
    rfl
  | cons p ps ih =>
    rw [piecesText_cons, List.append_assoc]
    cases p with
    | raw c h =>
      rw [Piece.text, findKey_skip (by simpa using (Json.isRaw_ne h).1.symm), ih]
      rfl
    | short c out h =>
      have hback : '\\' ≠ '"' := by decide
      rw [Piece.text, List.cons_append, List.cons_append, List.nil_append, findKey_cons hback]
      by_cases hc : c = '"'
      · subst hc
        rw [findKey_quote, afterKey_pieces hkey, ih, or_ite_or]
        rfl
      · rw [findKey_cons hc, ih, escapedEnd, Piece.isQuote, beq_false_of_ne hc, Bool.false_and,
          Bool.false_or]
    | unit a b c d n h =>
      have hclean : '"' ∉ Piece.text (.unit a b c d n h) := by
        intro hmem
        rcases List.mem_cons.1 hmem with hq | hmem
        · cases hq
        · rcases List.mem_cons.1 hmem with hq | hmem
          · cases hq
          · exact (Json.hex4_ne h _ hmem).1 rfl
      rw [findKey_skip hclean, ih]
      rfl

/-- The scan of a string: it goes on behind it unless a quote of the string opens the key. -/
theorem findKey_string (hkey : IsKey key) (hmore : ∀ c ∈ more.head?, isKeyChar c = false)
    (ps : List Piece) : findKey key (stringText ps ++ more) =
      (if endsAsKey key ps then afterColon more else none).or (findKey key more) := by
  rw [stringText, List.cons_append, List.append_assoc, List.singleton_append, findKey_quote,
    afterKey_pieces hkey, findKey_pieces hkey hmore, or_ite_or]
  rfl

end strings

/-- The text behind a value: no colon follows, and neither a key nor a numeral goes on there. -/
structure Follows (rest : List Char) : Prop where
  noColon : afterColon rest = none
  noKey : ∀ c ∈ rest.head?, isKeyChar c = false
  noDigit : ∀ c ∈ rest.head?, Binary64.isDigit c = false

/-- What the search makes of a text in front of `rest`: it passes it, or it meets a member there
and stops in front of its value. -/
inductive Scans (key text rest : List Char) : Option Tree → Prop
  | passed (h : findKey key text = findKey key rest) : Scans key text rest none
  | met {v : Tree} {tail : List Char} (follows : Follows tail)
      (h : findKey key text = some (v.text ++ tail)) : Scans key text rest (some v)

mutual

/-- The first member, in the order of the text and at any depth, whose name ends as the key. -/
def seek (key : List Char) : Tree → Option Tree
  | .null => none
  | .bool _ => none
  | .number _ => none
  | .string _ => none
  | .array _ items => seekItems key items
  | .object _ members => seekMembers key members

def seekItems (key : List Char) : Items → Option Tree
  | .nil => none
  | .cons _ t _ rest => (seek key t).or (seekItems key rest)

def seekMembers (key : List Char) : Members → Option Tree
  | .nil => none
  | .cons _ name _ _ t _ rest =>
    if endsAsKey key name then some t else (seek key t).or (seekMembers key rest)

end

section trees

variable {key text mid rest : List Char}

theorem isBlank_blanks (w : Blanks) : ∀ c ∈ w.chars, isBlank c = true := w.blank

theorem blank_cases {c : Char} (h : isBlank c = true) :
    c = ' ' ∨ c = '\t' ∨ c = '\n' ∨ c = '\r' := by
  simpa [isBlank, or_assoc] using h

theorem afterColon_blanks (w : Blanks) (cs : List Char) :
    afterColon (w.chars ++ cs) = afterColon cs := by
  rw [afterColon, afterColon, List.dropWhile_append_of_pos (isBlank_blanks w)]

theorem dropWhile_text (w : Blanks) (t : Tree) (cs : List Char) :
    (w.chars ++ (t.text ++ cs)).dropWhile isBlank = t.text ++ cs := by
  rw [List.dropWhile_append_of_pos (isBlank_blanks w)]
  obtain ⟨c, r, hr, hc⟩ := t.text_head
  have hrange := (Json.startsValue_range hc).1
  rw [hr, List.cons_append, List.dropWhile_cons_of_neg]
  intro hblank
  rcases blank_cases hblank with rfl | rfl | rfl | rfl <;> simp at hrange

theorem follows_nil : Follows [] := ⟨rfl, by simp, by simp⟩

theorem follows_blanks (w : Blanks) (h : Follows rest) : Follows (w.chars ++ rest) where
  noColon := (afterColon_blanks w rest).trans h.noColon
  noKey := by
    cases hw : w.chars with
    | nil => exact h.noKey
    | cons b bs =>
      intro c hc
      cases hc
      have hblank := isBlank_blanks w b (hw ▸ List.mem_cons_self)
      rcases blank_cases hblank with rfl | rfl | rfl | rfl <;> rfl
  noDigit := by
    cases hw : w.chars with
    | nil => exact h.noDigit
    | cons b bs =>
      intro c hc
      cases hc
      have hblank := isBlank_blanks w b (hw ▸ List.mem_cons_self)
      rcases blank_cases hblank with rfl | rfl | rfl | rfl <;> rfl

theorem follows_mark {c : Char} (h : c ∈ [',', ']', '}']) (cs : List Char) : Follows (c :: cs) := by
  simp only [List.mem_cons, List.not_mem_nil, or_false] at h
  refine ⟨?_, ?_, ?_⟩
  · rcases h with rfl | rfl | rfl <;> rfl
  · intro d hd
    cases hd
    rcases h with rfl | rfl | rfl <;> rfl
  · intro d hd
    cases hd
    rcases h with rfl | rfl | rfl <;> rfl

theorem Scans.skip {o : Option Tree} (h : Scans key text rest o) {front : List Char}
    (hfront : '"' ∉ front) : Scans key (front ++ text) rest o := by
  have hsame : findKey key (front ++ text) = findKey key text := findKey_skip hfront text
  cases h with
  | passed h => exact .passed (hsame.trans h)
  | met follows h => exact .met follows (hsame.trans h)

theorem Scans.trans {o o' : Option Tree} (h : Scans key text mid o) (h' : Scans key mid rest o') :
    Scans key text rest (o.or o') := by
  cases h with
  | met follows h => exact .met follows h
  | passed h =>
    rw [Option.none_or]
    cases h' with
    | passed h' => exact .passed (h.trans h')
    | met follows h' => exact .met follows (h.trans h')

theorem scans_skip {front : List Char} (hfront : '"' ∉ front) (rest : List Char) :
    Scans key (front ++ rest) rest none :=
  .passed (findKey_skip hfront rest)

theorem notMem_blanks (w : Blanks) : '"' ∉ w.chars := by
  intro h
  have hblank := isBlank_blanks w _ h
  cases hblank

theorem notMem_numeral (n : Numeral) : '"' ∉ n.text := by
  intro h
  have hnumber := Json.isNumberChar_numeral n _ h
  cases hnumber

/-- A text that goes on with a separator or a closing bracket. -/
def Marked (cs : List Char) : Prop := ∃ c ∈ [',', ']', '}'], ∃ ds, cs = c :: ds

theorem Marked.follows {cs : List Char} (h : Marked cs) (after : Blanks) :
    Follows (after.chars ++ cs) := by
  obtain ⟨c, hc, ds, rfl⟩ := h
  exact follows_blanks after (follows_mark hc ds)

theorem marked_separated (h : Marked rest) (isNil : Bool) (cs : List Char) :
    Marked ((if isNil then [] else ',' :: cs) ++ rest) := by
  cases isNil with
  | true => exact h
  | false => exact ⟨',', by decide, _, rfl⟩

theorem scans_separated {isNil : Bool} {cs : List Char} {o : Option Tree} (after : Blanks)
    (hnil : isNil = true → cs = []) (h : Scans key (cs ++ rest) rest o) :
    Scans key (after.chars ++ ((if isNil then [] else ',' :: cs) ++ rest)) rest o := by
  apply Scans.skip _ (notMem_blanks after)
  cases isNil with
  | true =>
    rw [hnil rfl] at h
    exact h
  | false =>
    have hcomma : '"' ∉ [','] := by decide
    exact h.skip hcomma

theorem text_of_isNil_items {items : Items} (h : items.isNil = true) : items.text = [] := by
  cases items with
  | nil => rw [Items.text]
  | cons _ _ _ _ => cases h

theorem text_of_isNil_members {members : Members} (h : members.isNil = true) :
    members.text = [] := by
  cases members with
  | nil => rw [Members.text]
  | cons _ _ _ _ _ _ _ => cases h

/-- The search over an opening bracket, what stands in it, and the closing one. -/
theorem scans_bracketed {opening closing : Char} {cs : List Char} {o : Option Tree} (w : Blanks)
    (hopening : opening ≠ '"') (hclosing : closing ≠ '"')
    (h : Scans key (cs ++ closing :: rest) (closing :: rest) o) :
    Scans key (opening :: (w.chars ++ (cs ++ [closing])) ++ rest) rest o := by
  have hfirst : '"' ∉ [opening] := by simpa using hopening.symm
  have hlast : '"' ∉ [closing] := by simpa using hclosing.symm
  have hskip : Scans key ([closing] ++ rest) rest none := scans_skip hlast rest
  have hinside := h.trans hskip
  rw [Option.or_none] at hinside
  have hopen := (hinside.skip (notMem_blanks w)).skip hfirst
  simpa only [List.append_assoc, List.cons_append, List.nil_append] using hopen

/-- A member: it is met under its own name or else passed up to its value. -/
theorem scans_member (hkey : IsKey key) {name : List Piece} (mid before' : Blanks) (t : Tree)
    {cs : List Char} {o : Option Tree} (hcs : Follows cs) (h : Scans key (t.text ++ cs) rest o) :
    Scans key (stringText name ++ (mid.chars ++ ':' :: (before'.chars ++ (t.text ++ cs)))) rest
      (if endsAsKey key name then some t else o) := by
  have hmore : ∀ c ∈ (mid.chars ++ ':' :: (before'.chars ++ (t.text ++ cs))).head?,
      isKeyChar c = false := by
    cases hmid : mid.chars with
    | nil =>
      intro c hc
      cases hc
      rfl
    | cons b bs =>
      intro c hc
      cases hc
      have hblank := isBlank_blanks mid b (hmid ▸ List.mem_cons_self)
      rcases blank_cases hblank with rfl | rfl | rfl | rfl <;> rfl
  have hcolon : afterColon (mid.chars ++ ':' :: (before'.chars ++ (t.text ++ cs))) =
      some (t.text ++ cs) := by
    rw [afterColon_blanks]
    exact congrArg some (dropWhile_text before' t cs)
  have hname := findKey_string hkey hmore name
  rw [hcolon] at hname
  cases hends : endsAsKey key name with
  | true =>
    rw [hends, if_pos rfl, Option.some_or] at hname
    rw [if_pos rfl]
    exact .met hcs hname
  | false =>
    rw [hends, if_neg Bool.false_ne_true, Option.none_or] at hname
    rw [if_neg Bool.false_ne_true]
    have hmark : '"' ∉ [':'] := by decide
    have hvalue := ((h.skip (notMem_blanks before')).skip hmark).skip (notMem_blanks mid)
    cases hvalue with
    | passed hpassed => exact .passed (hname.trans hpassed)
    | met follows hmet => exact .met follows (hname.trans hmet)

mutual

theorem scans_tree (hkey : IsKey key) : ∀ (t : Tree) {rest : List Char}, Follows rest →
    Scans key (t.text ++ rest) rest (seek key t)
  | .null, rest, _ => by
    rw [Tree.text, seek]
    exact scans_skip (by decide) rest
  | .bool true, rest, _ => by
    rw [Tree.text, seek]
    exact scans_skip (by decide) rest
  | .bool false, rest, _ => by
    rw [Tree.text, seek]
    exact scans_skip (by decide) rest
  | .number n, rest, _ => by
    rw [Tree.text, seek]
    exact scans_skip (notMem_numeral n) rest
  | .string ps, rest, h => by
    rw [Tree.text, seek]
    have hstring := findKey_string hkey h.noKey ps
    rw [h.noColon, ite_self, Option.none_or] at hstring
    exact .passed hstring
  | .array w items, rest, _ => by
    rw [Tree.text, seek]
    exact scans_bracketed w (by decide) (by decide)
      (scans_items hkey items ⟨']', by decide, rest, rfl⟩)
  | .object w members, rest, _ => by
    rw [Tree.text, seek]
    exact scans_bracketed w (by decide) (by decide)
      (scans_members hkey members ⟨'}', by decide, rest, rfl⟩)

theorem scans_items (hkey : IsKey key) : ∀ (items : Items) {rest : List Char}, Marked rest →
    Scans key (items.text ++ rest) rest (seekItems key items)
  | .nil, rest, _ => by
    rw [Items.text, seekItems]
    exact .passed rfl
  | .cons before t after more, rest, h => by
    have hmore := scans_separated after text_of_isNil_items (scans_items hkey more h)
    have hfollows := (marked_separated h more.isNil more.text).follows after
    rw [Json.Items.text_cons, seekItems]
    exact ((scans_tree hkey t hfollows).trans hmore).skip (notMem_blanks before)

theorem scans_members (hkey : IsKey key) : ∀ (members : Members) {rest : List Char}, Marked rest →
    Scans key (members.text ++ rest) rest (seekMembers key members)
  | .nil, rest, _ => by
    rw [Members.text, seekMembers]
    exact .passed rfl
  | .cons before name mid before' t after more, rest, h => by
    have hmore := scans_separated after text_of_isNil_members (scans_members hkey more h)
    have hfollows := (marked_separated h more.isNil more.text).follows after
    rw [Json.Members.text_cons, seekMembers]
    exact (scans_member hkey mid before' t hfollows
      ((scans_tree hkey t hfollows).trans hmore)).skip (notMem_blanks before)

end

end trees

/-- The content of a string as it is spelled. -/
def spelled : Tree → Option (List Char)
  | .string ps => some (piecesText ps)
  | _ => none

/-- The digits in front of a fraction or an exponent, cut to the range of the C type. -/
def wholePart (n : Numeral) : ℤ :=
  let v : ℤ := Binary64.digitsVal n.whole.chars
  if n.neg then max (-v) (-2 ^ 63) else min v (2 ^ 63 - 1)

def leading : Tree → Option ℤ
  | .number n => some (wholePart n)
  | _ => none

section readings

variable {key tail : List Char}

theorem rawLiteral_plain {c : Char} (h : c ≠ '"' ∧ c ≠ '\\') (cs : List Char) :
    rawLiteral (c :: cs) = (rawLiteral cs).map (c :: ·) := by
  conv_lhs => unfold rawLiteral
  split
  · contradiction
  · rename_i heq
    exact absurd (List.cons.inj heq).1 h.1
  · rename_i heq
    exact absurd (List.cons.inj heq).1 h.2
  · rename_i heq
    obtain ⟨rfl, rfl⟩ := List.cons.inj heq
    rfl

theorem rawLiteral_plains {cs : List Char} (h : ∀ c ∈ cs, c ≠ '"' ∧ c ≠ '\\')
    (rest : List Char) : rawLiteral (cs ++ rest) = (rawLiteral rest).map (cs ++ ·) := by
  induction cs with
  | nil => simp
  | cons c cs ih =>
    have htail := ih fun x hx => h x (List.mem_cons_of_mem _ hx)
    rw [List.cons_append, rawLiteral_plain (h c List.mem_cons_self), htail, Option.map_map]
    rfl

theorem rawLiteral_piece (p : Piece) (rest : List Char) :
    rawLiteral (p.text ++ rest) = (rawLiteral rest).map (p.text ++ ·) := by
  cases p with
  | raw c h => exact rawLiteral_plain (Json.isRaw_ne h) rest
  | short c out h => rfl
  | unit a b c d n h =>
    have hplain := rawLiteral_plains (Json.hex4_ne h) rest
    change (rawLiteral ([a, b, c, d] ++ rest)).map _ = _
    rw [hplain, Option.map_map]
    rfl

theorem rawLiteral_pieces (ps : List Piece) (rest : List Char) :
    rawLiteral (piecesText ps ++ '"' :: rest) = some (piecesText ps) := by
  induction ps with
  | nil => rfl
  | cons p ps ih =>
    rw [piecesText_cons, List.append_assoc, rawLiteral_piece, ih]
    rfl

/-- The string literal that a value text starts with. -/
def literal? : List Char → Option (List Char)
  | '"' :: q => rawLiteral q
  | _ => none

theorem literal?_text (v : Tree) (tail : List Char) : literal? (v.text ++ tail) = spelled v := by
  cases v with
  | null => rw [Tree.text]; rfl
  | bool b => cases b <;> rw [Tree.text] <;> rfl
  | number n =>
    obtain ⟨c, cs, hcs, hc⟩ := n.text_head
    have hquote : c ≠ '"' := by
      rintro rfl
      rcases hc with hc | hc <;> cases hc
    rw [Tree.text, hcs, List.cons_append, literal?]
    · rfl
    · intro q hq
      exact hquote (List.cons.inj hq).1
  | string ps =>
    rw [Tree.text, stringText, List.cons_append, List.append_assoc]
    exact rawLiteral_pieces ps tail
  | array w items => rw [Tree.text]; rfl
  | object w members => rw [Tree.text]; rfl

theorem takeWhile_whole (n : Numeral) (h : Follows tail) :
    (n.unsignedText ++ tail).takeWhile Binary64.isDigit = n.whole.chars := by
  rw [Numeral.unsignedText, List.append_assoc]
  apply n.whole.takeWhile
  cases hrest : n.fracText ++ n.expText with
  | nil => exact h.noDigit
  | cons d ds =>
    intro c hc
    apply n.tail_head c
    rw [hrest]
    exact hc

theorem strtoll_number (n : Numeral) (h : Follows tail) :
    strtoll (n.text ++ tail) = some (wholePart n) := by
  have hwhole := takeWhile_whole n h
  have hnonempty : n.whole.chars.isEmpty = false := by simpa using n.whole.nonempty
  cases hneg : n.neg with
  | true =>
    have htext : n.text ++ tail = '-' :: (n.unsignedText ++ tail) := by
      simp [Numeral.text, hneg]
    have hspace : ('-' :: (n.unsignedText ++ tail)).dropWhile isSpace =
        '-' :: (n.unsignedText ++ tail) := rfl
    rw [htext, strtoll, hspace]
    simp only [hwhole, hnonempty, Bool.false_eq_true, if_false, wholePart, hneg, if_true]
  | false =>
    obtain ⟨c, cs, hcs, hc⟩ := n.whole.head
    have htext : n.text ++ tail = n.unsignedText ++ tail := by
      simp [Numeral.text, hneg]
    have hhead : n.unsignedText ++ tail = c :: (cs ++ (n.fracText ++ n.expText) ++ tail) := by
      rw [Numeral.unsignedText, hcs, List.cons_append, List.cons_append]
    have hne (d : Char) (hd : Binary64.isDigit d = false) : c ≠ d := by
      rintro rfl
      rw [hc] at hd
      cases hd
    have hspace : (n.unsignedText ++ tail).dropWhile isSpace = n.unsignedText ++ tail := by
      rw [hhead, List.dropWhile_cons_of_neg]
      simp [isSpace, isBlank, hne ' ' rfl, hne '\t' rfl, hne '\n' rfl, hne '\r' rfl,
        hne '\x0b' rfl, hne '\x0c' rfl]
    rw [htext, strtoll, hspace]
    split
    rename_i neg body heq
    split at heq
    · rename_i hminus
      exact absurd (List.cons.inj (hhead.symm.trans hminus)).1 (hne '-' rfl)
    · rename_i hplus
      exact absurd (List.cons.inj (hhead.symm.trans hplus)).1 (hne '+' rfl)
    · cases heq
      simp only [hwhole, hnonempty, Bool.false_eq_true, if_false, wholePart, hneg]

theorem strtoll_text (v : Tree) (h : Follows tail) : strtoll (v.text ++ tail) = leading v := by
  cases v with
  | null => rw [Tree.text]; rfl
  | bool b => cases b <;> rw [Tree.text] <;> rfl
  | number n =>
    rw [Tree.text]
    exact strtoll_number n h
  | string ps => rw [Tree.text, stringText]; rfl
  | array w items => rw [Tree.text]; rfl
  | object w members => rw [Tree.text]; rfl

variable {body field : String} {w w' : Blanks} {t : Tree}

theorem scans_body (hkey : IsKey key) (hbody : body.toList = w.chars ++ (t.text ++ w'.chars)) :
    Scans key body.toList [] (seek key t) := by
  have hfollows : Follows (w'.chars ++ []) := follows_blanks w' follows_nil
  have hafter : Scans key (w'.chars ++ []) [] none := scans_skip (notMem_blanks w') []
  rw [List.append_nil] at hfollows hafter
  have hscans := (scans_tree hkey t hfollows).trans hafter
  rw [Option.or_none] at hscans
  rw [hbody]
  exact hscans.skip (notMem_blanks w)

theorem jsonString?_body (hkey : IsKey field.toList)
    (hbody : body.toList = w.chars ++ (t.text ++ w'.chars)) :
    jsonString? body field =
      ((seek field.toList t).bind spelled).map String.ofList := by
  have hliteral : jsonString? body field =
      ((findKey field.toList body.toList).bind literal?).map String.ofList := by
    rw [jsonString?]
    rcases findKey field.toList body.toList with _ | _ | ⟨c, q⟩
    · rfl
    · rfl
    · by_cases hc : c = '"'
      · subst hc
        rfl
      · simp [literal?, hc]
  rw [hliteral]
  have hscans := scans_body hkey hbody
  generalize seek field.toList t = o at hscans
  cases hscans with
  | passed h => rw [h]; rfl
  | met follows h => rw [h, Option.bind_some, Option.bind_some, literal?_text]

theorem jsonGetNumber_body (hkey : IsKey key)
    (hbody : body.toList = w.chars ++ (t.text ++ w'.chars)) :
    jsonGetNumber body.toList key = (seek key t).bind leading := by
  rw [jsonGetNumber]
  have hscans := scans_body hkey hbody
  generalize seek key t = o at hscans
  cases hscans with
  | passed h => rw [h]; rfl
  | met follows h => rw [h, Option.bind_some, Option.bind_some, strtoll_text _ follows]

end readings

end Nssf.OAuth
