import Nssf.Json.Reading

/-! The JSON texts that the parser reads as the value they denote. Inside an array or an object
a numeral that does not fit the buffer stops the parser; a text that is nothing but a numeral is
read from its first bytes alone. -/

namespace Nssf.Json

open Base JsonText

mutual

/-- The node of the value that a tree denotes, every number at its nearest double. -/
def Tree.node : Tree → Json
  | .null => .null
  | .bool b => .bool b
  | .number n => .number (Binary64.ofNumeral n)
  | .string ps => .string (String.ofList (decode ps))
  | .array _ items => .array (Items.nodes items)
  | .object _ members => .object (Members.nodes members)

def Items.nodes : Items → List Json
  | .nil => []
  | .cons _ t _ rest => Tree.node t :: Items.nodes rest

def Members.nodes : Members → List (String × Json)
  | .nil => []
  | .cons _ name _ _ t _ rest =>
    (String.ofList (decode name), Tree.node t) :: Members.nodes rest

end

/-- Every surrogate has its partner, and no escape stands for the zero byte. -/
def cleanString (ps : List Piece) : Prop := paired ps = true ∧ '\x00' ∉ decode ps

section reading

theorem readString_eq_iff (ps : List Piece) :
    readString ps = some (String.ofList (decode ps)) ↔ cleanString ps := by
  have hcut : cutAtNul (decode ps) = decode ps ↔ '\x00' ∉ decode ps := by
    rw [cutAtNul, List.takeWhile_eq_self_iff]
    constructor
    · intro h hmem
      simpa using h _ hmem
    · intro h c hc
      rw [bne_iff_ne]
      rintro rfl
      exact h hc
  unfold readString cleanString
  split_ifs with hpaired
  · rw [Option.some.injEq, String.ofList_inj, hcut]
    simp [hpaired]
  · simp [hpaired]

mutual

theorem toJson?_eq_node_iff : ∀ (t : Tree) (d : ℕ),
    Tree.toJson? d t = some (Tree.node t) ↔ t.depth ≤ d ∧ t.AllStrings cleanString
  | .null, d => by cases d <;> simp [Tree.toJson?, Tree.node, Tree.depth, Tree.AllStrings]
  | .bool _, d => by cases d <;> simp [Tree.toJson?, Tree.node, Tree.depth, Tree.AllStrings]
  | .number _, d => by cases d <;> simp [Tree.toJson?, Tree.node, Tree.depth, Tree.AllStrings]
  | .string ps, d => by
    have hread := readString_eq_iff ps
    cases d <;> simp [Tree.toJson?, Tree.node, Tree.depth, Tree.AllStrings, hread]
  | .array _ items, 0 => by simp [Tree.toJson?, Tree.depth]
  | .array _ items, d + 1 => by
    have hitems := toJson?_eq_nodes_iff items d
    simp [Tree.toJson?, Tree.node, Tree.depth, Tree.AllStrings, hitems]
  | .object _ members, 0 => by simp [Tree.toJson?, Tree.depth]
  | .object _ members, d + 1 => by
    have hmembers := toJson?_eq_members_iff members d
    simp [Tree.toJson?, Tree.node, Tree.depth, Tree.AllStrings, hmembers]

theorem toJson?_eq_nodes_iff : ∀ (items : Items) (d : ℕ),
    Items.toJson? d items = some (Items.nodes items) ↔
      items.depth ≤ d ∧ items.AllStrings cleanString
  | .nil, d => by simp [Items.toJson?, Items.nodes, Items.depth, Items.AllStrings]
  | .cons _ t _ rest, d => by
    have ht := toJson?_eq_node_iff t d
    have hrest := toJson?_eq_nodes_iff rest d
    simp only [Items.toJson?, Items.nodes, Items.depth, Items.AllStrings,
      Option.bind_eq_some_iff, Option.map_eq_some_iff, List.cons.injEq, Nat.max_le]
    constructor
    · intro h
      obtain ⟨v, hv, vs, hvs, rfl, rfl⟩ := h
      exact ⟨⟨(ht.1 hv).1, (hrest.1 hvs).1⟩, (ht.1 hv).2, (hrest.1 hvs).2⟩
    · intro h
      exact ⟨_, ht.2 ⟨h.1.1, h.2.1⟩, _, hrest.2 ⟨h.1.2, h.2.2⟩, rfl, rfl⟩

theorem toJson?_eq_members_iff : ∀ (members : Members) (d : ℕ),
    Members.toJson? d members = some (Members.nodes members) ↔
      members.depth ≤ d ∧ members.AllStrings cleanString
  | .nil, d => by simp [Members.toJson?, Members.nodes, Members.depth, Members.AllStrings]
  | .cons _ name _ _ t _ rest, d => by
    have hname := readString_eq_iff name
    have ht := toJson?_eq_node_iff t d
    have hrest := toJson?_eq_members_iff rest d
    simp only [Members.toJson?, Members.nodes, Members.depth, Members.AllStrings,
      Option.bind_eq_some_iff, Option.map_eq_some_iff, List.cons.injEq, Prod.mk.injEq,
      Nat.max_le]
    constructor
    · intro h
      obtain ⟨k, hk, v, hv, ms, hms, ⟨rfl, rfl⟩, rfl⟩ := h
      exact ⟨⟨(ht.1 hv).1, (hrest.1 hms).1⟩, hname.1 hk, (ht.1 hv).2, (hrest.1 hms).2⟩
    · intro h
      exact ⟨_, hname.2 h.2.1, _, ht.2 ⟨h.1.1, h.2.2.1⟩, _, hrest.2 ⟨h.1.2, h.2.2.2⟩,
        ⟨rfl, rfl⟩, rfl⟩

end

end reading

section long

variable {d : ℕ} {rest : List Char}

/-- What follows begins with a byte that no separator and no blank is. -/
def Stuck (cs : List Char) : Prop := ∃ c r, cs = c :: r ∧ isNumberChar c = true

theorem Stuck.skipWhitespace {cs : List Char} (h : Stuck cs) : Json.skipWhitespace cs = cs := by
  obtain ⟨c, r, rfl, hc⟩ := h
  apply skipWhitespace_cons
  have hlow : ∀ n ≤ 32, isNumberChar (Char.ofNat n) = false := by decide
  by_contra hle
  have hblank := hlow c.toNat (by omega)
  rw [Char.ofNat_toNat, hc] at hblank
  cases hblank

theorem Stuck.ne {cs : List Char} (h : Stuck cs) {c : Char} (hc : isNumberChar c = false)
    (r : List Char) : cs ≠ c :: r := by
  obtain ⟨x, xs, rfl, hx⟩ := h
  intro heq
  rw [(List.cons.inj heq).1, hc] at hx
  cases hx

theorem parseNumber_buffer (n : Numeral) (h : Stops rest) :
    ((n.text ++ rest).take 63).takeWhile isNumberChar = n.text.take 63 := by
  rw [List.take_append]
  apply takeWhile_append_stop
  · intro c hc
    exact isNumberChar_numeral n c (List.mem_of_mem_take hc)
  · intro c hc
    apply h c
    cases rest with
    | nil => simp at hc
    | cons x rest =>
      rw [List.head?_take] at hc
      split_ifs at hc
      · cases hc
      · exact hc

/-- A numeral that is too long is left in its middle. -/
theorem parseNumber_long {n : Numeral} (hn : ¬fitsBuffer n) (h : Stops rest) {j : Json}
    {r : List Char} (hread : parseNumber (n.text ++ rest) = some (j, r)) : Stuck r := by
  have hlen : 63 < n.text.length := by
    unfold fitsBuffer at hn
    omega
  unfold parseNumber at hread
  rw [parseNumber_buffer n h] at hread
  obtain ⟨⟨v, left⟩, -, hpair⟩ := Option.map_eq_some_iff.1 hread
  obtain ⟨-, rfl⟩ := Prod.mk.inj hpair
  have htake : (n.text.take 63).length - left.length < n.text.length := by
    rw [List.length_take]
    omega
  rw [List.drop_append_of_le_length htake.le]
  generalize (n.text.take 63).length - left.length = k at htake
  refine ⟨n.text[k], n.text.drop (k + 1) ++ rest, ?_, ?_⟩
  · rw [List.drop_eq_getElem_cons htake, List.cons_append]
  · exact isNumberChar_numeral n _ (List.getElem_mem htake)

theorem parseItems_stuck {value : List Char → Option (Json × List Char)} {cs : List Char}
    (h : ∀ j r, value (skipWhitespace cs) = some (j, r) → Stuck r) (n : ℕ) :
    parseItems value n cs = none := by
  cases n with
  | zero => rfl
  | succ n =>
    unfold parseItems
    cases hvalue : value (skipWhitespace cs) with
    | none => rfl
    | some p =>
      obtain ⟨j, r⟩ := p
      have hstuck := h j r hvalue
      simp only [Option.bind_eq_bind, Option.bind_some, hstuck.skipWhitespace]
      split
      · exact absurd rfl (hstuck.ne (isNumberChar_stop (by simp)) _)
      · exact absurd rfl (hstuck.ne (isNumberChar_stop (by simp)) _)
      · rfl

theorem stops_tail (after : Blanks) (sep : List Char) {c : Char}
    (hc : isNumberChar c = false) (isNil : Bool) :
    Stops (after.chars ++ ((if isNil then [] else ',' :: sep) ++ c :: rest)) := by
  cases isNil with
  | true => exact stops_blanks after hc rest
  | false => exact stops_blanks after rfl _

theorem parseItems_long_cons (before : Blanks) (t : Tree) (after : Blanks) (more : Items)
    (hlong : ¬t.AllNumerals fitsBuffer → ∀ {rest : List Char}, Stops rest → ∀ j r,
      parseValue d (t.text ++ rest) = some (j, r) → Stuck r)
    (hmore : ¬more.AllNumerals fitsBuffer →
      ∀ n, parseItems (parseValue d) n (more.text ++ ']' :: rest) = none)
    (h : ¬(Items.cons before t after more).AllNumerals fitsBuffer) (n : ℕ) :
    parseItems (parseValue d) n ((Items.cons before t after more).text ++ ']' :: rest) =
      none := by
  have hstop := @stops_tail rest after more.text ']' rfl more.isNil
  have hskip : skipWhitespace ((Items.cons before t after more).text ++ ']' :: rest) =
      t.text ++ (after.chars ++
        ((if more.isNil then [] else ',' :: more.text) ++ ']' :: rest)) := by
    rw [Items.text_cons, skipWhitespace_blanks, skipWhitespace_text]
  by_cases ht : t.AllNumerals fitsBuffer
  · have hrest : ¬more.AllNumerals fitsBuffer := fun hr => h ⟨ht, hr⟩
    cases n with
    | zero => rfl
    | succ n =>
      unfold parseItems
      rw [hskip, parseValue_text t ht hstop]
      cases Tree.toJson? d t with
      | none => rfl
      | some v =>
        cases hnil : more.isNil with
        | true =>
          cases more with
          | nil => exact absurd trivial hrest
          | cons b t' a more' => cases hnil
        | false =>
          have hcomma : skipWhitespace (after.chars ++ ',' :: (more.text ++ ']' :: rest)) =
              ',' :: (more.text ++ ']' :: rest) := by
            rw [skipWhitespace_blanks, skipWhitespace_cons (by decide)]
          simp only [Option.map_some, Option.bind_eq_bind, Option.bind_some, Bool.false_eq_true,
            if_false, List.cons_append, hcomma, hmore hrest n, Option.bind_none]
  · apply parseItems_stuck
    rw [hskip]
    exact hlong ht hstop

theorem parseArray_long (w : Blanks) (items : Items)
    (hitems : ∀ n, parseItems (parseValue d) n (items.text ++ ']' :: rest) = none)
    (h : ¬items.AllNumerals fitsBuffer) :
    parseArray (parseValue d) (w.chars ++ (items.text ++ ']' :: rest)) = none := by
  rw [parseArray, skipWhitespace_blanks]
  have hread := hitems
    ((skipWhitespace (items.text ++ ']' :: rest)).length + 1)
  rw [← parseItems_skip] at hread
  cases items with
  | nil => exact absurd trivial h
  | cons before t after more =>
    have hskip : skipWhitespace ((Items.cons before t after more).text ++ ']' :: rest) =
        t.text ++ (after.chars ++
          ((if more.isNil then [] else ',' :: more.text) ++ ']' :: rest)) := by
      rw [Items.text_cons, skipWhitespace_blanks, skipWhitespace_text]
    obtain ⟨c, cs, hcs, hc⟩ := t.text_head
    split
    · rename_i r heq
      rw [hskip, hcs] at heq
      exact absurd (List.cons.inj heq).1 (startsValue_range hc).2.1
    · rw [hread]
      rfl

theorem parseMembers_long_cons (before : Blanks) (name : List Piece) (mid before' : Blanks)
    (t : Tree) (after : Blanks) (more : Members)
    (hlong : ¬t.AllNumerals fitsBuffer → ∀ {rest : List Char}, Stops rest → ∀ j r,
      parseValue d (t.text ++ rest) = some (j, r) → Stuck r)
    (hmore : ¬more.AllNumerals fitsBuffer →
      ∀ n, parseMembers (parseValue d) n (more.text ++ '}' :: rest) = none)
    (h : ¬(Members.cons before name mid before' t after more).AllNumerals fitsBuffer) (n : ℕ) :
    parseMembers (parseValue d) n
      ((Members.cons before name mid before' t after more).text ++ '}' :: rest) = none := by
  have hstop := @stops_tail rest after more.text '}' rfl more.isNil
  have hcolon (cs : List Char) : skipWhitespace (mid.chars ++ ':' :: cs) = ':' :: cs := by
    rw [skipWhitespace_blanks, skipWhitespace_cons (by decide)]
  cases n with
  | zero => rfl
  | succ n =>
    rw [Members.text_cons, parseMembers, skipWhitespace_blanks, skipWhitespace_name,
      parseString_text]
    cases readString name with
    | none => rfl
    | some k =>
      simp only [Option.map_some, Option.bind_eq_bind, Option.bind_some, hcolon,
        skipWhitespace_blanks, skipWhitespace_text]
      by_cases ht : t.AllNumerals fitsBuffer
      · have hrest : ¬more.AllNumerals fitsBuffer := fun hr => h ⟨ht, hr⟩
        rw [parseValue_text t ht hstop]
        cases Tree.toJson? d t with
        | none => rfl
        | some v =>
          cases hnil : more.isNil with
          | true =>
            cases more with
            | nil => exact absurd trivial hrest
            | cons b k' m b' t' a more' => cases hnil
          | false =>
            have hcomma : skipWhitespace (after.chars ++ ',' :: (more.text ++ '}' :: rest)) =
                ',' :: (more.text ++ '}' :: rest) := by
              rw [skipWhitespace_blanks, skipWhitespace_cons (by decide)]
            simp only [Option.map_some, Option.bind_some, Bool.false_eq_true, if_false,
              List.cons_append, hcomma, hmore hrest n, Option.bind_none]
      · cases hvalue : parseValue d (t.text ++ (after.chars ++
            ((if more.isNil then [] else ',' :: more.text) ++ '}' :: rest))) with
        | none => rfl
        | some p =>
          obtain ⟨j, r⟩ := p
          have hstuck := hlong ht hstop j r hvalue
          simp only [Option.bind_some, hstuck.skipWhitespace]
          split
          · exact absurd rfl (hstuck.ne (isNumberChar_stop (by simp)) _)
          · exact absurd rfl (hstuck.ne (isNumberChar_stop (by simp)) _)
          · rfl

theorem parseObject_long (w : Blanks) (members : Members)
    (hmembers : ∀ n, parseMembers (parseValue d) n (members.text ++ '}' :: rest) = none)
    (h : ¬members.AllNumerals fitsBuffer) :
    parseObject (parseValue d) (w.chars ++ (members.text ++ '}' :: rest)) = none := by
  rw [parseObject, skipWhitespace_blanks]
  have hread := hmembers
    ((skipWhitespace (members.text ++ '}' :: rest)).length + 1)
  rw [← parseMembers_skip] at hread
  cases members with
  | nil => exact absurd trivial h
  | cons before name mid before' t after more =>
    have hskip : skipWhitespace
        ((Members.cons before name mid before' t after more).text ++ '}' :: rest) =
          stringText name ++ (mid.chars ++ ':' :: (before'.chars ++ (t.text ++ (after.chars ++
            ((if more.isNil then [] else ',' :: more.text) ++ '}' :: rest))))) := by
      rw [Members.text_cons, skipWhitespace_blanks, skipWhitespace_name]
    split
    · rename_i r heq
      rw [hskip] at heq
      cases heq
    · rw [hread]
      rfl

theorem parseValue_array (d : ℕ) (w : Blanks) (items : Items) (rest : List Char) :
    parseValue (d + 1) ((Tree.array w items).text ++ rest) =
      parseArray (parseValue d) (w.chars ++ (items.text ++ ']' :: rest)) := by
  have htext : (Tree.array w items).text ++ rest =
      '[' :: (w.chars ++ (items.text ++ ']' :: rest)) := by
    simp [Tree.text]
  rw [htext]
  rfl

theorem parseValue_object (d : ℕ) (w : Blanks) (members : Members) (rest : List Char) :
    parseValue (d + 1) ((Tree.object w members).text ++ rest) =
      parseObject (parseValue d) (w.chars ++ (members.text ++ '}' :: rest)) := by
  have htext : (Tree.object w members).text ++ rest =
      '{' :: (w.chars ++ (members.text ++ '}' :: rest)) := by
    simp [Tree.text]
  rw [htext]
  rfl

mutual

/-- The parser gets no further than the numeral that is too long. -/
theorem parseValue_long : ∀ (t : Tree) (d : ℕ), ¬t.AllNumerals fitsBuffer →
    ∀ {rest : List Char}, Stops rest → ∀ j r,
      parseValue d (t.text ++ rest) = some (j, r) → Stuck r
  | .null, _, h, _, _, _, _, _ => absurd trivial h
  | .bool _, _, h, _, _, _, _, _ => absurd trivial h
  | .string _, _, h, _, _, _, _, _ => absurd trivial h
  | .number n, d, h, rest, hstop, j, r, hread => by
    obtain ⟨c, cs, hcs, hc⟩ := n.text_head
    have hnumber : parseValue d (n.text ++ rest) = parseNumber (n.text ++ rest) := by
      rw [hcs]
      exact parseValue_number d hc _
    rw [Tree.text, hnumber] at hread
    exact parseNumber_long h hstop hread
  | .array w items, 0, _, _, _, j, r, hread => by cases hread
  | .array w items, d + 1, h, rest, _, j, r, hread => by
    rw [parseValue_array, parseArray_long w items (parseItems_long items d h) h] at hread
    cases hread
  | .object w members, 0, _, _, _, j, r, hread => by cases hread
  | .object w members, d + 1, h, rest, _, j, r, hread => by
    rw [parseValue_object, parseObject_long w members (parseMembers_long members d h) h] at hread
    cases hread

theorem parseItems_long : ∀ (items : Items) (d : ℕ), ¬items.AllNumerals fitsBuffer →
    ∀ {rest : List Char} (n : ℕ),
      parseItems (parseValue d) n (items.text ++ ']' :: rest) = none
  | .nil, _, h, _, _ => absurd trivial h
  | .cons before t after more, d, h, _, n =>
    parseItems_long_cons before t after more (fun ht => parseValue_long t d ht)
      (fun hmore => parseItems_long more d hmore) h n

theorem parseMembers_long : ∀ (members : Members) (d : ℕ), ¬members.AllNumerals fitsBuffer →
    ∀ {rest : List Char} (n : ℕ),
      parseMembers (parseValue d) n (members.text ++ '}' :: rest) = none
  | .nil, _, h, _, _ => absurd trivial h
  | .cons before name mid before' t after more, d, h, _, n =>
    parseMembers_long_cons before name mid before' t after more
      (fun ht => parseValue_long t d ht) (fun hmore => parseMembers_long more d hmore) h n

end

end long

section whole

/-- What the parser asks of a text: no deeper than its limit, every numeral within its buffer,
and no string that it refuses or cuts. A numeral alone may be longer, as long as the digits it
loses do not change its double. -/
def Tree.WithinLimits : Tree → Prop
  | .number n =>
    (Binary64.strtod (n.text.take 63)).map Prod.fst = some (Binary64.ofNumeral n)
  | t => t.depth ≤ nestingLimit ∧ t.AllStrings cleanString ∧ t.AllNumerals fitsBuffer

variable {s : String} {w w' : Blanks} {t : Tree}

theorem parseText_eq (hs : s.toList = w.chars ++ (t.text ++ w'.chars)) :
    parseText s = (parseValue nestingLimit (t.text ++ w'.chars)).map Prod.fst := by
  rw [parseText, hs, skipUtf8Bom_text, skipWhitespace_blanks, skipWhitespace_text]

theorem parseText_number {n : Numeral} (hs : s.toList = w.chars ++ (n.text ++ w'.chars)) :
    parseText s = (Binary64.strtod (n.text.take 63)).map fun r => .number r.1 := by
  have htext := @parseText_eq s w w' (.number n) hs
  obtain ⟨c, cs, hcs, hc⟩ := n.text_head
  have hnumber : parseValue nestingLimit (n.text ++ w'.chars) =
      parseNumber (n.text ++ w'.chars) := by
    rw [hcs]
    exact parseValue_number _ hc _
  rw [htext, Tree.text, hnumber]
  unfold parseNumber
  rw [parseNumber_buffer n (stops_of_blanks w'), Option.map_map]
  rfl

/-- With a numeral too long for the buffer in it a composite text is refused. -/
theorem parseText_long (hs : s.toList = w.chars ++ (t.text ++ w'.chars))
    (hcomposite : ∀ n, t ≠ .number n) (h : ¬t.AllNumerals fitsBuffer) : parseText s = none := by
  rw [parseText_eq hs]
  cases t with
  | number n => exact absurd rfl (hcomposite n)
  | array v items =>
    rw [nestingLimit, parseValue_array, parseArray_long v items (parseItems_long items _ h) h]
    rfl
  | object v members =>
    rw [nestingLimit, parseValue_object,
      parseObject_long v members (parseMembers_long members _ h) h]
    rfl
  | _ => exact absurd trivial h

theorem parseText_eq_node_iff (hs : s.toList = w.chars ++ (t.text ++ w'.chars)) :
    parseText s = some (Tree.node t) ↔ Tree.WithinLimits t := by
  have hcomposite (hne : ∀ n, t ≠ .number n) : parseText s = some (Tree.node t) ↔
      t.depth ≤ nestingLimit ∧ t.AllStrings cleanString ∧ t.AllNumerals fitsBuffer := by
    by_cases hfits : t.AllNumerals fitsBuffer
    · rw [parseText_text hfits hs, toJson?_eq_node_iff]
      simp [hfits]
    · rw [parseText_long hs hne hfits]
      simp [hfits]
  cases t with
  | number n =>
    rw [parseText_number hs, Tree.node, Tree.WithinLimits]
    cases Binary64.strtod (n.text.take 63) with
    | none => simp
    | some r => simp
  | null => exact hcomposite fun n h => by cases h
  | bool b => exact hcomposite fun n h => by cases h
  | string ps => exact hcomposite fun n h => by cases h
  | array v items => exact hcomposite fun n h => by cases h
  | object v members => exact hcomposite fun n h => by cases h

end whole

section lengths

theorem length_utf8_le (n : ℕ) : (utf8 n).length ≤ 4 := by
  unfold utf8
  split_ifs <;> simp

theorem length_decode_le (ps : List Piece) : (decode ps).length ≤ (piecesText ps).length := by
  have hcons (p : Piece) (ps : List Piece) :
      (piecesText (p :: ps)).length = p.text.length + (piecesText ps).length := by
    rw [piecesText, List.flatMap_cons, List.length_append]
    rfl
  fun_induction decode ps with
  | case1 => exact Nat.le_refl _
  | case2 ps c h ih =>
    rw [hcons, List.length_cons, Piece.text, List.length_singleton]
    omega
  | case3 ps c out h ih =>
    rw [hcons, List.length_cons, Piece.text, List.length_cons]
    omega
  | case4 a b c d n h a' b' c' d' m h' ps hpair ih =>
    have hlen := length_utf8_le (surrogatePair n m)
    rw [hcons, hcons]
    simp only [hpair, if_true, Piece.text, List.length_append, List.length_cons, List.length_nil]
    omega
  | case5 a b c d n h a' b' c' d' m h' ps hpair ih =>
    have hlen := length_utf8_le n
    rw [hcons]
    simp only [hpair, if_false, Bool.false_eq_true, Piece.text, List.length_append,
      List.length_cons, List.length_nil]
    omega
  | case6 a b c d n h ps hnext ih =>
    have hlen := length_utf8_le n
    rw [hcons, List.length_append]
    simp only [Piece.text, List.length_cons, List.length_nil]
    omega

theorem length_utf16_le {k : ℕ} {cs out rest : List Char}
    (h : utf16LiteralToUtf8 k cs = some (out, rest)) :
    out.length + rest.length ≤ cs.length + 4 := by
  have hbytes (m : ℕ) : (utf8Bytes m).length ≤ 4 := length_utf8_le m
  unfold utf16LiteralToUtf8 at h
  split_ifs at h
  · split at h
    · rename_i a b c d rest
      dsimp only at h
      split_ifs at h
      cases h
      have hlen := hbytes (0x10000 + (k % 0x400) * 0x400 + parseHex4 a b c d % 0x400)
      simp only [List.length_cons]
      omega
    · cases h
  · cases h
    have hlen := hbytes k
    omega

theorem length_unescape_le (n : ℕ) (cs : List Char) {out : List Char}
    (h : unescape n cs = some out) : out.length ≤ cs.length := by
  fun_induction unescape n cs generalizing out with
  | case1 => simp_all
  | case2 => simp_all
  | case3 n a b c d rest ih =>
    obtain ⟨⟨o, r⟩, hunit, h⟩ := Option.bind_eq_some_iff.1 h
    obtain ⟨tail, htail, h⟩ := Option.bind_eq_some_iff.1 h
    cases h
    have hlen := length_utf16_le hunit
    have hrest := ih r htail
    simp only [List.length_append, List.length_cons]
    omega
  | case4 n rest step hx | case5 n rest step hx | case6 n rest step hx | case7 n rest step hx
  | case8 n rest step hx | case9 n rest step hx | case10 n rest step hx | case11 n rest step hx =>
    rename_i ih
    obtain ⟨c, -, h⟩ := Option.bind_eq_some_iff.1 h
    obtain ⟨tail, htail, h⟩ := Option.bind_eq_some_iff.1 h
    cases h
    have hrest := ih htail
    simp only [List.length_cons]
    omega
  | case12 => cases h
  | case13 =>
    cases h
    exact Nat.le_refl _
  | case14 n c rest hu hx hlast ih =>
    obtain ⟨tail, htail, rfl⟩ := Option.map_eq_some_iff.1 h
    have hrest := ih htail
    simp only [List.length_cons]
    omega

theorem length_scanLiteral (cs : List Char) {body rest : List Char}
    (h : scanLiteral cs = some (body, rest)) : body.length < cs.length := by
  fun_induction scanLiteral cs generalizing body rest with
  | case1 => cases h
  | case2 rest' =>
    cases h
    simp
  | case3 c rest' ih =>
    obtain ⟨⟨b, r⟩, hscan, h⟩ := Option.map_eq_some_iff.1 h
    cases h
    have hrest := ih hscan
    simp only [List.length_cons]
    omega
  | case4 c rest' hx hy ih =>
    obtain ⟨⟨b, r⟩, hscan, h⟩ := Option.map_eq_some_iff.1 h
    cases h
    have hrest := ih hscan
    simp only [List.length_cons]
    omega

theorem length_parseString {cs rest : List Char} {s : String}
    (h : parseString cs = some (s, rest)) : s.length < cs.length := by
  unfold parseString at h
  split at h
  · obtain ⟨⟨body, r⟩, hscan, h⟩ := Option.bind_eq_some_iff.1 h
    obtain ⟨out, hout, h⟩ := Option.bind_eq_some_iff.1 h
    cases h
    have hbody := length_scanLiteral _ hscan
    have hlen := length_unescape_le _ _ hout
    have hcut : (cutAtNul out).length ≤ out.length := (List.takeWhile_prefix _).length_le
    rw [String.length_ofList, List.length_cons]
    omega
  · cases h

theorem parseValue_eq_string {d : ℕ} {cs rest : List Char} {s : String}
    (h : parseValue d cs = some (.string s, rest)) : parseString cs = some (s, rest) := by
  unfold parseValue at h
  split at h
  · cases h
  · cases h
  · cases h
  · obtain ⟨⟨s', r⟩, hread, hpair⟩ := Option.map_eq_some_iff.1 h
    cases hpair
    exact hread
  · unfold parseArray at h
    split at h
    · cases h
    · obtain ⟨p, -, hpair⟩ := Option.map_eq_some_iff.1 h
      cases hpair
  · unfold parseObject at h
    split at h
    · cases h
    · obtain ⟨p, -, hpair⟩ := Option.map_eq_some_iff.1 h
      cases hpair
  · split_ifs at h
    obtain ⟨p, -, hpair⟩ := Option.map_eq_some_iff.1 h
    cases hpair
  · cases h

/-- A string that is read is shorter than its text. -/
theorem length_of_parseText_string {v s : String} (h : parseText v = some (.string s)) :
    s.length < v.length := by
  obtain ⟨⟨j, r⟩, hvalue, hj⟩ := Option.map_eq_some_iff.1 h
  have hskip : (skipWhitespace (skipUtf8Bom v.toList)).length ≤ v.length := by
    have hbom : (skipUtf8Bom v.toList).length ≤ v.toList.length := by
      unfold skipUtf8Bom
      split
      · rename_i heq
        rw [heq]
        simp only [List.length_cons]
        omega
      · exact Nat.le_refl _
    exact (List.length_dropWhile_le _ _).trans (hbom.trans_eq String.length_toList)
  generalize skipWhitespace (skipUtf8Bom v.toList) = cs at hvalue hskip
  have hj : j = .string s := hj
  rw [hj] at hvalue
  have hlen := length_parseString (parseValue_eq_string hvalue)
  omega

end lengths

section fallback

/-- The tree is that of the whole text. -/
def TreeOf (t : Tree) (v : String) : Prop :=
  Utf8 v.toList ∧ ∃ w w' : Blanks, v.toList = w.chars ++ (t.text ++ w'.chars)

theorem isText_iff (v : String) : IsText v.toList ↔ ∃ t, TreeOf t v := by
  constructor
  · intro h
    obtain ⟨x, hutf8, w, w', t, hs, -⟩ := h
    exact ⟨t, hutf8, w, w', hs⟩
  · intro h
    obtain ⟨t, hutf8, w, w', hs⟩ := h
    exact ⟨t.value, hutf8, w, w', t, hs, rfl⟩

/-- The node of a value that may be JSON: what it denotes as a whole, or else the string. -/
def Conveys (v : String) (j : Json) : Prop :=
  (∃ t, TreeOf t v ∧ j = Tree.node t) ∨ (¬IsText v.toList ∧ j = .string v)

theorem node_ne_string {v : String} {t : Tree} (h : TreeOf t v) : Tree.node t ≠ .string v := by
  obtain ⟨-, w, w', hs⟩ := h
  intro heq
  cases t with
  | string ps =>
    rw [Tree.node] at heq
    have hlen := length_decode_le ps
    have hv : v.toList = decode ps := by
      rw [← Json.string.inj heq, String.toList_ofList]
    have hcount := congrArg List.length (hv.symm.trans hs)
    simp only [Tree.text, stringText, List.length_append, List.length_cons,
      List.length_nil] at hcount
    omega
  | _ => cases heq

/-- Parsing with the string to fall back to is right about a text within the limits, and about
one that is no JSON and is refused. -/
theorem conveys_parse_iff (v : String) : Conveys v ((parseText v).getD (.string v)) ↔
    (∃ t, TreeOf t v ∧ Tree.WithinLimits t) ∨ (¬IsText v.toList ∧ parseText v = none) := by
  constructor
  · intro h
    rcases h with ⟨t, ht, hnode⟩ | ⟨hno, hstring⟩
    · obtain ⟨w, w', hs⟩ := ht.2
      refine Or.inl ⟨t, ht, (parseText_eq_node_iff hs).1 ?_⟩
      cases hread : parseText v with
      | none =>
        rw [hread] at hnode
        exact absurd hnode.symm (node_ne_string ht)
      | some j =>
        rw [hread] at hnode
        rw [← hnode]
        rfl
    · refine Or.inr ⟨hno, ?_⟩
      cases hread : parseText v with
      | none => rfl
      | some j =>
        rw [hread] at hstring
        have hj : j = .string v := hstring
        rw [hj] at hread
        have hlen := length_of_parseText_string hread
        omega
  · intro h
    rcases h with ⟨t, ht, hlimits⟩ | ⟨hno, hread⟩
    · obtain ⟨w, w', hs⟩ := ht.2
      refine Or.inl ⟨t, ht, ?_⟩
      rw [(parseText_eq_node_iff hs).2 hlimits]
      rfl
    · refine Or.inr ⟨hno, ?_⟩
      rw [hread]
      rfl

end fallback

end Nssf.Json
