import Nssf.Base.Uri
import Nssf.Json.Limits
import Nssf.Server.Outcome

/-! What the selection is asked with. A query whose pairs are form-encoded comes apart into these
pairs, and each known parameter becomes a member; whether the member is the JSON value or the
string is left to a parser that is content with the beginning of a text. -/

namespace Nssf

open Base Run Json

section encoding

/-- The text is an encoding of the bytes: what is not unreserved is escaped, and a space may be
written as a plus. -/
inductive Encodes : List Char → List Char → Prop
  | nil : Encodes [] []
  | plain {c : Char} {cs text : List Char} (hc : Uri.isUnreserved c = true) (rest : Encodes cs text) :
      Encodes (c :: cs) (c :: text)
  | plus {cs text : List Char} (rest : Encodes cs text) : Encodes (' ' :: cs) ('+' :: text)
  | escaped {c hi lo : Char} {h l : ℕ} {cs text : List Char} (hc : Uri.isUnreserved c = false)
      (hhi : hexVal hi = some h) (hlo : hexVal lo = some l) (hbyte : c.toNat = h * 16 + l)
      (rest : Encodes cs text) : Encodes (c :: cs) ('%' :: hi :: lo :: text)

variable {cs text : List Char}

theorem percentDecode_of_encodes (h : Encodes cs text) : percentDecode text = cs := by
  induction h with
  | nil => rfl
  | @plain c cs text hc rest ih =>
    have hplus : c ≠ '+' := by
      rintro rfl
      cases hc
    have hpercent : c ≠ '%' := by
      rintro rfl
      cases hc
    have hstep : percentDecode (c :: text) = c :: percentDecode text := by
      rw [percentDecode]
      · exact fun h => hplus h
      · intro hi lo rest h
        exact absurd h hpercent
    rw [hstep, ih]
  | plus rest ih => rw [percentDecode, ih]
  | @escaped c hi lo h l cs text hc hhi hlo hbyte rest ih =>
    rw [percentDecode, hhi, hlo]
    simp only [ih, ← hbyte, Char.ofNat_toNat]

/-- The separators of a query are no part of an encoding. -/
theorem Encodes.not_mem (h : Encodes cs text) {sep : Char} (hsep : Uri.isUnreserved sep = false)
    (hplus : sep ≠ '+') (hpercent : sep ≠ '%') (hhex : hexVal sep = none) : sep ∉ text := by
  induction h with
  | nil => exact List.not_mem_nil
  | plain hc rest ih =>
    refine List.not_mem_cons_of_ne_of_not_mem ?_ ih
    rintro rfl
    rw [hsep] at hc
    cases hc
  | plus rest ih => exact List.not_mem_cons_of_ne_of_not_mem hplus ih
  | escaped hc hhi hlo hbyte rest ih =>
    refine List.not_mem_cons_of_ne_of_not_mem hpercent ?_
    refine List.not_mem_cons_of_ne_of_not_mem ?_ (List.not_mem_cons_of_ne_of_not_mem ?_ ih)
    · rintro rfl
      rw [hhex] at hhi
      cases hhi
    · rintro rfl
      rw [hhex] at hlo
      cases hlo

/-- Unreserved bytes are written as they are. -/
theorem Encodes.eq_of_unreserved (h : Encodes cs text)
    (hu : cs.all Uri.isUnreserved = true ∨ text.all Uri.isUnreserved = true) : text = cs := by
  induction h with
  | nil => rfl
  | plain hc rest ih =>
    simp only [List.all_cons, hc, Bool.true_and] at hu
    rw [ih hu]
  | plus rest ih =>
    rcases hu with hu | hu
    · cases (Bool.and_eq_true_iff.1 hu).1
    · cases (Bool.and_eq_true_iff.1 hu).1
  | escaped hc hhi hlo hbyte rest ih =>
    rcases hu with hu | hu
    · have hfirst := (Bool.and_eq_true_iff.1 hu).1
      rw [hc] at hfirst
      cases hfirst
    · cases (Bool.and_eq_true_iff.1 hu).1

end encoding

section pairs

/-- A name and a value, as bytes or as they stand in the query. -/
abbrev QueryPair := List Char × List Char

def pairText (t : QueryPair) : List Char := t.1 ++ '=' :: t.2

def EncodesQuery (pairs : List QueryPair) (raw : String) : Prop :=
  ∃ texts : List QueryPair,
    List.Forall₂ (fun p t => Encodes p.1 t.1 ∧ Encodes p.2 t.2) pairs texts ∧
      raw.toList = ['&'].intercalate (texts.map pairText)

/-- The key under which the engine looks for the parameter. -/
def keyOf (p : QueryPair) : Option String := engineKeyFor (String.ofList p.1)

theorem unreserved_of_known {name key : String} (h : engineKeyFor name = some key) :
    name.toList.all Uri.isUnreserved = true := by
  have hall : (paramMap.all fun p => p.1.toList.all Uri.isUnreserved) = true := by decide
  obtain ⟨p, hfind, -⟩ := Option.map_eq_some_iff.1 h
  have hname : p.1 = name := by simpa using List.find?_some hfind
  rw [← hname]
  exact List.all_eq_true.1 hall p (List.mem_of_find?_eq_some hfind)

/-- A name is looked up as it is sent, and the names that are known are sent as they are. -/
theorem keyOf_of_encodes {name text : List Char} (h : Encodes name text) (v v' : List Char) :
    keyOf (text, v) = keyOf (name, v') := by
  have hsame (hu : name.all Uri.isUnreserved = true ∨ text.all Uri.isUnreserved = true) :
      keyOf (text, v) = keyOf (name, v') := by
    rw [keyOf, keyOf, h.eq_of_unreserved hu]
  cases hname : keyOf (name, v') with
  | some key =>
    have hu := unreserved_of_known hname
    rw [String.toList_ofList] at hu
    rw [hsame (Or.inl hu), hname]
  | none =>
    cases htext : keyOf (text, v) with
    | none => rfl
    | some key =>
      have hu := unreserved_of_known htext
      rw [String.toList_ofList] at hu
      rw [← htext, hsame (Or.inr hu), hname]

/-- The member that a pair brings to the query. -/
def memberOf (p : QueryPair) : Option (String × Json) :=
  (keyOf p).map fun key =>
    (key, (parseText (String.ofList p.2)).getD (.string (String.ofList p.2)))

theorem carriedParam_of_encodes {p t : QueryPair} (hname : Encodes p.1 t.1)
    (hvalue : Encodes p.2 t.2) (hnul : '\x00' ∉ p.2) : carriedParam (pairText t) = memberOf p := by
  have hsep : ∀ c ∈ t.1, (c != '=') = true := by
    intro c hc
    rw [bne_iff_ne]
    rintro rfl
    exact hname.not_mem rfl (by decide) (by decide) rfl hc
  have hsplit : splitPair (pairText t) = some t := by
    unfold splitPair pairText
    rw [List.dropWhile_append_of_pos hsep, List.takeWhile_append_of_pos hsep]
    simp
  have hcut : cutAtNul p.2 = p.2 := by
    apply List.takeWhile_eq_self_iff.2
    intro c hc
    rw [bne_iff_ne]
    rintro rfl
    exact hnul hc
  have hkey : engineKeyFor (String.ofList t.1) = keyOf p := keyOf_of_encodes hname t.2 p.2
  unfold carriedParam
  rw [hsplit]
  dsimp only
  rw [hkey, percentDecode_of_encodes hvalue, hcut]
  rfl

theorem pairText_no_amp {p t : QueryPair} (hname : Encodes p.1 t.1) (hvalue : Encodes p.2 t.2) :
    '&' ∉ pairText t := by
  have hfirst := @Encodes.not_mem _ _ hname '&' rfl (by decide) (by decide) rfl
  have hsecond := @Encodes.not_mem _ _ hvalue '&' rfl (by decide) (by decide) rfl
  unfold pairText
  simp [hfirst, hsecond]

/-- The query comes apart into the pairs it was made of. -/
theorem carriedQuery_of_encodes {pairs : List QueryPair} {raw : String}
    (h : EncodesQuery pairs raw) (hnul : ∀ p ∈ pairs, '\x00' ∉ p.2) :
    carriedQuery (some raw) = .object (pairs.filterMap memberOf) := by
  obtain ⟨texts, henc, hraw⟩ := h
  have hmembers : (texts.map pairText).filterMap carriedParam = pairs.filterMap memberOf := by
    clear hraw
    induction henc with
    | nil => rfl
    | @cons p t pairs texts hp henc ih =>
      have hrest := ih fun q hq => hnul q (List.mem_cons_of_mem _ hq)
      have hfirst := carriedParam_of_encodes hp.1 hp.2 (hnul p List.mem_cons_self)
      rw [List.map_cons, List.filterMap_cons, List.filterMap_cons, hfirst, hrest]
  unfold carriedQuery
  rw [Option.getD_some, hraw, ← hmembers]
  by_cases hempty : texts = []
  · rw [hempty]
    rfl
  · rw [List.splitOn_intercalate]
    · intro l hl
      obtain ⟨t, ht, rfl⟩ := List.mem_map.1 hl
      obtain ⟨i, hi, rfl⟩ := List.mem_iff_getElem.1 ht
      have hp := henc.get (by rw [henc.length_eq]; exact hi) hi
      exact pairText_no_amp hp.1 hp.2
    · simpa using hempty

end pairs

section decoding

/-- The query says what the pairs say: a member for each known parameter, in their order, and
the first of a repeated parameter is the one that is found. -/
structure DecodesTo (pairs : List QueryPair) (query : Json) : Prop where
  members : ∃ ms, query = .object ms ∧
    List.Forall₂ (fun p m => keyOf p = some m.1 ∧ Conveys (String.ofList p.2) m.2)
      (pairs.filter fun p => (keyOf p).isSome) ms
  first : ∀ before p after key, pairs = before ++ p :: after → keyOf p = some key →
    (∀ q ∈ before, keyOf q ≠ some key) →
      ∃ j, query.member? key = some j ∧ Conveys (String.ofList p.2) j

/-- A value that is one JSON text within the limits of the parser, or one that is no JSON text
and that the parser refuses. -/
def ReadsRight (v : String) : Prop :=
  (∃ t, TreeOf t v ∧ Tree.WithinLimits t) ∨ (¬JsonText.IsText v.toList ∧ parseText v = none)

theorem members_iff (pairs : List QueryPair) :
    List.Forall₂ (fun p m => keyOf p = some m.1 ∧ Conveys (String.ofList p.2) m.2)
      (pairs.filter fun p => (keyOf p).isSome) (pairs.filterMap memberOf) ↔
      ∀ p ∈ pairs, keyOf p ≠ none → ReadsRight (String.ofList p.2) := by
  induction pairs with
  | nil => simp
  | cons p pairs ih =>
    rw [List.forall_mem_cons, ← ih]
    cases hkey : keyOf p with
    | none => simp [memberOf, hkey]
    | some key =>
      have hmember : memberOf p = some (key,
          (parseText (String.ofList p.2)).getD (.string (String.ofList p.2))) := by
        rw [memberOf, hkey]
        rfl
      have hfilter : (p :: pairs).filter (fun p => (keyOf p).isSome) =
          p :: pairs.filter fun p => (keyOf p).isSome := by
        rw [List.filter_cons_of_pos]
        simp [hkey]
      rw [hfilter, List.filterMap_cons, hmember, List.forall₂_cons, conveys_parse_iff]
      simp [hkey, ReadsRight]

theorem member_first {before after : List QueryPair} {p : QueryPair} {key : String}
    (hkey : keyOf p = some key) (hbefore : ∀ q ∈ before, keyOf q ≠ some key) :
    (Json.object ((before ++ p :: after).filterMap memberOf)).member? key =
      some ((parseText (String.ofList p.2)).getD (.string (String.ofList p.2))) := by
  have hskip : ∀ m ∈ before.filterMap memberOf, ¬(m.1 == key) = true := by
    intro m hm
    obtain ⟨q, hq, hmember⟩ := List.mem_filterMap.1 hm
    obtain ⟨k, hk, rfl⟩ := Option.map_eq_some_iff.1 hmember
    rw [beq_iff_eq]
    rintro rfl
    exact hbefore q hq hk
  have hmember : memberOf p = some (key,
      (parseText (String.ofList p.2)).getD (.string (String.ofList p.2))) := by
    rw [memberOf, hkey]
    rfl
  rw [Json.member?, Json.findMember, List.filterMap_append, List.filterMap_cons, hmember,
    List.find?_append, List.find?_eq_none.2 hskip]
  simp

theorem decodesTo_iff (pairs : List QueryPair) :
    DecodesTo pairs (.object (pairs.filterMap memberOf)) ↔
      ∀ p ∈ pairs, keyOf p ≠ none → ReadsRight (String.ofList p.2) := by
  constructor
  · intro h
    obtain ⟨ms, hms, hall⟩ := h.members
    rw [← Json.object.inj hms] at hall
    exact (members_iff pairs).1 hall
  · intro h
    refine ⟨⟨_, rfl, (members_iff pairs).2 h⟩, ?_⟩
    intro before p after key hpairs hkey hbefore
    subst hpairs
    refine ⟨_, member_first hkey hbefore, (conveys_parse_iff _).2 ?_⟩
    exact h p (by simp) (by simp [hkey])

/-- The engine is asked with what was sent exactly when every value is settled. -/
theorem query_decodes_iff {pairs : List QueryPair} {raw : String} (henc : EncodesQuery pairs raw)
    (hnul : ∀ p ∈ pairs, '\x00' ∉ p.2) {e : Env} (he : e.AllocOk) :
    (∃ query e', buildEngineQuery (some raw) e = .ok (some query, e') ∧ DecodesTo pairs query) ↔
      ∀ p ∈ pairs, keyOf p ≠ none → ReadsRight (String.ofList p.2) := by
  obtain ⟨e', hrun, -⟩ := yields_buildEngineQuery (some raw) e he
  rw [carriedQuery_of_encodes henc hnul] at hrun
  rw [← decodesTo_iff, hrun]
  constructor
  · intro h
    obtain ⟨query, e₁, hsome, hdecodes⟩ := h
    cases hsome
    exact hdecodes
  · intro h
    exact ⟨_, e', rfl, h⟩

theorem encodes_self {cs : List Char} (h : cs.all Uri.isUnreserved = true) : Encodes cs cs := by
  induction cs with
  | nil => exact .nil
  | cons c cs ih =>
    obtain ⟨hc, hcs⟩ := Bool.and_eq_true_iff.1 h
    exact .plain hc (ih hcs)

/-- The first byte of a text is a blank or begins a value. -/
theorem not_treeOf {v : String} {c : Char} {cs : List Char} (hv : v.toList = c :: cs)
    (hblank : JsonText.isWs c = false) {t : JsonText.Tree} (h : TreeOf t v) :
    ∃ r, t.text = c :: r := by
  obtain ⟨-, w, w', hs⟩ := h
  rw [hv] at hs
  cases hw : w.chars with
  | nil =>
    obtain ⟨x, r, hx, -⟩ := t.text_head
    rw [hw, hx] at hs
    exact ⟨r, by rw [hx, (List.cons.inj hs).1]⟩
  | cons x xs =>
    rw [hw] at hs
    have hx := w.blank x (hw ▸ List.mem_cons_self)
    rw [← (List.cons.inj hs).1, hblank] at hx
    cases hx

def sentPair (name value : String) : QueryPair := (name.toList, value.toList)

theorem query_decodes_nfType : ∃ query e',
    buildEngineQuery (some "nf-type=AMF") Env.quiet = .ok (some query, e') ∧
      DecodesTo [sentPair "nf-type" "AMF"] query := by
  have henc : EncodesQuery [sentPair "nf-type" "AMF"] "nf-type=AMF" := by
    refine ⟨[sentPair "nf-type" "AMF"], ?_, by decide⟩
    exact .cons ⟨encodes_self (by decide), encodes_self (by decide)⟩ .nil
  refine (query_decodes_iff henc (by decide) Env.allocOk_quiet).2 ?_
  intro p hp _
  rw [List.mem_singleton.1 hp]
  refine Or.inr ⟨?_, by decide⟩
  rw [isText_iff]
  intro h
  obtain ⟨t, ht⟩ := h
  obtain ⟨r, hr⟩ := not_treeOf rfl rfl ht
  obtain ⟨x, r', hx, hstart⟩ := t.text_head
  rw [hr] at hx
  rw [← (List.cons.inj hx).1] at hstart
  cases hstart

/-- The identifier begins like a number, and the engine is asked with this number. -/
theorem nfId_half_parsed : ¬∃ query e',
    buildEngineQuery (some "nf-id=4ec8ac0b-265e-4165-86e9-e0735e6ce100") Env.quiet =
        .ok (some query, e') ∧
      DecodesTo [sentPair "nf-id" "4ec8ac0b-265e-4165-86e9-e0735e6ce100"] query := by
  intro hex
  obtain ⟨query, e', hrun, hdecodes⟩ := hex
  obtain ⟨j, hfound, hconveys⟩ := hdecodes.first [] _ [] "nfId" rfl (by decide) (by simp)
  have hnumber : (Prog.result? (buildEngineQuery
      (some "nf-id=4ec8ac0b-265e-4165-86e9-e0735e6ce100")) Env.quiet).map
        (fun query => (query.bind (·.member? "nfId")).any Json.isNumber) = some true := by
    decide
  unfold Prog.result? at hnumber
  rw [hrun] at hnumber
  have hj : j.isNumber = true := by
    have hany : (query.member? "nfId").any Json.isNumber = true := Option.some.inj hnumber
    rw [hfound] at hany
    exact hany
  rcases hconveys with ⟨t, ht, hnode⟩ | ⟨-, hstring⟩
  · obtain ⟨n, rfl⟩ : ∃ n, t = .number n := by
      cases t with
      | number n => exact ⟨n, rfl⟩
      | _ =>
        rw [hnode] at hj
        cases hj
    obtain ⟨-, w, w', hs⟩ := ht
    have hc : 'c' ∈ w.chars ++ ((JsonText.Tree.number n).text ++ w'.chars) := by
      rw [← hs]
      decide
    have hblank {u : JsonText.Blanks} (h : 'c' ∈ u.chars) : False := by
      have := u.blank 'c' h
      cases this
    rw [JsonText.Tree.text, List.mem_append, List.mem_append] at hc
    rcases hc with hc | hc | hc
    · exact hblank hc
    · have := isNumberChar_numeral n 'c' hc
      cases this
    · exact hblank hc
  · rw [hstring] at hj
    cases hj

end decoding

end Nssf
