import Nssf.Server.Handlers

/-! The tokens of a scope claim. The claim is walked in rounds, each of which takes the blanks
and then a token. -/

namespace Nssf

/-- The walk as far as so many rounds go. -/
def scopeWalk (required : List Char) : ℕ → List Char → Option Bool
  | 0, _ => none
  | rounds + 1, cursor =>
    if cursor = [] then some false
    else
      let start := cursor.dropWhile (· == ' ')
      if start.takeWhile (· != ' ') = required then some true
      else scopeWalk required rounds (start.dropWhile (· != ' '))

/-- A piece between blanks that has none in it. -/
structure IsToken (claim tok : List Char) : Prop where
  blankFree : ' ' ∉ tok
  within : ∃ before after, claim = before ++ (tok ++ after) ∧
    (∀ c ∈ before.getLast?, c = ' ') ∧ ∀ c ∈ after.head?, c = ' '

section tokens

variable {required tok cs : List Char}

theorem takeWhile_token {after : List Char} (htok : ' ' ∉ tok)
    (hafter : ∀ c ∈ after.head?, c = ' ') : (tok ++ after).takeWhile (· != ' ') = tok := by
  have hall : ∀ c ∈ tok, (c != ' ') = true := by
    intro c hc
    rw [bne_iff_ne]
    rintro rfl
    exact htok hc
  rw [List.takeWhile_append_of_pos hall]
  cases after with
  | nil => exact List.append_nil tok
  | cons c after =>
    have hc : c = ' ' := hafter c rfl
    rw [List.takeWhile_cons_of_neg (by simp [hc]), List.append_nil]

theorem eq_nil_of_last {before : List Char} (hblank : ' ' ∉ before)
    (hlast : ∀ c ∈ before.getLast?, c = ' ') : before = [] := by
  rcases List.eq_nil_or_concat before with rfl | ⟨front, c, rfl⟩
  · rfl
  · have hc : c = ' ' := hlast c (by simp)
    exact absurd (by simp [hc]) hblank

theorem last_behind (tok before : List Char) :
    (∀ c ∈ (tok ++ ' ' :: before).getLast?, c = ' ') ↔ ∀ c ∈ before.getLast?, c = ' ' := by
  rw [List.getLast?_append, List.getLast?_cons, Option.some_or]
  cases before.getLast? with
  | none => simp
  | some c => simp

/-- A piece without blanks is its own token and has no other. -/
theorem isToken_piece (htok : ' ' ∉ tok) (hreq : ' ' ∉ required) :
    IsToken tok required ↔ tok = required := by
  constructor
  · intro h
    obtain ⟨before, after, heq, hbefore, hafter⟩ := h.within
    have hnil : before = [] := by
      refine eq_nil_of_last (fun hmem => htok ?_) hbefore
      rw [heq]
      exact List.mem_append_left _ hmem
    have htake := takeWhile_token hreq hafter
    rw [hnil, List.nil_append] at heq
    rw [← heq, ← List.append_nil tok] at htake
    rw [← htake]
    exact (takeWhile_token htok (by simp)).symm
  · rintro rfl
    exact ⟨htok, [], [], by simp, by simp, by simp⟩

/-- Behind a blank the tokens are those of the rest. -/
theorem isToken_blank (htok : ' ' ∉ tok) (hreq : ' ' ∉ required) (hne : required ≠ []) :
    IsToken (tok ++ ' ' :: cs) required ↔ tok = required ∨ IsToken cs required := by
  constructor
  · intro h
    obtain ⟨before, after, heq, hbefore, hafter⟩ := h.within
    rcases List.append_eq_append_iff.1 heq with ⟨mid, hmid, hrest⟩ | ⟨mid, hmid, hrest⟩
    · cases mid with
      | nil =>
        obtain ⟨c, required, rfl⟩ := List.exists_cons_of_ne_nil hne
        have hc : c = ' ' := (List.cons.inj hrest).1.symm
        exact absurd (by simp [hc]) hreq
      | cons c mid =>
        obtain ⟨rfl, rfl⟩ := List.cons.inj hrest
        refine Or.inr ⟨hreq, mid, after, rfl, (last_behind tok mid).1 ?_, hafter⟩
        rw [← hmid]
        exact hbefore
    · have hnil : before = [] := by
        refine eq_nil_of_last (fun hmem => htok ?_) hbefore
        rw [hmid]
        exact List.mem_append_left _ hmem
      rw [hnil, List.nil_append] at hmid
      have htake := takeWhile_token hreq hafter
      rw [hrest, ← hmid] at htake
      exact Or.inl ((takeWhile_token htok (by simp)).symm.trans htake)
  · intro h
    rcases h with rfl | h
    · exact ⟨htok, [], ' ' :: cs, rfl, by simp, by simp⟩
    · obtain ⟨before, after, rfl, hbefore, hafter⟩ := h.within
      exact ⟨hreq, tok ++ ' ' :: before, after, by simp, (last_behind tok before).2 hbefore, hafter⟩

/-- With the piece before the cursor the scan has the tokens of the whole. -/
theorem scopeScan_iff (hreq : ' ' ∉ required) (hne : required ≠ []) (htok : ' ' ∉ tok) :
    scopeScan required tok cs = true ↔ IsToken (tok ++ cs) required := by
  induction cs generalizing tok with
  | nil => rw [scopeScan, beq_iff_eq, List.append_nil, isToken_piece htok hreq]
  | cons c cs ih =>
    simp only [scopeScan]
    split_ifs with hc
    · rw [hc, isToken_blank htok hreq hne, Bool.or_eq_true, beq_iff_eq]
      exact or_congr_right (ih (by simp))
    · have hmore : ' ' ∉ tok ++ [c] := by
        intro hmem
        rcases List.mem_append.1 hmem with hmem | hmem
        · exact htok hmem
        · exact hc (List.mem_singleton.1 hmem).symm
      rw [ih hmore, List.append_assoc, List.singleton_append]

end tokens

section walk

variable {required cs : List Char}

theorem scopeScan_piece (tok : List Char) {piece : List Char} (hpiece : ' ' ∉ piece) :
    scopeScan required tok (piece ++ cs) = scopeScan required (tok ++ piece) cs := by
  induction piece generalizing tok with
  | nil => rw [List.nil_append, List.append_nil]
  | cons c piece ih =>
    have hc : c ≠ ' ' := by
      rintro rfl
      exact hpiece List.mem_cons_self
    rw [List.cons_append, scopeScan, if_neg hc,
      ih _ fun hmem => hpiece (List.mem_cons_of_mem c hmem),
      List.append_assoc, List.singleton_append]

theorem scopeScan_blanks (hne : required ≠ []) (cs : List Char) :
    scopeScan required [] (cs.dropWhile (· == ' ')) = scopeScan required [] cs := by
  induction cs with
  | nil => rfl
  | cons c cs ih =>
    by_cases hc : c = ' '
    · have hnil : (([] : List Char) == required) = false := by
        rw [beq_eq_false_iff_ne]
        exact hne.symm
      rw [List.dropWhile_cons_of_pos (by simpa using hc), ih, scopeScan, if_pos hc, hnil,
        Bool.false_or]
    · rw [List.dropWhile_cons_of_neg (by simpa using hc)]

/-- At the end of a piece it is compared, and the scan goes on without it. -/
theorem scopeScan_end (hne : required ≠ []) (piece : List Char) {rest : List Char}
    (hrest : ∀ c ∈ rest.head?, c = ' ') :
    scopeScan required piece rest = (piece == required || scopeScan required [] rest) := by
  have hnil : (([] : List Char) == required) = false := by
    rw [beq_eq_false_iff_ne]
    exact hne.symm
  cases rest with
  | nil => rw [scopeScan, scopeScan, hnil, Bool.or_false]
  | cons c rest =>
    have hc : c = ' ' := hrest c rfl
    rw [scopeScan, scopeScan, if_pos hc, if_pos hc, hnil, Bool.false_or]

/-- A round that finds no match moves the cursor on. -/
theorem length_round {cs : List Char} (hcs : cs ≠ []) :
    ((cs.dropWhile (· == ' ')).dropWhile (· != ' ')).length < cs.length := by
  have hblanks := (List.dropWhile_sublist (l := cs) (· == ' ')).length_le
  cases hstart : cs.dropWhile (· == ' ') with
  | nil => exact List.length_pos_of_ne_nil hcs
  | cons c start =>
    have hc : (c == ' ') = false := by
      have hhead := List.head?_dropWhile_not (· == ' ') cs
      rw [hstart] at hhead
      exact hhead
    rw [List.dropWhile_cons_of_pos (by simpa using hc)]
    have hrest := (List.dropWhile_sublist (l := start) (· != ' ')).length_le
    rw [hstart, List.length_cons] at hblanks
    omega

/-- What the scan makes of a round. -/
theorem scopeScan_round (hne : required ≠ []) (cs : List Char) :
    scopeScan required [] cs =
      ((cs.dropWhile (· == ' ')).takeWhile (· != ' ') == required ||
        scopeScan required [] ((cs.dropWhile (· == ' ')).dropWhile (· != ' '))) := by
  rw [← scopeScan_blanks hne cs]
  generalize cs.dropWhile (· == ' ') = start
  have hpiece : ' ' ∉ start.takeWhile (· != ' ') := by
    intro hmem
    have hblank := List.all_eq_true.1 List.all_takeWhile _ hmem
    simp at hblank
  have hhead : ∀ c ∈ (start.dropWhile (· != ' ')).head?, c = ' ' := by
    intro c hc
    have hstop := List.head?_dropWhile_not (· != ' ') start
    rw [Option.mem_def.1 hc] at hstop
    simpa using hstop
  have hsplit := @scopeScan_piece required (start.dropWhile (· != ' ')) [] _ hpiece
  rw [List.takeWhile_append_dropWhile, List.nil_append] at hsplit
  rw [hsplit, scopeScan_end hne _ hhead]

/-- The walk ends, and it ends as the scan does. -/
theorem scopeWalk_eq (hne : required ≠ []) {rounds : ℕ} (h : cs.length < rounds) :
    scopeWalk required rounds cs = some (scopeScan required [] cs) := by
  induction rounds generalizing cs with
  | zero => omega
  | succ rounds ih =>
    simp only [scopeWalk]
    split_ifs with hcs hmatch
    · rw [hcs, scopeScan, (beq_eq_false_iff_ne).2 hne.symm]
    · rw [scopeScan_round hne cs, hmatch, beq_self_eq_true, Bool.true_or]
    · have hlength := length_round hcs
      rw [ih (by omega), scopeScan_round hne cs, (beq_eq_false_iff_ne).2 hmatch, Bool.false_or]

end walk

/-- The walk over a claim ends, and it says whether the scope is one of the tokens. -/
theorem scopeMatch_tokens (claim : String) {required : String} (hne : required ≠ "")
    (hblank : ' ' ∉ required.toList) :
    (∀ rounds, claim.toList.length < rounds → scopeWalk required.toList rounds claim.toList =
      some (scopeMatch (some claim) required)) ∧
    (scopeMatch (some claim) required = true ↔ IsToken claim.toList required.toList) := by
  have hreq : required.toList ≠ [] := by simpa using hne
  have hscan : scopeMatch (some claim) required =
      scopeScan required.toList [] claim.toList := by
    have hempty : required.toList.isEmpty = false := by simpa using hreq
    rw [scopeMatch, hempty, Bool.not_false, Bool.true_and]
  rw [hscan]
  refine ⟨fun rounds h => scopeWalk_eq hreq h, ?_⟩
  exact scopeScan_iff hblank hreq (by simp)

theorem scopeMatch_spaced :
    scopeMatch (some "  a nnssf-nsselection ") scopeNsselection = true := by
  have hlast : "  a ".toList.getLast? = some ' ' := rfl
  have hhead : " ".toList.head? = some ' ' := rfl
  have htoken : IsToken "  a nnssf-nsselection ".toList scopeNsselection.toList := by
    refine ⟨by decide, "  a ".toList, " ".toList, rfl, fun c hc => ?_, fun c hc => ?_⟩
    · rw [hlast] at hc
      exact (Option.some.inj hc).symm
    · rw [hhead] at hc
      exact (Option.some.inj hc).symm
  exact (scopeMatch_tokens "  a nnssf-nsselection " (by decide) (by decide)).2.2 htoken

end Nssf
