import Nssf.Design.Assemble

/-! Regeneration and the prose in the user blocks: a second run changes nothing, and the blocks
of the old text survive just when each of them is the current one of a USER id of the category or
stands inside such a one. -/

namespace Nssf.Design.Contract

open Base Base.Matches Base.PyText UserBlocks

section pieces

variable (topicId status : Text) (c : Category) (bodies preserved : Dict Text Text)

def pieces : List Piece :=
  [.prose (frontmatter topicId status c), .prose [], .prose ("# ".toList ++ topicId ++ ['\n'])] ++
    c.aids.flatMap (fun aid => [.prose (autoBlock aid (autoBody bodies aid)), .prose []]) ++
    (c.uids.dropLast.flatMap fun uid => [.block uid (userBody preserved uid), .prose []])

def lastUid : Text := c.uids.getLastD []

theorem uids_eq : c.uids = c.uids.dropLast ++ [lastUid c] := by
  cases c <;> rfl

def lastPiece : Piece := .block (lastUid c) (userBody preserved (lastUid c))

theorem assemble_eq : assemble topicId status c bodies preserved =
    lines user (pieces topicId status c bodies preserved ++ [lastPiece c preserved]) := by
  have hlast : (lastPiece c preserved).text user = userBlock preserved (lastUid c) := rfl
  have hend : ((lastPiece c preserved).text user).getLast? = some '>' := blockText_getLast? _ _
  have hparts : [frontmatter topicId status c, [], "# ".toList ++ topicId ++ ['\n']] ++
      c.aids.flatMap (fun aid => [autoBlock aid (autoBody bodies aid), []]) ++
      c.uids.flatMap (fun uid => [userBlock preserved uid, []]) =
      (pieces topicId status c bodies preserved ++ [lastPiece c preserved]).map
        (Piece.text user) ++ [[]] := by
    rw [List.map_append, List.map_singleton, hlast, uids_eq c, List.flatMap_append,
      List.flatMap_singleton, pieces]
    simp [Piece.text, userBlock, List.map_flatMap]
  rw [assemble, hparts]
  exact rstrip_pieces _ hend (by decide)

theorem found_eq : (pieces topicId status c bodies preserved ++ [lastPiece c preserved]).filterMap
    Piece.found? = c.uids.map fun uid => (uid, userBody preserved uid) := by
  have hauto : ∀ aids : List Text, (aids.flatMap fun aid =>
      [Piece.prose (autoBlock aid (autoBody bodies aid)), .prose []]).filterMap Piece.found? =
        [] := by
    intro aids
    induction aids with
    | nil => rfl
    | cons aid aids ih => exact ih
  have huser : ∀ uids : List Text, (uids.flatMap fun uid =>
      [Piece.block uid (userBody preserved uid), .prose []]).filterMap Piece.found? =
        uids.map fun uid => (uid, userBody preserved uid) := by
    intro uids
    induction uids with
    | nil => rfl
    | cons uid uids ih => exact congrArg _ ih
  rw [pieces, List.filterMap_append, List.filterMap_append, List.filterMap_append, hauto, huser]
  conv_rhs => rw [uids_eq c, List.map_append]
  rfl

end pieces

/-- The generated parts of a topic hold no USER marker. -/
structure Clean (w : WordClass) (topicId status : Text) (bodies : Dict Text Text) : Prop where
  topic : Unmarked w user topicId
  status : Unmarked w user status
  auto : ∀ aid body, bodies.get? aid = some body → Unmarked w user body

variable {w : WordClass} {topicId status : Text} {c : Category} {bodies preserved : Dict Text Text}
  {old : Option Text}

theorem isId_of_ascii {id : Text} (hne : id ≠ [])
    (h : id.all (fun c => c.toNat < 128 && (c.isAlphanum || c == '_' || c == '-')) = true) :
    IsId w id := by
  refine ⟨hne, fun c hc => ?_⟩
  have := List.all_eq_true.1 h c hc
  rw [Bool.and_eq_true, decide_eq_true_eq] at this
  rw [WordClass.idChar, w.ascii c this.1]
  exact this.2

theorem isId_of_mem {uid : Text} (h : uid ∈ c.uids) : IsId w uid := by
  have hall : c.uids.all (fun id => id ≠ [] && id.all fun c =>
      c.toNat < 128 && (c.isAlphanum || c == '_' || c == '-')) = true := by
    cases c <;> decide
  have := List.all_eq_true.1 hall uid h
  rw [Bool.and_eq_true, decide_eq_true_eq] at this
  exact isId_of_ascii this.1 this.2

theorem newline_not_mem {id : Text} (hid : IsId w id) : '\n' ∉ id := by
  intro hmem
  have hnewline : w.idChar '\n' = false := by
    rw [WordClass.idChar, w.ascii '\n' (by decide)]
    rfl
  have := hid.chars _ hmem
  rw [hnewline] at this
  cases this

theorem placeholder_enclosed {uid : Text} (hid : IsId w uid) :
    Enclosed user uid (placeholder uid) := by
  apply enclosed_of_line
  intro hmem
  obtain hmem | hmem := List.mem_append.1 hmem
  · obtain hmem | hmem := List.mem_append.1 hmem
    · exact absurd hmem (by decide)
    · exact newline_not_mem hid hmem
  · exact absurd hmem (by decide)

theorem strip_eq_nil_iff {cs : Text} : strip cs = [] ↔ ∀ c ∈ cs, isSpace c = true := by
  rw [strip, lstrip, rstrip, List.dropWhile_eq_nil_iff]
  constructor
  · intro h c hc
    rw [← @List.rdropWhile_append_rtakeWhile _ isSpace cs, List.mem_append] at hc
    exact hc.elim (h c) List.mem_rtakeWhile_imp
  · exact fun h c hc => h c ((List.rdropWhile_prefix isSpace cs).subset hc)

theorem placeholder_not_blank (uid : Text) : strip (placeholder uid) ≠ [] := by
  intro h
  have hmem : 'T' ∈ placeholder uid :=
    List.mem_append_left _ (List.mem_append_left _ (by decide))
  exact absurd (strip_eq_nil_iff.1 h 'T' hmem) (by decide)

theorem userBody_not_blank (preserved : Dict Text Text) (uid : Text) :
    strip (userBody preserved uid) ≠ [] := by
  rw [userBody]
  cases preserved.get? uid with
  | none => exact placeholder_not_blank uid
  | some body =>
    simp only
    split_ifs with hblank
    · exact placeholder_not_blank uid
    · exact hblank

theorem extracted_enclosed {uid body : Text}
    (h : (extractUserBlocks w old).get? uid = some body) : Enclosed user uid body := by
  cases old with
  | none => cases h
  | some text =>
    rw [extractUserBlocks, extractBlocks, Dict.get?_ofList_eq_some_iff] at h
    exact (of_mem_blocks h.mem).2.1

theorem userBody_enclosed {uid : Text} (hid : IsId w uid) :
    Enclosed user uid (userBody (extractUserBlocks w old) uid) := by
  rw [userBody]
  cases hget : (extractUserBlocks w old).get? uid with
  | none => exact placeholder_enclosed hid
  | some body =>
    simp only
    split_ifs
    · exact placeholder_enclosed hid
    · exact extracted_enclosed hget

section quiet

theorem quiet_auto {g : Text} (h : '<' ∉ g) :
    Quiet (matchAt w user) ('<' :: ("!-- AUTO:".toList ++ g)) := by
  refine quiet_cons_iff.2 ⟨fun rest => rfl, quiet_of_no_angle ?_⟩
  simp [h]

theorem aid_plain {aid : Text} (h : aid ∈ c.aids) : '<' ∉ aid := by
  have hall : c.aids.all (fun id => !id.contains '<') = true := by
    cases c <;> decide
  have := List.all_eq_true.1 hall aid h
  simpa using this

theorem quiet_autoBlock {aid : Text} (haid : aid ∈ c.aids) (hclean : Clean w topicId status bodies) :
    Quiet (matchAt w user) (autoBlock aid (autoBody bodies aid) ++ ['\n']) := by
  have hplain := aid_plain haid
  have hbody : Quiet (matchAt w user) (autoBody bodies aid ++ ['\n']) := by
    rw [autoBody]
    cases hget : bodies.get? aid with
    | none => exact quiet_of_no_angle (by simp [hplain])
    | some body => exact quiet_line (by decide) (hclean.auto aid body hget)
  have hstart : Quiet (matchAt w user)
      ('<' :: ("!-- AUTO:".toList ++ (aid ++ ":start -->\n".toList))) :=
    quiet_auto (by simp [hplain])
  have hend : Quiet (matchAt w user)
      ('<' :: ("!-- AUTO:".toList ++ (aid ++ ":end -->\n".toList))) :=
    quiet_auto (by simp [hplain])
  have htext : autoBlock aid (autoBody bodies aid) ++ ['\n'] =
      '<' :: ("!-- AUTO:".toList ++ (aid ++ ":start -->\n".toList)) ++
        (autoBody bodies aid ++ ['\n']) ++
        '<' :: ("!-- AUTO:".toList ++ (aid ++ ":end -->\n".toList)) := by
    simp [autoBlock, blockText, startMarker, endMarker, opening, auto]
  rw [htext]
  exact (hstart.append hbody).append hend

theorem quiet_listed (ids : List Text) (h : ∀ id ∈ ids, '<' ∉ id) :
    Quiet (matchAt w user) (ids.map listed).flatten := by
  apply quiet_of_no_angle
  rw [List.mem_flatten]
  rintro ⟨l, hl, hmem⟩
  obtain ⟨id, hid, rfl⟩ := List.mem_map.1 hl
  obtain hmem | hmem := List.mem_append.1 hmem
  · obtain hmem | hmem := List.mem_append.1 hmem
    · exact absurd hmem (by decide)
    · exact h id hid hmem
  · exact absurd hmem (by decide)

theorem quiet_frontmatter (hclean : Clean w topicId status bodies) :
    Quiet (matchAt w user) (frontmatter topicId status c) := by
  have huids : ∀ id ∈ c.uids, '<' ∉ id := fun id hid hmem => by
    have hangle : w.idChar '<' = false := by
      rw [WordClass.idChar, w.ascii '<' (by decide)]
      rfl
    have := (isId_of_mem (w := w) hid).chars _ hmem
    rw [hangle] at this
    cases this
  have hname : '<' ∉ c.name.toList := by
    cases c <;> decide
  have hplain : ∀ g : Text, '<' ∉ g → Quiet (matchAt w user) g := fun _ => quiet_of_no_angle
  have htopic : Quiet (matchAt w user) ("topic_id: ".toList ++ topicId ++ ['\n']) := by
    rw [List.append_assoc]
    exact (hplain _ (by decide)).append (quiet_line (by decide) hclean.topic)
  have hstatus : Quiet (matchAt w user) ("status: ".toList ++ status ++ ['\n']) := by
    rw [List.append_assoc]
    exact (hplain _ (by decide)).append (quiet_line (by decide) hclean.status)
  have hcategory : Quiet (matchAt w user) ("category: ".toList ++ c.name.toList ++ ['\n']) :=
    hplain _ (by simp [hname])
  exact (((((((hplain _ (by decide)).append htopic).append hcategory).append hstatus).append
    (hplain _ (by decide))).append (quiet_listed c.aids fun _ => aid_plain)).append
    (hplain _ (by decide))).append (quiet_listed c.uids huids) |>.append (hplain _ (by decide))

end quiet

theorem pieces_fine (hclean : Clean w topicId status bodies) :
    ∀ p ∈ pieces topicId status c bodies (extractUserBlocks w old) ++
      [lastPiece c (extractUserBlocks w old)], p.Fine w user := by
  have hbreak : Piece.Fine w user (.prose []) := quiet_of_no_angle (by decide)
  have hblock : ∀ uid ∈ c.uids,
      Piece.Fine w user (.block uid (userBody (extractUserBlocks w old) uid)) := fun uid huid =>
    ⟨isId_of_mem huid, userBody_enclosed (isId_of_mem huid)⟩
  intro p hp
  simp only [pieces, List.mem_append, List.mem_cons, List.mem_flatMap, List.not_mem_nil,
    or_false] at hp
  obtain (((rfl | rfl | rfl) | ⟨aid, haid, rfl | rfl⟩) | ⟨uid, huid, rfl | rfl⟩) | rfl := hp
  · exact (quiet_frontmatter hclean).append (quiet_of_no_angle (by decide))
  · exact hbreak
  · have htopic : Quiet (matchAt w user) (topicId ++ ['\n']) := quiet_line (by decide) hclean.topic
    have hheading : Quiet (matchAt w user) "# ".toList := quiet_of_no_angle (by decide)
    have hall := (hheading.append htopic).append (quiet_of_no_angle (by decide) : Quiet _ ['\n'])
    rwa [← List.append_assoc] at hall
  · exact quiet_autoBlock haid hclean
  · exact hbreak
  · exact hblock uid (List.mem_of_mem_dropLast huid)
  · exact hbreak
  · exact hblock (lastUid c) (by rw [uids_eq c]; simp)

/-- The user blocks of the new text are those of the category, each with its body. -/
theorem blocks_regenerate (hclean : Clean w topicId status bodies) :
    blocks w user (regenerate w topicId status c bodies old) =
      c.uids.map fun uid => (uid, userBody (extractUserBlocks w old) uid) := by
  rw [regenerate, assemble_eq, blocks_pieces (pieces_fine hclean), found_eq]

theorem extract_regenerate (hclean : Clean w topicId status bodies) {uid : Text}
    (huid : uid ∈ c.uids) :
    (extractUserBlocks w (some (regenerate w topicId status c bodies old))).get? uid =
      some (userBody (extractUserBlocks w old) uid) := by
  rw [extractUserBlocks, extractBlocks, blocks_regenerate hclean]
  have hmem : uid ∈ (c.uids.map fun uid =>
      (uid, userBody (extractUserBlocks w old) uid)).map Prod.fst := by
    rw [List.map_map]
    exact List.mem_map.2 ⟨uid, huid, rfl⟩
  obtain ⟨body, hlast⟩ := Dict.exists_last hmem
  obtain ⟨uid', -, heq⟩ := List.mem_map.1 hlast.mem
  cases heq
  exact Dict.get?_ofList_eq_some_iff.2 hlast

theorem userBody_congr {preserved' : Dict Text Text} {uid : Text}
    (h : preserved'.get? uid = some (userBody preserved uid)) :
    userBody preserved' uid = userBody preserved uid := by
  rw [userBody, h]
  exact if_neg (userBody_not_blank preserved uid)

theorem assemble_congr {preserved' : Dict Text Text}
    (h : ∀ uid ∈ c.uids, userBody preserved' uid = userBody preserved uid) :
    assemble topicId status c bodies preserved' = assemble topicId status c bodies preserved := by
  have hblocks : c.uids.flatMap (fun uid => [userBlock preserved' uid, []]) =
      c.uids.flatMap fun uid => [userBlock preserved uid, []] := by
    refine List.flatMap_congr fun uid huid => ?_
    rw [userBlock, userBlock, h uid huid]
  rw [assemble, assemble, hblocks]

/-- A second run with the same generated parts changes nothing. -/
theorem regenerate_twice (hclean : Clean w topicId status bodies) :
    regenerate w topicId status c bodies (some (regenerate w topicId status c bodies old)) =
      regenerate w topicId status c bodies old :=
  assemble_congr fun _ huid => userBody_congr (extract_regenerate hclean huid)

/-- The body that stands for an id: that of the last block of the id, or the placeholder where
there is none or a blank one. -/
def Current (found : List (Text × Text)) (uid body : Text) : Prop :=
  (Dict.Last found uid body ∧ strip body ≠ []) ∨
    ((∀ body', Dict.Last found uid body' → strip body' = []) ∧ body = placeholder uid)

theorem current_userBody (found : List (Text × Text)) (uid : Text) :
    Current found uid (userBody (Dict.ofList found) uid) := by
  cases hget : (Dict.ofList found).get? uid with
  | none =>
    have hbody : userBody (Dict.ofList found) uid = placeholder uid := by rw [userBody, hget]
    refine .inr ⟨fun body hlast => ?_, hbody⟩
    rw [Dict.get?_ofList_eq_some_iff.2 hlast] at hget
    cases hget
  | some body =>
    have hlast := Dict.get?_ofList_eq_some_iff.1 hget
    rw [userBody, hget]
    simp only
    split_ifs with hblank
    · refine .inr ⟨fun body' hlast' => ?_, rfl⟩
      rw [Dict.get?_ofList_eq_some_iff.2 hlast', Option.some.injEq] at hget
      rwa [hget]
    · exact .inl ⟨hlast, hblank⟩

theorem Current.unique {found : List (Text × Text)} {uid body body' : Text}
    (h : Current found uid body) (h' : Current found uid body') : body = body' := by
  obtain ⟨hlast, hblank⟩ | ⟨hall, hbody⟩ := h
  · obtain ⟨hlast', -⟩ | ⟨hall, -⟩ := h'
    · have := Dict.get?_ofList_eq_some_iff.2 hlast
      rw [Dict.get?_ofList_eq_some_iff.2 hlast', Option.some.injEq] at this
      exact this.symm
    · exact absurd (hall body hlast) hblank
  · obtain ⟨hlast', hblank'⟩ | ⟨-, hbody'⟩ := h'
    · exact absurd (hall body' hlast') hblank'
    · rw [hbody, hbody']

/-- Every block with prose in it is in the new text. -/
def Survives (w : WordClass) (old new : Text) : Prop :=
  ∀ id body, Block w user old id body → strip body ≠ [] → Block w user new id body

/-- Every block with prose in it that the old text has is the current one of a USER id of the
category, or stands inside such a one. -/
def Kept (w : WordClass) (c : Category) (old : Text) : Prop :=
  ∀ id body, (id, body) ∈ blocks w user old → strip body ≠ [] →
    ∃ uid ∈ c.uids, ∃ current, Current (blocks w user old) uid current ∧
      ((id, body) = (uid, current) ∨ Block w user current id body)

theorem not_blank_of_block {text id body : Text} (h : Block w user text id body) :
    strip text ≠ [] := by
  intro hblank
  have := strip_eq_nil_iff.1 hblank '<' h.angle_mem
  exact absurd this (by decide)

theorem block_regenerate_iff (hclean : Clean w topicId status bodies) {text id body : Text} :
    Block w user (regenerate w topicId status c bodies (some text)) id body ↔
      ∃ uid ∈ c.uids, ∃ current, Current (blocks w user text) uid current ∧
        ((id, body) = (uid, current) ∨ Block w user current id body) := by
  have hfound := @blocks_regenerate w topicId status c bodies (some text) hclean
  have hmem : ∀ uid ∈ c.uids, ∀ current, Current (blocks w user text) uid current →
      (uid, current) ∈ blocks w user (regenerate w topicId status c bodies (some text)) := by
    intro uid huid current hcurrent
    rw [hfound, hcurrent.unique (current_userBody _ uid)]
    exact List.mem_map_of_mem huid
  constructor
  · rw [block_iff, hfound]
    rintro (h | ⟨id', body', h', h⟩)
    · obtain ⟨uid, huid, heq⟩ := List.mem_map.1 h
      exact ⟨uid, huid, _, current_userBody _ uid, .inl heq.symm⟩
    · obtain ⟨uid, huid, heq⟩ := List.mem_map.1 h'
      rw [Prod.mk.injEq] at heq
      exact ⟨uid, huid, _, current_userBody _ uid, .inr (heq.2 ▸ h)⟩
  · rintro ⟨uid, huid, current, hcurrent, heq | h⟩
    · rw [Prod.mk.injEq] at heq
      rw [heq.1, heq.2]
      exact .found (hmem uid huid current hcurrent)
    · exact .within (hmem uid huid current hcurrent) h

/-- Regeneration keeps all prose and settles in one run just when every block of the old text is
kept. -/
theorem prose_survives_iff (hclean : Clean w topicId status bodies) (text : Text) :
    (Survives w text (regenerate w topicId status c bodies (some text)) ∧
      regenerate w topicId status c bodies (some (regenerate w topicId status c bodies (some text)))
        = regenerate w topicId status c bodies (some text)) ↔ Kept w c text := by
  rw [and_iff_left (regenerate_twice hclean)]
  constructor
  · intro h id body hfound hblank
    exact (block_regenerate_iff hclean).1 (h id body (.found hfound) hblank)
  · intro h id body hblock hblank
    cases hblock with
    | found hfound => exact (block_regenerate_iff hclean).2 (h id body hfound hblank)
    | within hfound hblock =>
      exact ((block_regenerate_iff hclean).2 (h _ _ hfound (not_blank_of_block hblock))).trans hblock

/-- Only the ASCII letters and digits. -/
def asciiWord : WordClass := ⟨fun c => c.isAlphanum || c == '_', fun _ _ => rfl⟩

theorem unmarked_of_no_angle {text : Text} (h : '<' ∉ text) : Unmarked w user text := by
  intro id _ hmarker
  exact h (hmarker.subset (angle_mem_startMarker user id))

def sampleTopic : Text := "api/nnssf-nsselection".toList

def sampleStatus : Text := "draft".toList

theorem sample_clean : Clean asciiWord sampleTopic sampleStatus .empty where
  topic := unmarked_of_no_angle (by decide)
  status := unmarked_of_no_angle (by decide)
  auto := fun _ _ h => by cases h

/-- A text with one block. -/
def oneBlock (id : String) : Text := blockText user id.toList "kept by hand".toList

theorem blocks_oneBlock {id : String} (hid : IsId asciiWord id.toList) :
    blocks asciiWord user (oneBlock id) = [(id.toList, "kept by hand".toList)] := by
  have hbody : Enclosed user id.toList "kept by hand".toList := enclosed_of_line (by decide)
  have hblock := @blocks_block asciiWord user id.toList "kept by hand".toList [] hid hbody
  rw [List.append_nil] at hblock
  rw [oneBlock, hblock]
  rfl

theorem prose_survives_notes :
    Survives asciiWord (oneBlock "implementation-notes")
      (regenerate asciiWord sampleTopic sampleStatus .api .empty
        (some (oneBlock "implementation-notes"))) := by
  have hfound := blocks_oneBlock (isId_of_ascii (by decide) (by decide) :
    IsId asciiWord "implementation-notes".toList)
  refine ((prose_survives_iff (c := .api) sample_clean _).2 fun id body h hblank => ?_).1
  rw [hfound] at h ⊢
  rw [List.mem_singleton, Prod.mk.injEq] at h
  obtain ⟨rfl, rfl⟩ := h
  exact ⟨_, .head _, _, .inl ⟨⟨[], [], rfl, List.not_mem_nil⟩, hblank⟩, .inl rfl⟩

/-- A block whose id is not one of the category is dropped. -/
theorem regenerate_drops_block : Clean asciiWord sampleTopic sampleStatus .empty ∧
    ¬Survives asciiWord (oneBlock "meeting-notes")
      (regenerate asciiWord sampleTopic sampleStatus .api .empty
        (some (oneBlock "meeting-notes"))) := by
  refine ⟨sample_clean, fun h => ?_⟩
  have hfound := blocks_oneBlock (isId_of_ascii (by decide) (by decide) :
    IsId asciiWord "meeting-notes".toList)
  have hblock := h "meeting-notes".toList "kept by hand".toList
    (.found (by rw [hfound]; exact List.mem_singleton_self _)) (by decide)
  rw [block_regenerate_iff sample_clean, hfound] at hblock
  obtain ⟨uid, huid, current, hcurrent, heq | hblock⟩ := hblock
  · rw [Prod.mk.injEq] at heq
    rw [← heq.1] at huid
    exact absurd huid (by decide)
  · obtain ⟨hlast, -⟩ | ⟨-, hbody⟩ := hcurrent
    · have hmem := hlast.mem
      rw [List.mem_singleton, Prod.mk.injEq] at hmem
      rw [hmem.1] at huid
      exact absurd huid (by decide)
    · have hplain : '<' ∉ placeholder uid := by
        rw [Category.uids, Category.userIds, List.map_singleton, List.mem_singleton] at huid
        rw [huid]
        decide
      exact hplain (hbody ▸ hblock.angle_mem)

end Nssf.Design.Contract
