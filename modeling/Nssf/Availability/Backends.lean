import Nssf.Availability.TaiIdentity
import Nssf.Base.Paired
import Nssf.Json.Plain

/-! The two repositories side by side, call by call. Both keep at most one row for an NF, and the
rows of the two agree while every row has its three trees and the server's texts of them can be
read again. -/

namespace Nssf.PgRepo

open Base Run JsonText

inductive RepoCall where
  | upsert (x : AvailabilityRecord)
  | patch (id : String) (plmnId tai snssais : Option Json) (amfSetId : Option String)
      (setReallocation reallocationIndication : Bool)
  | delete (id : String)
  | find (plmnId tai : Json)

inductive RepoAnswer where
  | saved (ok : Bool)
  | code (c : RepoCode)
  | found (records : Option (List AvailabilityRecord))

def memCall (repo : AvailabilityRepo) : RepoCall → Run (RepoAnswer × AvailabilityRepo)
  | .upsert x => do
    let o ← repo.memUpsert x
    return (.saved o.1, o.2)
  | .patch id plmnId tai snssais amfSetId set indication => do
    let o ← repo.memPatch id plmnId tai snssais amfSetId set indication
    return (.code o.1, o.2)
  | .delete id => pure (.code (repo.memDelete id).1, (repo.memDelete id).2)
  | .find plmnId tai => do
    let records ← repo.memFindForPlmnTai (some plmnId) (some tai)
    return (.found records, repo)

def memCalls : List RepoCall → AvailabilityRepo → Run (List RepoAnswer)
  | [], _ => pure []
  | c :: cs, repo => do
    let o ← memCall repo c
    let more ← memCalls cs o.2
    return o.1 :: more

section calls

variable (jsonb : Jsonb) (uuid : String → Option String)

def pgCall (w : ServerTurn) (s : Session (AvailabilityTable jsonb)) :
    RepoCall → Run (RepoAnswer × Session (AvailabilityTable jsonb))
  | .upsert x => do
    let o ← pgUpsert jsonb uuid w s x
    return (.saved o.1, o.2)
  | .patch id plmnId tai snssais amfSetId set indication => do
    let o ← pgPatch jsonb uuid w s id plmnId tai snssais amfSetId set indication
    return (.code o.1, o.2)
  | .delete id => pure (.code (pgDelete jsonb uuid w s id).1, (pgDelete jsonb uuid w s id).2)
  | .find plmnId tai => do
    let o ← pgFindForPlmnTai jsonb w s (some plmnId) (some tai)
    return (.found o.1, o.2)

/-- The calls of a client that has the connection for itself, one turn of the server for each. -/
def pgCalls : (ℕ → ServerTurn) → List RepoCall → Session (AvailabilityTable jsonb) →
    Run (List RepoAnswer)
  | _, [], _ => pure []
  | turns, c :: cs, s => do
    let o ← pgCall jsonb uuid (turns 0) s c
    let more ← pgCalls (fun n => turns (n + 1)) cs o.2
    return o.1 :: more

end calls

section columns

variable (jsonb : Jsonb) (r : List Char → List Char → Prop)

/-- A PLMN or a tracking area: its objects list their members along `r`, and none of its numbers
is infinite or a negative zero. -/
structure Key (j : Json) : Prop where
  proper : j.Proper
  ordered : j.value.OrderedBy r
  plain : j.Plain

/-- The text that the column hands back for the tree can be read, as a tree of its content. -/
structure Kept (j : Json) : Prop where
  proper : j.Proper
  back : ∀ d, jsonb.cast j.printText = some d →
    ∃ b, Json.parseText (jsonb.text d) = some b ∧ b.value.canonical = j.value.canonical

/-- What a call passes for a column. -/
structure Passed (P : Json → Prop) (j : Json) (d : jsonb.Doc) : Prop where
  sort : P j
  kept : Kept jsonb j
  cast : jsonb.cast j.printText = some d

def Column (P : Json → Prop) (v : Option Json) (d : jsonb.Doc) : Prop :=
  ∃ j, v = some j ∧ Passed jsonb P j d

structure SameRow (x : AvailabilityRecord) (y : PgAvailability jsonb) : Prop where
  id : x.id = y.id
  plmnId : Column jsonb (Key r) x.plmnId y.plmnId
  tai : Column jsonb (Key r) x.tai y.tai
  snssais : Column jsonb (fun _ => True) x.snssais y.snssais
  amfSetId : x.amfSetId = y.amfSetId
  reallocationIndication : x.reallocationIndication = y.reallocationIndication

structure Mirrors (repo : AvailabilityRepo) (rows : AvailabilityTable jsonb) : Prop where
  keyed : repo.Keyed
  keyedRows : (rows.map PgAvailability.id).Nodup
  row : ∀ id, Option.Rel (SameRow jsonb r) (repo.row? id) (findKey PgAvailability.id id rows)

/-- A record as what it says: JSON values up to the order of members, the last of a name
counting. -/
structure RecordContent where
  id : String
  plmnId : Option Value
  tai : Option Value
  snssais : Option Value
  amfSetId : Option String
  reallocationIndication : Bool

def contentOf (v : Option Json) : Option Value := v.map fun j => j.value.canonical

def recordContent (x : AvailabilityRecord) : RecordContent :=
  ⟨x.id, contentOf x.plmnId, contentOf x.tai, contentOf x.snssais, x.amfSetId,
    x.reallocationIndication⟩

/-- The same code, and for a read the same records in some order. -/
inductive Agree : RepoAnswer → RepoAnswer → Prop where
  | saved (ok : Bool) : Agree (.saved ok) (.saved ok)
  | code (c : RepoCode) : Agree (.code c) (.code c)
  | found {xs ys : List AvailabilityRecord} :
    (xs.map recordContent).Perm (ys.map recordContent) → Agree (.found (some xs)) (.found (some ys))

end columns

section rows

variable {jsonb : Jsonb} {r : List Char → List Char → Prop} {repo : AvailabilityRepo}
  {rows : AvailabilityTable jsonb} {x : AvailabilityRecord} {y : PgAvailability jsonb}

theorem mirrors_empty : Mirrors jsonb r .newInmemory [] where
  keyed := List.nodup_nil
  keyedRows := List.nodup_nil
  row _ := .none

theorem insertOrUpdate_eq (y : PgAvailability jsonb) (rows : AvailabilityTable jsonb) :
    insertOrUpdate jsonb y rows = if rows.any (·.id == y.id) then
      updateKey PgAvailability.id y.id (fun z => if z.id = y.id then y else z) rows
      else rows ++ [y] := by
  unfold insertOrUpdate updateKey
  split_ifs
  · apply List.map_congr_left
    intro z _
    dsimp only
    split_ifs <;> rfl
  · rfl

theorem id_replace (y z : PgAvailability jsonb) : (if z.id = y.id then y else z).id = z.id := by
  split_ifs with h
  · exact h.symm
  · rfl

theorem any_id (rows : AvailabilityTable jsonb) (id : String) :
    rows.any (·.id == id) = (findKey PgAvailability.id id rows).isSome := by
  rw [Bool.eq_iff_iff, findKey, List.find?_isSome]
  simp

theorem any_id_eq_false {id : String} (h : rows.any (·.id == id) = false) :
    ∀ z ∈ rows, z.id ≠ id := by
  intro z hz hid
  have hany := List.any_eq_false.1 h z hz
  rw [hid, beq_self_eq_true] at hany
  exact hany rfl

theorem findKey_insertOrUpdate (y : PgAvailability jsonb) (rows : AvailabilityTable jsonb)
    (id : String) : findKey PgAvailability.id id (insertOrUpdate jsonb y rows) =
      if id = y.id then some y else findKey PgAvailability.id id rows := by
  rw [insertOrUpdate_eq]
  cases hany : rows.any (·.id == y.id) with
  | true =>
    rw [if_pos rfl, findKey_updateKey (id_replace y)]
    by_cases hid : id = y.id
    · rw [if_pos hid, if_pos hid, hid]
      rw [any_id, Option.isSome_iff_exists] at hany
      obtain ⟨z, hz⟩ := hany
      have hkey : z.id = y.id := by simpa using List.find?_some hz
      rw [hz, Option.map_some, if_pos hkey]
    · rw [if_neg hid, if_neg hid]
  | false =>
    rw [if_neg Bool.false_ne_true]
    exact findKey_append_singleton (any_id_eq_false hany)

theorem keyed_insertOrUpdate (h : (rows.map PgAvailability.id).Nodup) (y : PgAvailability jsonb) :
    ((insertOrUpdate jsonb y rows).map PgAvailability.id).Nodup := by
  rw [insertOrUpdate_eq]
  cases hany : rows.any (·.id == y.id) with
  | true =>
    rw [if_pos rfl, map_key_updateKey (id_replace y)]
    exact h
  | false =>
    rw [if_neg Bool.false_ne_true, List.map_append, List.nodup_append]
    refine ⟨h, List.nodup_singleton _, ?_⟩
    intro a ha b hb hab
    obtain ⟨z, hz, rfl⟩ := List.mem_map.1 ha
    exact any_id_eq_false hany z hz (hab.trans (List.mem_singleton.1 hb))

theorem Mirrors.upsert (h : Mirrors jsonb r repo rows) (hxy : SameRow jsonb r x y) :
    Mirrors jsonb r (repo.put x) (insertOrUpdate jsonb y rows) where
  keyed := h.keyed.put x
  keyedRows := keyed_insertOrUpdate h.keyedRows y
  row id := by
    rw [AvailabilityRepo.row?_put, findKey_insertOrUpdate, hxy.id]
    split_ifs
    · exact .some hxy
    · exact h.row id

theorem Mirrors.delete (h : Mirrors jsonb r repo rows) {repo' : AvailabilityRepo} {id : String}
    (hkeyed : repo'.Keyed) (hrow : ∀ m, repo'.row? m = if m = id then none else repo.row? m) :
    Mirrors jsonb r repo' (removeKey PgAvailability.id id rows) where
  keyed := hkeyed
  keyedRows := nodup_removeKey h.keyedRows
  row m := by
    rw [hrow, findKey_removeKey]
    split_ifs
    · exact .none
    · exact h.row m

/-- What a patch of a record leaves. -/
def patchRecord (plmnId tai snssais : Option Json) (amfSetId : Option String)
    (set indication : Bool) (x : AvailabilityRecord) : AvailabilityRecord :=
  { x with
    plmnId := plmnId <|> x.plmnId
    tai := tai <|> x.tai
    snssais := snssais <|> x.snssais
    amfSetId := amfSetId <|> x.amfSetId
    reallocationIndication := if set then indication else x.reallocationIndication }

def patchRow (plmnId tai snssais : Option jsonb.Doc) (amfSetId : Option String)
    (set indication : Bool) (y : PgAvailability jsonb) : PgAvailability jsonb :=
  { y with
    plmnId := plmnId.getD y.plmnId
    tai := tai.getD y.tai
    snssais := snssais.getD y.snssais
    amfSetId := amfSetId <|> y.amfSetId
    reallocationIndication := if set then indication else y.reallocationIndication }

theorem id_patchRow (dp dt ds : Option jsonb.Doc) (amfSetId : Option String)
    (set indication : Bool) (y : PgAvailability jsonb) :
    (patchRow dp dt ds amfSetId set indication y).id = y.id := rfl

theorem Column.patch {P : Json → Prop} {v w : Option Json} {d : jsonb.Doc}
    {e : Option jsonb.Doc} (hv : Column jsonb P v d) (hw : Option.Rel (Passed jsonb P) w e) :
    Column jsonb P (w <|> v) (e.getD d) := by
  cases hw with
  | none => exact hv
  | some hpassed => exact ⟨_, rfl, hpassed⟩

theorem Mirrors.patch (h : Mirrors jsonb r repo rows) {plmnId tai snssais : Option Json}
    {dp dt ds : Option jsonb.Doc} (hp : Option.Rel (Passed jsonb (Key r)) plmnId dp)
    (ht : Option.Rel (Passed jsonb (Key r)) tai dt)
    (hs : Option.Rel (Passed jsonb fun _ => True) snssais ds) (amfSetId : Option String)
    (set indication : Bool) (id : String) :
    Mirrors jsonb r
      ⟨updateKey AvailabilityRecord.id id
        (patchRecord plmnId tai snssais amfSetId set indication) repo.items⟩
      (updateKey PgAvailability.id id (patchRow dp dt ds amfSetId set indication) rows) where
  keyed := by
    have hmap : (updateKey AvailabilityRecord.id id
        (patchRecord plmnId tai snssais amfSetId set indication) repo.items).map
          AvailabilityRecord.id = repo.items.map AvailabilityRecord.id :=
      map_key_updateKey fun _ => rfl
    unfold AvailabilityRepo.Keyed
    rw [hmap]
    exact h.keyed
  keyedRows := by
    rw [map_key_updateKey (id_patchRow dp dt ds amfSetId set indication)]
    exact h.keyedRows
  row m := by
    have hmem : AvailabilityRepo.row? ⟨updateKey AvailabilityRecord.id id
        (patchRecord plmnId tai snssais amfSetId set indication) repo.items⟩ m =
        if m = id then (repo.row? m).map (patchRecord plmnId tai snssais amfSetId set indication)
        else repo.row? m := findKey_updateKey fun _ => rfl
    rw [hmem, findKey_updateKey (id_patchRow dp dt ds amfSetId set indication)]
    have hrow := h.row m
    generalize repo.row? m = u at hrow ⊢
    generalize findKey PgAvailability.id m rows = v at hrow ⊢
    split_ifs
    · cases hrow with
      | none => exact .none
      | some hxy =>
        refine .some ⟨hxy.id, hxy.plmnId.patch hp, hxy.tai.patch ht, hxy.snssais.patch hs, ?_, ?_⟩
        · simp only [patchRecord, patchRow, hxy.amfSetId]
        · simp only [patchRecord, patchRow, hxy.reallocationIndication]
    · exact hrow

end rows

section finding

variable {jsonb : Jsonb} {r : List Char → List Char → Prop} {repo : AvailabilityRepo}
  {rows : AvailabilityTable jsonb} {x : AvailabilityRecord} {y : PgAvailability jsonb}

/-- Keys along one order are compared alike: as texts and as `jsonb`. -/
theorem sameText_eq_same (hr : ∀ k l, r k l → ¬r l k) {a b : Json} {d e : jsonb.Doc}
    (ha : Key r a) (hb : Key r b) (hd : jsonb.cast a.printText = some d)
    (he : jsonb.cast b.printText = some e) :
    Json.sameText (some a) (some b) = jsonb.same d e := by
  rw [Bool.eq_iff_iff, jsonb.same_iff ha.proper hb.proper hd he]
  constructor
  · intro h
    exact canonical_eq_iff.2 (rearranged_of_sameText ha.proper hb.proper h)
  · intro h
    rw [Json.eq_of_value ha.plain hb.plain (eq_of_canonical hr ha.ordered hb.ordered h)]
    exact Json.sameText_refl _

theorem at_eq (hr : ∀ k l, r k l → ¬r l k) (h : SameRow jsonb r x y) {p t : Json}
    {dp dt : jsonb.Doc} (hp : Key r p) (ht : Key r t) (hdp : jsonb.cast p.printText = some dp)
    (hdt : jsonb.cast t.printText = some dt) :
    AvailabilityRepo.At (some p) (some t) x = PgAvailability.At dp dt y := by
  obtain ⟨a, ha, hpa⟩ := h.plmnId
  obtain ⟨b, hb, hpb⟩ := h.tai
  rw [AvailabilityRepo.At, PgAvailability.At, ha, hb,
    sameText_eq_same hr hpa.sort hp hpa.cast hdp, sameText_eq_same hr hpb.sort ht hpb.cast hdt]

/-- A record that was read from a row. -/
structure ReadFrom (y : PgAvailability jsonb) (z : AvailabilityRecord) : Prop where
  id : z.id = y.id
  content : ∀ x, SameRow jsonb r x y → recordContent x = recordContent z

theorem yields_column {P : Json → Prop} {v : Option Json} {d : jsonb.Doc}
    (h : Column jsonb P v d) : ∃ b, Yields (Json.parse (jsonb.text d)) (some b) ∧
      ∀ w, Column jsonb P w d → contentOf w = some b.value.canonical := by
  obtain ⟨j, -, hpassed⟩ := h
  obtain ⟨b, hread, hcontent⟩ := hpassed.kept.back d hpassed.cast
  refine ⟨b, hread ▸ yields_parse (jsonb.text d), ?_⟩
  rintro w ⟨i, rfl, hi⟩
  obtain ⟨c, hc, hsame⟩ := hi.kept.back d hi.cast
  obtain rfl := Option.some.inj (hc.symm.trans hread)
  rw [contentOf, Option.map_some, hsame]

theorem yields_pgRowToRecord (h : SameRow jsonb r x y) :
    ∃ z, Yields (pgRowToRecord jsonb y) (some z) ∧ ReadFrom (r := r) y z := by
  obtain ⟨p, hp, hpc⟩ := yields_column h.plmnId
  obtain ⟨t, ht, htc⟩ := yields_column h.tai
  obtain ⟨s, hs, hsc⟩ := yields_column h.snssais
  refine ⟨⟨y.id, some p, some t, some s, y.amfSetId, y.reallocationIndication⟩, ?_, rfl, ?_⟩
  · refine Yields.bind hp (Yields.bind ht (Yields.bind hs ?_))
    exact Yields.bind (makes_copyField y.amfSetId).granted (yields_pure _)
  · intro x' hx'
    rw [recordContent, recordContent, hpc _ hx'.plmnId, htc _ hx'.tai, hsc _ hx'.snssais,
      hx'.id, hx'.amfSetId, hx'.reallocationIndication]
    rfl

theorem yields_pgRecords : ∀ {rows : AvailabilityTable jsonb},
    (∀ y ∈ rows, ∃ x, SameRow jsonb r x y) →
      ∃ zs, Yields (pgRecords jsonb rows) (some zs) ∧ List.Forall₂ (ReadFrom (r := r)) rows zs
  | [], _ => ⟨[], yields_pure _, .nil⟩
  | y :: rows, h => by
    obtain ⟨x, hx⟩ := h y List.mem_cons_self
    obtain ⟨z, hz, hread⟩ := yields_pgRowToRecord hx
    obtain ⟨zs, hzs, hreads⟩ := yields_pgRecords fun y hy => h y (List.mem_cons_of_mem _ hy)
    exact ⟨z :: zs, Yields.bind hz (Yields.bind hzs (yields_pure _)), .cons hread hreads⟩

theorem yields_pgCopyRows (h : ∀ y ∈ rows, ∃ x, SameRow jsonb r x y) :
    ∃ zs, Yields (pgCopyRows jsonb rows) (some zs) ∧
      List.Forall₂ (ReadFrom (r := r)) rows zs := by
  obtain ⟨zs, hzs, hreads⟩ := yields_pgRecords h
  cases rows with
  | nil =>
    cases hreads
    exact ⟨[], yields_pure _, .nil⟩
  | cons y rows => exact ⟨zs, Yields.bind yields_alloc hzs, hreads⟩

theorem Mirrors.exists_record (h : Mirrors jsonb r repo rows) (hy : y ∈ rows) :
    ∃ x ∈ repo.items, SameRow jsonb r x y := by
  have hrow := h.row y.id
  rw [(findKey_eq_some_iff h.keyedRows).2 ⟨hy, rfl⟩] at hrow
  generalize hx : repo.row? y.id = o at hrow
  cases hrow with
  | some hxy =>
    rw [← hxy.id] at hx
    exact ⟨_, (AvailabilityRepo.mem_items_iff h.keyed).2 hx, hxy⟩

theorem Mirrors.exists_row (h : Mirrors jsonb r repo rows) (hx : x ∈ repo.items) :
    ∃ y ∈ rows, SameRow jsonb r x y := by
  have hrow := h.row x.id
  rw [(AvailabilityRepo.mem_items_iff h.keyed).1 hx] at hrow
  generalize hy : findKey PgAvailability.id x.id rows = o at hrow
  cases hrow with
  | some hxy => exact ⟨_, ((findKey_eq_some_iff h.keyedRows).1 hy).1, hxy⟩

theorem map_id_readFrom {zs : List AvailabilityRecord}
    (h : List.Forall₂ (ReadFrom (r := r)) rows zs) :
    zs.map AvailabilityRecord.id = rows.map PgAvailability.id := by
  induction h with
  | nil => rfl
  | cons hyz _ ih => rw [List.map_cons, List.map_cons, hyz.id, ih]

/-- Both repositories find the same records. -/
theorem Mirrors.found (hr : ∀ k l, r k l → ¬r l k) (h : Mirrors jsonb r repo rows) {p t : Json}
    {dp dt : jsonb.Doc} (hp : Key r p) (ht : Key r t) (hdp : jsonb.cast p.printText = some dp)
    (hdt : jsonb.cast t.printText = some dt) {zs : List AvailabilityRecord}
    (hread : List.Forall₂ (ReadFrom (r := r)) (rows.filter (PgAvailability.At dp dt)) zs) :
    ((repo.items.filter (AvailabilityRepo.At (some p) (some t))).map recordContent).Perm
      (zs.map recordContent) := by
  have hids (xs : List AvailabilityRecord) :
      (xs.map recordContent).map RecordContent.id = xs.map AvailabilityRecord.id := by
    rw [List.map_map]
    rfl
  have hmem : (repo.items.filter (AvailabilityRepo.At (some p) (some t))).map recordContent
      |>.Nodup := by
    apply List.Nodup.of_map RecordContent.id
    rw [hids]
    exact h.keyed.sublist (List.Sublist.map _ List.filter_sublist)
  have hpg : (zs.map recordContent).Nodup := by
    apply List.Nodup.of_map RecordContent.id
    rw [hids, map_id_readFrom hread]
    exact h.keyedRows.sublist (List.Sublist.map _ List.filter_sublist)
  rw [List.perm_ext_iff_of_nodup hmem hpg]
  intro c
  rw [List.mem_map, List.mem_map]
  constructor
  · rintro ⟨x, hx, rfl⟩
    obtain ⟨hitem, hat⟩ := List.mem_filter.1 hx
    obtain ⟨y, hy, hxy⟩ := h.exists_row hitem
    rw [at_eq hr hxy hp ht hdp hdt] at hat
    obtain ⟨z, hz, hyz⟩ := exists_of_mem hread (List.mem_filter.2 ⟨hy, hat⟩)
    exact ⟨z, hz, (hyz.content x hxy).symm⟩
  · rintro ⟨z, hz, rfl⟩
    obtain ⟨y, hy, hyz⟩ := exists_of_mem hread.flip hz
    obtain ⟨hrow, hat⟩ := List.mem_filter.1 hy
    obtain ⟨x, hx, hxy⟩ := h.exists_record hrow
    rw [← at_eq hr hxy hp ht hdp hdt] at hat
    exact ⟨x, List.mem_filter.2 ⟨hx, hat⟩, hyz.content x hxy⟩

end finding

section steps

/-- Lower-case hexadecimal digits, and hyphens where a UUID text has them. -/
def isCanonicalUuid (id : String) : Bool :=
  id.toList.length == 36 && id.toList.zipIdx.all fun p =>
    if [8, 13, 18, 23].contains p.2 then p.1 == '-'
    else Binary64.isDigit p.1 || (decide ('a' ≤ p.1) && decide (p.1 ≤ 'f'))

variable (jsonb : Jsonb) (r : List Char → List Char → Prop)

/-- A call whose record has its three trees, and whose trees the columns keep. -/
def Lawful : RepoCall → Prop
  | .upsert x => isCanonicalUuid x.id = true ∧
    (∃ j, x.plmnId = some j ∧ Key r j ∧ Kept jsonb j) ∧
    (∃ j, x.tai = some j ∧ Key r j ∧ Kept jsonb j) ∧ ∃ j, x.snssais = some j ∧ Kept jsonb j
  | .patch id plmnId tai snssais _ _ _ => isCanonicalUuid id = true ∧
    (∀ j, plmnId = some j → Key r j ∧ Kept jsonb j) ∧
    (∀ j, tai = some j → Key r j ∧ Kept jsonb j) ∧ ∀ j, snssais = some j → Kept jsonb j
  | .delete id => isCanonicalUuid id = true
  | .find plmnId tai => Key r plmnId ∧ Key r tai

/-- The server takes every tree that a text can hold, and hands a canonical UUID back as it is. -/
structure Serving (uuid : String → Option String) : Prop where
  cast : ∀ j : Json, j.Proper → ∃ d, jsonb.cast j.printText = some d
  uuid : ∀ id, isCanonicalUuid id = true → uuid id = some id

variable {jsonb r} {uuid : String → Option String} {w : ServerTurn} {repo : AvailabilityRepo}
  {rows : AvailabilityTable jsonb}

theorem pgChange_granted {δ α : Type} (hw : ∀ k, w.answers k = .done) (rows : δ) (f : δ → δ)
    (result failed : α) :
    pgChange w ⟨rows, none⟩ f true result failed = (result, ⟨f rows, none⟩) := by
  have hafter : (w.after 2).answers 0 = .done := hw _
  simp only [pgChange, pgCommitted, castAck, hw, hafter, if_true, ne_eq, not_true_eq_false,
    if_false]
  rfl

theorem exists_passed (hs : Serving jsonb uuid) {P : Json → Prop} {j : Json} (hsort : P j)
    (hkept : Kept jsonb j) : ∃ d, Passed jsonb P j d := by
  obtain ⟨d, hd⟩ := hs.cast j hkept.proper
  exact ⟨d, hsort, hkept, hd⟩

theorem agree_upsert (hs : Serving jsonb uuid) (hw : ∀ k, w.answers k = .done)
    (h : Mirrors jsonb r repo rows) {x : AvailabilityRecord} (hx : Lawful jsonb r (.upsert x)) :
    ∃ rows', Yields (memCall repo (.upsert x)) (.saved true, repo.put x) ∧
      Yields (pgCall jsonb uuid w ⟨rows, none⟩ (.upsert x)) (.saved true, ⟨rows', none⟩) ∧
      Mirrors jsonb r (repo.put x) rows' := by
  obtain ⟨hid, ⟨p, hp, hkey, hkept⟩, ⟨t, ht, hkey', hkept'⟩, s, hsn, hkept''⟩ := hx
  obtain ⟨dp, hdp⟩ := exists_passed hs hkey hkept
  obtain ⟨dt, hdt⟩ := exists_passed hs hkey' hkept'
  obtain ⟨ds, hds⟩ := exists_passed (P := fun _ => True) hs trivial hkept''
  refine ⟨_, Yields.bind (AvailabilityRepo.yields_memUpsert repo x) (yields_pure _), ?_,
    h.upsert (y := ⟨x.id, dp, dt, ds, x.amfSetId, x.reallocationIndication⟩)
      ⟨rfl, ⟨p, hp, hdp⟩, ⟨t, ht, hdt⟩, ⟨s, hsn, hds⟩, rfl, rfl⟩⟩
  refine Yields.bind (a := (true, _)) ?_ (yields_pure _)
  unfold pgUpsert
  rw [hp, ht, hsn]
  refine Yields.bind (yields_allocated _) (Yields.bind (yields_allocated _)
    (Yields.bind (yields_allocated _) ?_))
  dsimp only
  rw [hs.uuid _ hid, hdp.cast, hdt.cast, hds.cast]
  dsimp only
  rw [pgChange_granted hw]
  exact yields_pure _

theorem castParam_some {P : Json → Prop} {v : Option Json} {d : Option jsonb.Doc}
    (h : Option.Rel (Passed jsonb P) v d) :
    castParam jsonb (v.map Json.printText) = some d ∧ bound v (v.map Json.printText) = true := by
  cases h with
  | none => exact ⟨rfl, rfl⟩
  | some hpassed =>
    refine ⟨?_, rfl⟩
    rw [Option.map_some, castParam, hpassed.cast, Option.map_some]

theorem yields_jsonbText (v : Option Json) : Yields (jsonbText v) (v.map Json.printText) := by
  cases v with
  | none => exact yields_pure none
  | some j => exact yields_allocated _

theorem exists_param (hs : Serving jsonb uuid) {P : Json → Prop} {v : Option Json}
    (h : ∀ j, v = some j → P j ∧ Kept jsonb j) : ∃ d, Option.Rel (Passed jsonb P) v d := by
  cases v with
  | none => exact ⟨none, .none⟩
  | some j =>
    obtain ⟨hsort, hkept⟩ := h j rfl
    obtain ⟨d, hd⟩ := exists_passed hs hsort hkept
    exact ⟨some d, .some hd⟩

theorem yields_memPatch (hkeyed : repo.Keyed) (id : String) (plmnId tai snssais : Option Json)
    (amfSetId : Option String) (set indication : Bool) :
    Yields (repo.memPatch id plmnId tai snssais amfSetId set indication)
      (if (repo.row? id).isSome then (.done, ⟨updateKey AvailabilityRecord.id id
        (patchRecord plmnId tai snssais amfSetId set indication) repo.items⟩)
      else (.noRow, repo)) := by
  unfold AvailabilityRepo.memPatch
  cases hindex : repo.indexOf id with
  | none =>
    have hnone : repo.row? id = none :=
      findKey_eq_none_iff.2 (AvailabilityRepo.indexOf_eq_none hindex)
    rw [hnone]
    exact yields_pure _
  | some i =>
    obtain ⟨x, hx, hid⟩ := AvailabilityRepo.indexOf_getElem hindex
    have hsome : repo.row? id = some x :=
      (findKey_eq_some_iff hkeyed).2 ⟨List.mem_of_getElem? hx, hid⟩
    have hmodify := modify_eq_updateKey hkeyed hx
      (patchRecord plmnId tai snssais amfSetId set indication)
    rw [hid] at hmodify
    rw [hsome, ← hmodify]
    exact Yields.bind (makes_recordCopy _).granted (yields_pure _)

theorem Mirrors.isSome_eq (h : Mirrors jsonb r repo rows) (id : String) :
    (repo.row? id).isSome = rows.any (·.id == id) := by
  rw [any_id]
  have hrow := h.row id
  generalize repo.row? id = u at hrow ⊢
  generalize findKey PgAvailability.id id rows = v at hrow ⊢
  cases hrow <;> rfl

theorem updateKey_eq_self {id : String} (h : rows.any (·.id == id) = false)
    (f : PgAvailability jsonb → PgAvailability jsonb) :
    updateKey PgAvailability.id id f rows = rows :=
  updateKey_of_forall_ne (any_id_eq_false h)

theorem agree_patch (hs : Serving jsonb uuid) (hw : ∀ k, w.answers k = .done)
    (h : Mirrors jsonb r repo rows) {id : String} {plmnId tai snssais : Option Json}
    {amfSetId : Option String} {set indication : Bool}
    (hx : Lawful jsonb r (.patch id plmnId tai snssais amfSetId set indication)) :
    ∃ c repo' rows',
      Yields (memCall repo (.patch id plmnId tai snssais amfSetId set indication))
        (.code c, repo') ∧
      Yields (pgCall jsonb uuid w ⟨rows, none⟩
        (.patch id plmnId tai snssais amfSetId set indication)) (.code c, ⟨rows', none⟩) ∧
      Mirrors jsonb r repo' rows' := by
  obtain ⟨hid, hp, ht, hsn⟩ := hx
  obtain ⟨dp, hdp⟩ := exists_param hs hp
  obtain ⟨dt, hdt⟩ := exists_param hs ht
  obtain ⟨ds, hds⟩ := exists_param (P := fun _ => True) hs fun j hj => ⟨trivial, hsn j hj⟩
  have hmem := yields_memPatch h.keyed id plmnId tai snssais amfSetId set indication
  have hpg : Yields (pgPatch jsonb uuid w ⟨rows, none⟩ id plmnId tai snssais amfSetId set
      indication) (if rows.any (·.id == id) then RepoCode.done else .noRow,
        ⟨updateKey PgAvailability.id id (patchRow dp dt ds amfSetId set indication) rows,
          none⟩) := by
    unfold pgPatch
    refine Yields.bind (yields_jsonbText _) (Yields.bind (yields_jsonbText _)
      (Yields.bind (yields_jsonbText _) ?_))
    rw [(castParam_some hdp).2, (castParam_some hdt).2, (castParam_some hds).2, Bool.and_self,
      Bool.and_self, if_pos rfl, hs.uuid _ hid, (castParam_some hdp).1, (castParam_some hdt).1,
      (castParam_some hds).1]
    dsimp only
    rw [pgChange_granted hw]
    exact yields_pure _
  have hpatch := h.patch hdp hdt hds amfSetId set indication id
  rw [h.isSome_eq id] at hmem
  cases hany : rows.any (·.id == id) with
  | true =>
    rw [hany, if_pos rfl] at hmem hpg
    exact ⟨_, _, _, Yields.bind hmem (yields_pure _), Yields.bind hpg (yields_pure _), hpatch⟩
  | false =>
    rw [hany, if_neg Bool.false_ne_true] at hmem hpg
    rw [updateKey_eq_self hany] at hpg
    exact ⟨_, _, _, Yields.bind hmem (yields_pure _), Yields.bind hpg (yields_pure _), h⟩

theorem agree_delete (hs : Serving jsonb uuid) (hw : ∀ k, w.answers k = .done)
    (h : Mirrors jsonb r repo rows) {id : String} (hid : isCanonicalUuid id = true) :
    ∃ c repo' rows', Yields (memCall repo (.delete id)) (.code c, repo') ∧
      Yields (pgCall jsonb uuid w ⟨rows, none⟩ (.delete id)) (.code c, ⟨rows', none⟩) ∧
      Mirrors jsonb r repo' rows' := by
  have hfilter : (rows.filter fun x => x.id != id) = removeKey PgAvailability.id id rows := by
    apply List.filter_congr
    intro y _
    rw [Bool.eq_iff_iff]
    simp
  have hpg : pgDelete jsonb uuid w ⟨rows, none⟩ id =
      (if rows.any (·.id == id) then RepoCode.done else .noRow,
        ⟨removeKey PgAvailability.id id rows, none⟩) := by
    unfold pgDelete
    rw [hs.uuid _ hid]
    dsimp only
    rw [pgChange_granted hw, hfilter]
    rfl
  have hisSome := h.isSome_eq id
  rcases AvailabilityRepo.memDelete_cases repo h.keyed id with
    ⟨hmem, hrow⟩ | ⟨repo', x, hmem, hrow, hkeyed, hrest⟩
  · rw [hrow, Option.isSome_none] at hisSome
    rw [← hisSome, if_neg Bool.false_ne_true, removeKey_of_forall_ne (any_id_eq_false hisSome.symm)]
      at hpg
    refine ⟨.noRow, repo, rows, ?_, ?_, h⟩
    · rw [memCall, hmem]
      exact yields_pure _
    · rw [pgCall, hpg]
      exact yields_pure _
  · rw [hrow, Option.isSome_some] at hisSome
    rw [← hisSome, if_pos rfl] at hpg
    refine ⟨.done, repo', _, ?_, ?_, h.delete hkeyed hrest⟩
    · rw [memCall, hmem]
      exact yields_pure _
    · rw [pgCall, hpg]
      exact yields_pure _

theorem agree_find (hr : ∀ k l, r k l → ¬r l k) (hs : Serving jsonb uuid)
    (hw : ∀ k, w.answers k = .done) (h : Mirrors jsonb r repo rows) {p t : Json} (hp : Key r p)
    (ht : Key r t) : ∃ xs ys, Yields (memCall repo (.find p t)) (.found (some xs), repo) ∧
      Yields (pgCall jsonb uuid w ⟨rows, none⟩ (.find p t)) (.found (some ys), ⟨rows, none⟩) ∧
      (xs.map recordContent).Perm (ys.map recordContent) := by
  obtain ⟨dp, hdp⟩ := hs.cast p hp.proper
  obtain ⟨dt, hdt⟩ := hs.cast t ht.proper
  have hfound : ∀ y ∈ rows.filter (PgAvailability.At dp dt), ∃ x, SameRow jsonb r x y := by
    intro y hy
    obtain ⟨x, -, hxy⟩ := h.exists_record (List.mem_filter.1 hy).1
    exact ⟨x, hxy⟩
  obtain ⟨ys, hys, hread⟩ := yields_pgCopyRows hfound
  refine ⟨_, ys, Yields.bind (AvailabilityRepo.yields_memFindForPlmnTai repo _ _) (yields_pure _),
    ?_, h.found hr hp ht hdp hdt hread⟩
  refine Yields.bind (a := (some ys, _)) ?_ (yields_pure _)
  unfold pgFindForPlmnTai
  refine Yields.bind (yields_allocated _) (Yields.bind (yields_allocated _) ?_)
  dsimp only
  rw [hdp, hdt]
  dsimp only
  rw [hw 0, if_pos rfl]
  exact Yields.bind hys (yields_pure _)

/-- One call answers alike on both repositories, and leaves them with the same rows. -/
theorem agree_call (hr : ∀ k l, r k l → ¬r l k) (hs : Serving jsonb uuid)
    (hw : ∀ k, w.answers k = .done) (h : Mirrors jsonb r repo rows) {c : RepoCall}
    (hc : Lawful jsonb r c) : ∃ a b repo' rows', Yields (memCall repo c) (a, repo') ∧
      Yields (pgCall jsonb uuid w ⟨rows, none⟩ c) (b, ⟨rows', none⟩) ∧ Agree a b ∧
      Mirrors jsonb r repo' rows' := by
  cases c with
  | upsert x =>
    obtain ⟨rows', hmem, hpg, hrows⟩ := agree_upsert hs hw h hc
    exact ⟨_, _, _, rows', hmem, hpg, .saved true, hrows⟩
  | patch id plmnId tai snssais amfSetId set indication =>
    obtain ⟨c, repo', rows', hmem, hpg, hrows⟩ := agree_patch hs hw h hc
    exact ⟨_, _, repo', rows', hmem, hpg, .code c, hrows⟩
  | delete id =>
    obtain ⟨c, repo', rows', hmem, hpg, hrows⟩ := agree_delete hs hw h hc
    exact ⟨_, _, repo', rows', hmem, hpg, .code c, hrows⟩
  | find p t =>
    obtain ⟨xs, ys, hmem, hpg, hperm⟩ := agree_find hr hs hw h hc.1 hc.2
    exact ⟨_, _, repo, rows, hmem, hpg, .found hperm, h⟩

theorem agree_calls (hr : ∀ k l, r k l → ¬r l k) (hs : Serving jsonb uuid) {cs : List RepoCall}
    (hcs : ∀ c ∈ cs, Lawful jsonb r c) {turns : ℕ → ServerTurn}
    (hturns : ∀ n k, (turns n).answers k = .done) (h : Mirrors jsonb r repo rows) :
    ∃ as bs, Yields (memCalls cs repo) as ∧
      Yields (pgCalls jsonb uuid turns cs ⟨rows, none⟩) bs ∧ List.Forall₂ Agree as bs := by
  induction cs generalizing repo rows turns with
  | nil => exact ⟨[], [], yields_pure _, yields_pure _, .nil⟩
  | cons c cs ih =>
    obtain ⟨a, b, repo', rows', hmem, hpg, hagree, hrows⟩ :=
      agree_call hr hs (hturns 0) h (hcs c List.mem_cons_self)
    obtain ⟨as, bs, hmems, hpgs, hagrees⟩ := ih (fun c hc => hcs c (List.mem_cons_of_mem _ hc))
      (fun n k => hturns (n + 1) k) hrows
    exact ⟨a :: as, b :: bs, Yields.bind hmem (Yields.bind hmems (yields_pure _)),
      Yields.bind hpg (Yields.bind hpgs (yields_pure _)), .cons hagree hagrees⟩

/-- From the empty repositories on, the answers agree call for call. -/
theorem repositories_agree (hr : ∀ k l, r k l → ¬r l k) (hs : Serving jsonb uuid)
    (cs : List RepoCall) (hcs : ∀ c ∈ cs, Lawful jsonb r c) (turns : ℕ → ServerTurn)
    (hturns : ∀ n k, (turns n).answers k = .done) :
    ∃ as bs, Yields (memCalls cs .newInmemory) as ∧
      Yields (pgCalls jsonb uuid turns cs ⟨[], none⟩) bs ∧ List.Forall₂ Agree as bs :=
  agree_calls hr hs hcs hturns mirrors_empty

end steps

section sample

theorem kept_keptJsonb {j : Json} (hproper : j.Proper) (hdepth : j.depth ≤ Json.nestingLimit) :
    Kept keptJsonb j where
  proper := hproper
  back d hd := by
    have hexists : ∃ i : Json, i.Proper ∧ i.printText = j.printText := ⟨j, hproper, rfl⟩
    have htext : keptJsonb.text d = j.printText := by
      have hcast : printedTree j.printText = some d := hd
      rw [printedTree, dif_pos hexists] at hcast
      rw [← Option.some.inj hcast]
      exact hexists.choose_spec.2
    refine ⟨_, htext ▸ Json.parseText_printText hproper.nulFree hdepth, ?_⟩
    rw [Json.value_written]

theorem serving_keptJsonb : Serving keptJsonb some where
  cast _ h := exists_printedTree h
  uuid _ _ := rfl

def sampleId : String := "4947a69a-f61b-4bc1-b9da-47c9c5d14b64"

/-- A PLMN identity spelled as one string. -/
def samplePlmn : Json := .string "45005"

def sampleTai : Json := .object [("plmnId", samplePlmn), ("tac", .string "000001")]

def sampleSlices : Json := .array [.object [("sd", .string "000001")]]

def sampleRecord : AvailabilityRecord :=
  ⟨sampleId, some samplePlmn, some sampleTai, some sampleSlices, none, false⟩

def before (k l : List Char) : Prop := k = "plmnId".toList ∧ l = "tac".toList

theorem key_samplePlmn : Key before samplePlmn := ⟨Json.proper_word rfl, trivial, trivial⟩

theorem key_sampleTai : Key before sampleTai where
  proper := ⟨Json.proper_word rfl, Json.proper_word rfl, Json.proper_word rfl,
    Json.proper_word rfl, trivial⟩
  ordered := by
    refine ⟨?_, trivial, trivial, trivial⟩
    refine List.pairwise_cons.2 ⟨?_, List.pairwise_singleton _ _⟩
    intro l hl
    exact ⟨rfl, List.mem_singleton.1 hl⟩
  plain := ⟨trivial, trivial, trivial⟩

theorem repositories_agree_sample : ∃ as bs,
    Yields (memCalls [.upsert sampleRecord, .find samplePlmn sampleTai] .newInmemory) as ∧
      Yields (pgCalls keptJsonb some (fun _ => ⟨0, 0, fun _ => .done⟩)
        [.upsert sampleRecord, .find samplePlmn sampleTai] ⟨[], none⟩) bs ∧
      List.Forall₂ Agree as bs := by
  have hplmn := kept_keptJsonb key_samplePlmn.proper (by decide)
  have htai := kept_keptJsonb key_sampleTai.proper (by decide)
  have hslices : Kept keptJsonb sampleSlices :=
    kept_keptJsonb ⟨⟨Json.proper_word rfl, Json.proper_word rfl, trivial⟩, trivial⟩ (by decide)
  have hcanonical : isCanonicalUuid sampleId = true := by decide +kernel
  refine repositories_agree (r := before) ?_ serving_keptJsonb _ ?_ _ fun _ _ => rfl
  · rintro k l ⟨rfl, rfl⟩ ⟨h, -⟩
    exact absurd h (by decide)
  · intro c hc
    rcases List.mem_cons.1 hc with rfl | hc
    · exact ⟨hcanonical, ⟨_, rfl, key_samplePlmn, hplmn⟩, ⟨_, rfl, key_sampleTai, htai⟩, _, rfl,
        hslices⟩
    · obtain rfl := List.mem_singleton.1 hc
      exact ⟨key_samplePlmn, key_sampleTai⟩

/-- A record without slices is stored in memory and refused by the other repository. -/
theorem repositories_disagree :
    isCanonicalUuid sampleId = true ∧ Key before samplePlmn ∧ Key before sampleTai ∧
    ∃ x : AvailabilityRecord, x.id = sampleId ∧ x.plmnId = some samplePlmn ∧
      x.tai = some sampleTai ∧
      Yields (memCall .newInmemory (.upsert x)) (.saved true, ⟨[x]⟩) ∧
      (∀ w : ServerTurn, Yields (pgCall keptJsonb some w ⟨[], none⟩ (.upsert x))
        (.saved false, ⟨[], none⟩)) ∧
      ¬Agree (.saved true) (.saved false) := by
  refine ⟨by decide +kernel, key_samplePlmn, key_sampleTai,
    ⟨sampleId, some samplePlmn, some sampleTai, none, none, false⟩, rfl, rfl, rfl, ?_, ?_, ?_⟩
  · exact Yields.bind (AvailabilityRepo.yields_memUpsert _ _) (yields_pure _)
  · intro w
    refine Yields.bind (a := (false, _)) ?_ (yields_pure _)
    exact Yields.bind (yields_allocated _) (Yields.bind (yields_allocated _)
      (Yields.bind (yields_pure none) (yields_pure _)))
  · intro h
    cases h

end sample

end Nssf.PgRepo
