import Nssf.Base.Session
import Nssf.Subscription.PatchFrame

/-! The subscription store in PostgreSQL, command by command, and what a patch does to the
lifetime of a subscription. The expiry is an instant in the table and a text on the way through
the patch; the text says UTC but shows the local time of the session, without the fraction of
the second. -/

namespace Nssf.Pg

open Base Run Subscription SubscriptionStore

/-- The first second of the common era. -/
def commonEra : ℤ := -62135596800

/-- The column types of the server, as far as the store relies on them: the zone of the session
in seconds at an instant, `to_char` of a local time in seconds, the cast of such a text to an
instant in microseconds, the text that a `jsonb` column hands back, and the spelling that a
`uuid` column gives to a text it takes. -/
structure SqlTypes where
  offset : ℤ → ℤ
  localText : ℤ → String
  instant : String → Option ℤ
  jsonb : String → String
  uuid : String → Option String
  offset_lt : ∀ t, |offset t| < 86400
  -- the literal `Z` of the format makes the cast read the text as UTC
  reads : ∀ s, commonEra ≤ s → instant (localText s) = some (1000000 * s)
  -- the format has no era: an earlier year comes back as one at least a year later
  reads_before : ∀ s t, s < commonEra → instant (localText s) = some t →
    1000000 * (s + 365 * 86400) ≤ t

/-- `to_char(expiry_at, 'YYYY-MM-DD"T"HH24:MI:SS"Z"')`. -/
def SqlTypes.toChar (sql : SqlTypes) (t : ℤ) : String :=
  sql.localText ((t + 1000000 * sql.offset t) / 1000000)

/-- `id` is the primary key. -/
structure PgSubscription where
  id : String
  callbackUrl : String
  filter : String
  expiryAt : Option ℤ
  amfId : Option String
  amfSetId : Option String
  tombstone : Bool
  deriving DecidableEq

abbrev SubscriptionTable := List PgSubscription

/-- `WHERE id = $1::uuid AND tombstone = FALSE`. -/
def namedRow (sql : SqlTypes) (id : String) (x : PgSubscription) : Bool :=
  sql.uuid id == some x.id && !x.tombstone

/-- The columns of a live row, copied into a record. -/
def pgRecord (sql : SqlTypes) (x : PgSubscription) : Run (Option SubscriptionRecord) := do
  match ← allocated x.callbackUrl with
  | none => return none
  | some callbackUri =>
    match ← Json.parse x.filter with
    | none => return none
    | some filter =>
      match ← copyField (x.expiryAt.map sql.toChar) with
      | none => return none
      | some expiryAt =>
        match ← copyField x.amfId with
        | none => return none
        | some amfId =>
          match ← copyField x.amfSetId with
          | none => return none
          | some amfSetId =>
            return some ⟨.cut x.id, some callbackUri, some filter, amfId, amfSetId, expiryAt, false⟩

def pgGet (sql : SqlTypes) (w : ServerTurn) (s : Session SubscriptionTable) (id : String) :
    Run (Got × Session SubscriptionTable) := do
  let a := castAck (sql.uuid id).isSome (w.answers 0)
  let read := s.exec (fun rows => rows) a
  if a = .done then
    match s.view.find? (namedRow sql id) with
    | none => return (.absent, read)
    | some x =>
      match ← pgRecord sql x with
      | none => return (.failed, read)
      | some record => return (.found record, read)
  else return (.failed, read)

def pgInsert (sql : SqlTypes) (w : ServerTurn) (s : Session SubscriptionTable) (id : RecordId)
    (callbackUri : String) (filter : Json) (amfId amfSetId expiryAt : Option String) :
    Run (Bool × Session SubscriptionTable) := do
  match ← filter.print with
  | none => return (false, s)
  | some text =>
    let key := sql.uuid id.text
    let x : PgSubscription := ⟨key.getD id.text, callbackUri, sql.jsonb text,
      expiryAt.bind sql.instant, amfId, amfSetId, false⟩
    let valid := key.isSome && expiryAt.all (fun t => (sql.instant t).isSome) &&
      !s.view.any (·.id == x.id)
    return pgChange w s (· ++ [x]) valid true false

def pgRemove (sql : SqlTypes) (w : ServerTurn) (s : Session SubscriptionTable) (id : String) :
    Bool × Session SubscriptionTable :=
  pgChange w s (List.filter fun x => sql.uuid id != some x.id) (sql.uuid id).isSome true false

def pgTombstone (sql : SqlTypes) (w : ServerTurn) (s : Session SubscriptionTable) (id : String) :
    Bool × Session SubscriptionTable :=
  pgChange w s
    (List.map fun x => if sql.uuid id = some x.id then { x with tombstone := true } else x)
    (sql.uuid id).isSome true false

def replaceRow (sql : SqlTypes) (id callbackUri filter : String) (expiryAt : Option ℤ)
    (x : PgSubscription) : PgSubscription :=
  if namedRow sql id x then
    { x with callbackUrl := callbackUri, filter := filter, expiryAt := expiryAt }
  else x

def pgReplace (sql : SqlTypes) (w : ServerTurn) (s : Session SubscriptionTable) (id : String)
    (fields : PatchedFields) : Run (RepoCode × Session SubscriptionTable) := do
  match ← fields.filter.print with
  | none => return (.failed, s)
  | some text =>
    let expiryAt := fields.expiry.bind sql.instant
    let valid := (sql.uuid id).isSome && fields.expiry.all (fun t => (sql.instant t).isSome)
    let affected := s.view.any (namedRow sql id)
    return pgChange w s
      (List.map (replaceRow sql id fields.callbackUri (sql.jsonb text) expiryAt)) valid
      (if affected then .done else .noRow) .failed

def pgPatchRecord (sql : SqlTypes) (w : ServerTurn) (s : Session SubscriptionTable) (id : String)
    (x : SubscriptionRecord) (doc : Json) : Run (SubResult × Session SubscriptionTable) := do
  match ← applyPatchAtomic x doc with
  | none => return (.badPatch, s)
  | some fields =>
    match ← pgReplace sql w s id fields with
    | (.noRow, s) => return (.notFound, s)
    | (.done, s) => return (.ok, s)
    | (.failed, s) => return (.error, s)

/-- The patch of the store, with the backend behind it. -/
def pgPatch (sql : SqlTypes) (w : ServerTurn) (s : Session SubscriptionTable)
    (id contentType : Option String) (patchDoc : Option Json) :
    Run (SubResult × Session SubscriptionTable) :=
  match id, patchDoc with
  | some id, some doc =>
    if patchContentTypeOk contentType then do
      match ← pgGet sql w s id with
      | (.absent, s) => return (.notFound, s)
      | (.failed, s) => return (.error, s)
      | (.found x, s) => pgPatchRecord sql (w.after 1) s id x doc
    else pure (.unsupported, s)
  | _, _ => pure (.error, s)

section changes

variable {w : ServerTurn} {s s' : Session SubscriptionTable}

theorem pgReplace_done {sql : SqlTypes} {id : String} {fields : PatchedFields} {e e' : Env}
    (h : pgReplace sql w s id fields e = .ok ((.done, s'), e')) :
    ∃ filter, fields.expiry.all (fun t => (sql.instant t).isSome) = true ∧
      s'.view = s.view.map
        (replaceRow sql id fields.callbackUri filter (fields.expiry.bind sql.instant)) := by
  obtain ⟨o, e₁, -, h⟩ := Prog.bind_eq_ok.1 h
  cases o with
  | none => cases h
  | some text =>
    have hchange := congrArg Prod.fst (Except.ok.inj h)
    obtain ⟨-, hvalid, hview⟩ := pgChange_done hchange (by simp)
    exact ⟨sql.jsonb text, (Bool.and_eq_true_iff.1 hvalid).2, hview ▸ rfl⟩

end changes

section lifetime

variable {sql : SqlTypes} {w : ServerTurn} {s s' : Session SubscriptionTable} {x : PgSubscription}
  {e e' : Env}

theorem spends_pgRecord {filter : Json} (h : Json.parseText x.filter = some filter) :
    Spends (1 + (1 + ((x.expiryAt.map sql.toChar).toList.length + (x.amfId.toList.length +
      (x.amfSetId.toList.length + 0))))) (pgRecord sql x)
      ⟨.cut x.id, some x.callbackUrl, some filter, x.amfId, x.amfSetId,
        x.expiryAt.map sql.toChar, false⟩ := by
  refine Spends.bind (spends_allocated x.callbackUrl) rfl ?_
  refine Spends.bind (spends_parse h) rfl ?_
  refine Spends.bind (spends_copyField _) rfl ?_
  refine Spends.bind (spends_copyField x.amfId) rfl ?_
  refine Spends.bind (spends_copyField x.amfSetId) rfl ?_
  exact spends_pure _

theorem pgRecord_filter {record : SubscriptionRecord}
    (h : pgRecord sql x e = .ok (some record, e')) :
    ∃ filter, Json.parseText x.filter = some filter := by
  obtain ⟨o, e₁, -, h⟩ := Prog.bind_eq_ok.1 h
  cases o with
  | none => cases h
  | some callbackUri =>
    obtain ⟨o, e₂, hparse, h⟩ := Prog.bind_eq_ok.1 h
    cases o with
    | none => cases h
    | some filter =>
      rcases ((gives_parse (F := fun _ => False) x.filter).of_ok hparse).1 with hnone | hsome
      · cases hnone
      · exact ⟨filter, hsome.symm⟩

theorem addStringToObject_ok {obj obj' : Json} {name value : String}
    (h : obj.addStringToObject name value e = .ok (obj', e')) :
    obj' = (if e.alloc.head then obj.addItem name (.string value) else obj) ∧
      e'.alloc = e.alloc.tail := by
  simp only [Json.addStringToObject, Prog.bind_of_ok (alloc_apply e)] at h
  cases hhead : e.alloc.head with
  | false =>
    rw [hhead] at h
    cases h
    exact ⟨rfl, rfl⟩
  | true =>
    rw [hhead] at h
    cases h
    exact ⟨rfl, rfl⟩

theorem addFilter_some {obj obj' filter : Json}
    (h : addFilter obj (some filter) e = .ok (some obj', e')) :
    (obj' = obj.addItem "filter" filter ∨ obj' = obj) ∧ e'.alloc = e.alloc.drop 2 := by
  simp only [addFilter] at h
  obtain ⟨o, e₁, hcopy, hrest⟩ := Prog.bind_eq_ok.1 h
  cases o with
  | none => cases hrest
  | some copy =>
    obtain ⟨hcopied, hdrop⟩ := spends_allocated filter e e₁ copy hcopy
    obtain ⟨obj₁, e₂, hadd, hrest⟩ := Prog.bind_eq_ok.1 hrest
    rw [hcopied] at hadd
    cases hrest
    simp only [Json.addItemToObject, Prog.bind_of_ok (alloc_apply e₁)] at hadd
    have htail : e₁.popAlloc.alloc = e.alloc.drop 2 := by
      rw [← Stream'.drop_drop 1 1, ← hdrop]
      rfl
    cases hhead : e₁.alloc.head with
    | false =>
      rw [hhead] at hadd
      cases hadd
      exact ⟨Or.inr rfl, htail⟩
    | true =>
      rw [hhead] at hadd
      cases hadd
      exact ⟨Or.inl rfl, htail⟩

/-- The working tree of a patch holds the lifetime if there was memory for that member. -/
theorem buildResource_expiry {r : SubscriptionRecord} {callbackUri text : String}
    {filter tree : Json} (hcb : r.callbackUri = some callbackUri)
    (hfilter : r.filter = some filter) (hexpiry : r.expiryAt = some text)
    (h : buildResource r e = .ok (some tree, e')) :
    tree.member? "expiry" = if e.alloc.get 4 then some (.string text) else none := by
  simp only [buildResource, hcb, hfilter, hexpiry, addOptionalString] at h
  obtain ⟨o, e₁, hcreate, h⟩ := Prog.bind_eq_ok.1 h
  cases o with
  | none => cases h
  | some empty =>
    obtain ⟨rfl, hdrop₁⟩ := spends_allocated _ e e₁ empty hcreate
    obtain ⟨obj₁, e₂, huri, h⟩ := Prog.bind_eq_ok.1 h
    obtain ⟨hobj₁, hdrop₂⟩ := addStringToObject_ok huri
    obtain ⟨o, e₃, hadd, h⟩ := Prog.bind_eq_ok.1 h
    cases o with
    | none => cases h
    | some obj₂ =>
      obtain ⟨hobj₂, hdrop₃⟩ := addFilter_some hadd
      obtain ⟨obj₃, e₄, hlast, h⟩ := Prog.bind_eq_ok.1 h
      cases h
      obtain ⟨hobj₃, -⟩ := addStringToObject_ok hlast
      have hhead : e₃.alloc.head = e.alloc.get 4 := by
        rw [hdrop₃, hdrop₂, hdrop₁]
        rfl
      have hfree₁ : obj₁.member? "expiry" = none := by
        rw [hobj₁]
        split_ifs
        · exact Json.member?_addItem (by decide) _
        · rfl
      have hfree₂ : obj₂.member? "expiry" = none := by
        rcases hobj₂ with rfl | rfl
        · exact (Json.member?_addItem (by decide) _).trans hfree₁
        · exact hfree₁
      rw [hobj₃, hhead]
      have hobject₁ : obj₁.isObject = true := by
        rw [hobj₁]
        split_ifs
        · exact Json.isObject_addItem rfl _ _
        · rfl
      have hobject₂ : obj₂.isObject = true := by
        rcases hobj₂ with rfl | rfl
        · exact Json.isObject_addItem hobject₁ _ _
        · exact hobject₁
      split_ifs
      · exact Json.member?_addItem_self hobject₂ hfree₂ _
      · exact hfree₂

/-- No operation of the document has the lifetime as its path, or moves it away. -/
def SparesExpiry (doc : Json) : Prop :=
  ∀ ops, doc = .array ops → ∀ op ∈ ops,
    op.member? "path" ≠ some (.string "/expiry") ∧
      (op.member? "op" = some (.string "move") → op.member? "from" ≠ some (.string "/expiry"))

theorem SparesExpiry.avoids {ops : List Json} (h : SparesExpiry (.array ops)) :
    ∀ op ∈ ops, Avoids "expiry" op := by
  intro op hop
  have hspelled {pointer : String} (hpath : pointerPath pointer = some ["expiry"]) :
      pointer = "/expiry" :=
    String.ext (pointer_of_path hpath (by simp))
  obtain ⟨hpath, hsource⟩ := h ops rfl op hop
  constructor
  · intro pointer hpointer hexpiry
    rw [hspelled hexpiry] at hpointer
    exact hpath hpointer
  · intro hmove pointer hpointer hexpiry
    rw [hspelled hexpiry] at hpointer
    exact hsource hmove hpointer

/-- The allocation that the patch makes for the member of the lifetime. -/
def expiryAllocation (x : PgSubscription) : ℕ :=
  7 + x.amfId.toList.length + x.amfSetId.toList.length

/-- What comes back is the text that was read, if there was memory for it. -/
theorem applyPatchAtomic_expiry {record : SubscriptionRecord} {doc : Json}
    {fields : PatchedFields} {callbackUri text : String} {filter : Json}
    (hcb : record.callbackUri = some callbackUri) (hfilter : record.filter = some filter)
    (hexpiry : record.expiryAt = some text) (hspare : SparesExpiry doc)
    (h : applyPatchAtomic record doc e = .ok (some fields, e')) :
    fields.expiry = if e.alloc.get 4 then some text else none := by
  cases doc with
  | array ops =>
    simp only [applyPatchAtomic, patchedTree] at h
    obtain ⟨o, e₂, htree, h⟩ := Prog.bind_eq_ok.1 h
    obtain ⟨o₁, e₁, hbuild, htree⟩ := Prog.bind_eq_ok.1 htree
    cases o₁ with
    | none =>
      cases htree
      cases h
    | some tree =>
      cases o with
      | none => cases h
      | some tree' =>
        have hobj := ((gives_buildResource (F := fun _ => False) record).of_ok hbuild).1 tree rfl
        have hobj' := (applyAllOps_objectIfSome hobj ops htree).1 tree' rfl
        have hmember := buildResource_expiry hcb hfilter hexpiry hbuild
        have hleaf : tree.Leaf "expiry" := by
          intro v hv
          rw [hmember] at hv
          split_ifs at hv
          cases hv
          rfl
        have hkept := kept_applyAllOps hobj hleaf hspare.avoids htree
        have hfields := ((gives_extractFields (F := fun _ => False) hobj').of_ok h).1 fields rfl
        rw [hfields.2.2, hkept, hmember]
        split_ifs
        · rfl
        · rfl
  | _ => cases h

/-- The trip of an instant through its text. -/
theorem SqlTypes.instant_toChar_iff (sql : SqlTypes) {t t' : ℤ}
    (h : sql.instant (sql.toChar t) = some t') :
    t' = t ↔ sql.offset t = 0 ∧ 1000000 ∣ t ∧ 1000000 * commonEra ≤ t := by
  have hlt := abs_lt.1 (sql.offset_lt t)
  simp only [SqlTypes.toChar] at h
  by_cases hera : commonEra ≤ (t + 1000000 * sql.offset t) / 1000000
  · rw [sql.reads _ hera] at h
    have ht := Option.some.inj h
    simp only [commonEra] at hera ⊢
    omega
  · have ht := sql.reads_before _ t' (not_le.1 hera) h
    simp only [commonEra] at hera ⊢
    omega

theorem pgGet_found {id : String} {record : SubscriptionRecord}
    (h : pgGet sql w s id e = .ok ((.found record, s'), e')) :
    s'.view = s.view ∧ ∃ y, s.view.find? (namedRow sql id) = some y ∧
      pgRecord sql y e = .ok (some record, e') := by
  simp only [pgGet] at h
  split_ifs at h with ha
  · cases hy : s.view.find? (namedRow sql id) with
    | none =>
      rw [hy] at h
      cases h
    | some y =>
      rw [hy] at h
      obtain ⟨o, e₁, hrecord, hrest⟩ := Prog.bind_eq_ok.1 h
      cases o with
      | none => cases hrest
      | some read =>
        cases hrest
        refine ⟨?_, y, rfl, hrecord⟩
        rw [ha]
        exact Session.view_exec_done _
  · cases h

theorem pgPatch_ok {id : String} {contentType : Option String} {doc : Json}
    (h : pgPatch sql w s (some id) contentType (some doc) e = .ok ((.ok, s'), e')) :
    ∃ y record fields e₁ e₂ filter, s.view.find? (namedRow sql id) = some y ∧
      pgRecord sql y e = .ok (some record, e₁) ∧
      applyPatchAtomic record doc e₁ = .ok (some fields, e₂) ∧
      fields.expiry.all (fun t => (sql.instant t).isSome) = true ∧
      s'.view = s.view.map
        (replaceRow sql id fields.callbackUri filter (fields.expiry.bind sql.instant)) := by
  simp only [pgPatch] at h
  split_ifs at h with hct
  · obtain ⟨⟨got, s₁⟩, e₁, hget, hrest⟩ := Prog.bind_eq_ok.1 h
    cases got with
    | absent => cases hrest
    | failed => cases hrest
    | found record =>
      obtain ⟨hview, y, hy, hrecord⟩ := pgGet_found hget
      obtain ⟨o, e₂, hpatch, hrest⟩ := Prog.bind_eq_ok.1 hrest
      cases o with
      | none => cases hrest
      | some fields =>
        obtain ⟨⟨code, s₂⟩, e₃, hreplace, hrest⟩ := Prog.bind_eq_ok.1 hrest
        cases code with
        | noRow => cases hrest
        | failed => cases hrest
        | done =>
          cases hrest
          obtain ⟨filter, hvalid, hmap⟩ := pgReplace_done hreplace
          exact ⟨y, record, fields, e₁, e₂, filter, hy, hrecord, hpatch, hvalid, hview ▸ hmap⟩
  · cases h

theorem id_replaceRow (id callbackUri filter : String) (expiryAt : Option ℤ) :
    (replaceRow sql id callbackUri filter expiryAt x).id = x.id := by
  simp only [replaceRow]
  split_ifs
  · rfl
  · rfl

theorem expiry_replaced {id callbackUri filter : String} {expiryAt t : Option ℤ}
    (hids : (s.view.map PgSubscription.id).Nodup) (hx : x ∈ s.view)
    (hnamed : namedRow sql id x = true) :
    (∃ x' ∈ s.view.map (replaceRow sql id callbackUri filter expiryAt),
      x'.id = x.id ∧ x'.expiryAt = t) ↔ expiryAt = t := by
  have hexpiry : (replaceRow sql id callbackUri filter expiryAt x).expiryAt = expiryAt := by
    rw [replaceRow, if_pos hnamed]
  constructor
  · intro h
    obtain ⟨x', hx', hid, ht⟩ := h
    obtain ⟨z, hz, hzx⟩ := List.mem_map.1 hx'
    have hkey : z.id = x.id := by
      rw [← hid, ← hzx, id_replaceRow]
    rw [eq_of_key_eq hids hz hx hkey] at hzx
    rw [← hexpiry, hzx, ht]
  · intro h
    exact ⟨_, List.mem_map_of_mem hx, id_replaceRow _ _ _ _, hexpiry.trans h⟩

/-- A patch that leaves the lifetime alone keeps it exactly if the session stands at UTC, the
lifetime is a whole second of the common era, and there is memory for its member. -/
theorem patch_keeps_lifetime_iff {id : String} {contentType : Option String} {doc : Json}
    {t : ℤ} (hids : (s.view.map PgSubscription.id).Nodup) (hx : x ∈ s.view)
    (hid : sql.uuid id = some x.id) (ht : x.expiryAt = some t) (hdoc : SparesExpiry doc)
    (h : pgPatch sql w s (some id) contentType (some doc) e = .ok ((.ok, s'), e')) :
    (∃ x' ∈ s'.view, x'.id = x.id ∧ x'.expiryAt = some t) ↔
      sql.offset t = 0 ∧ 1000000 ∣ t ∧ 1000000 * commonEra ≤ t ∧
        e.alloc.get (expiryAllocation x) = true := by
  obtain ⟨y, record, fields, e₁, e₂, filter, hy, hrecord, hpatch, hvalid, hview⟩ := pgPatch_ok h
  have hnamed := List.find?_some hy
  simp only [namedRow, hid, Bool.and_eq_true, beq_iff_eq, Option.some.injEq] at hnamed
  have hlive := List.find?_some hy
  obtain rfl := eq_of_key_eq hids (List.mem_of_find?_eq_some hy) hx hnamed.1.symm
  obtain ⟨read, hread⟩ := pgRecord_filter hrecord
  obtain ⟨hcopy, hdrop⟩ := spends_pgRecord hread e e₁ record hrecord
  have htext : record.expiryAt = some (sql.toChar t) := by
    rw [hcopy, ht]
    rfl
  have huri : record.callbackUri = some y.callbackUrl := by rw [hcopy]
  have hfilter : record.filter = some read := by rw [hcopy]
  have hfields := applyPatchAtomic_expiry huri hfilter htext hdoc hpatch
  have hindex : e₁.alloc.get 4 = e.alloc.get (expiryAllocation y) := by
    rw [hdrop, Stream'.get_drop, ht, expiryAllocation]
    congr 1
    simp only [Option.map_some, Option.toList_some, List.length_singleton]
    omega
  rw [hview, expiry_replaced hids hx hlive, hfields, hindex]
  rw [hfields, hindex] at hvalid
  split_ifs at hvalid ⊢ with hmemory
  · simp only [Option.all_some] at hvalid
    obtain ⟨t', ht'⟩ := Option.isSome_iff_exists.1 hvalid
    rw [Option.bind_some, ht', Option.some.injEq, sql.instant_toChar_iff ht']
    simp [hmemory]
  · simp [hmemory]

end lifetime

section sample

/-- The texts of two seconds as the server writes them, and a stand-in for every other one. -/
def sampleText (s : ℤ) : String :=
  if s = 1893456000 ∨ s = 1893459600 then utcText s
  else if s < commonEra then "BC"
  else .ofList (List.replicate (s - commonEra).toNat 'x')

def sampleInstant (text : String) : Option ℤ :=
  if text = "2030-01-01T00:00:00Z" then some 1893456000000000
  else if text = "2030-01-01T01:00:00Z" then some 1893459600000000
  else if text.toList.all (· == 'x') then some (1000000 * (commonEra + text.toList.length))
  else none

theorem utcText_sample : utcText 1893456000 = "2030-01-01T00:00:00Z" ∧
    utcText 1893459600 = "2030-01-01T01:00:00Z" := by
  decide

theorem sampleInstant_filler (n : ℕ) :
    sampleInstant (.ofList (List.replicate n 'x')) = some (1000000 * (commonEra + n)) := by
  have hne (text : String) (h : ¬∀ c ∈ text.toList, c = 'x') :
      String.ofList (List.replicate n 'x') ≠ text := by
    intro heq
    apply h
    rw [← heq, String.toList_ofList]
    exact fun c hc => List.eq_of_mem_replicate hc
  rw [sampleInstant, if_neg (hne _ (by simp)), if_neg (hne _ (by simp))]
  simp

def zonedTypes (zone : ℤ) (h : |zone| < 86400) : SqlTypes where
  offset := fun _ => zone
  localText := sampleText
  instant := sampleInstant
  jsonb := fun text => text
  uuid := some
  offset_lt := fun _ => h
  reads := by
    intro s hs
    by_cases hsample : s = 1893456000 ∨ s = 1893459600
    · rw [sampleText, if_pos hsample]
      rcases hsample with rfl | rfl
      · rw [utcText_sample.1]
        rfl
      · rw [utcText_sample.2]
        rfl
    · rw [sampleText, if_neg hsample, if_neg (not_lt.2 hs), sampleInstant_filler]
      congr 1
      omega
  reads_before := by
    intro s t hs h
    have hsample : ¬(s = 1893456000 ∨ s = 1893459600) := by
      simp only [commonEra] at hs
      omega
    rw [sampleText, if_neg hsample, if_pos hs] at h
    cases h

def subscribedRow : PgSubscription where
  id := uuidText 1 0
  callbackUrl := "https://amf/cb"
  filter := "\x7b\x7d"
  expiryAt := some 1893456000000000
  amfId := none
  amfSetId := none
  tombstone := false

def sampleDoc : Json :=
  .array [.object [("op", .string "replace"), ("path", .string "/callbackUri"),
    ("value", .string "https://amf/new")]]

theorem spares_sampleDoc : SparesExpiry sampleDoc := by
  intro ops h op hop
  cases h
  obtain rfl := List.mem_singleton.1 hop
  exact ⟨by decide, by decide⟩

def samplePatched (zone : ℤ) (h : |zone| < 86400) : Run (SubResult × Session SubscriptionTable) :=
  pgPatch (zonedTypes zone h) ⟨0, 0, fun _ => .done⟩ ⟨[subscribedRow], none⟩ (some subscribedRow.id)
    (some jsonPatchContentType) (some sampleDoc)

/-- The code of the answer, and the lifetimes that are stored after it. -/
def answered (r : SubResult × Session SubscriptionTable) (_ : Env) :
    SubResult × List (Option ℤ) :=
  (r.1, r.2.view.map PgSubscription.expiryAt)

theorem patch_keeps_utc_lifetime :
    ∃ s' e', samplePatched 0 (by decide) Env.quiet = .ok ((.ok, s'), e') ∧
      ∃ x' ∈ s'.view, x'.id = subscribedRow.id ∧ x'.expiryAt = some 1893456000000000 := by
  have hseen : Prog.seen? answered (samplePatched 0 (by decide)) Env.quiet =
      some (.ok, [some 1893456000000000]) := by
    decide
  obtain ⟨⟨code, s'⟩, e', h, hcode⟩ := Prog.exists_of_seen? hseen
  obtain rfl : code = .ok := congrArg Prod.fst hcode
  refine ⟨s', e', h, ?_⟩
  exact (patch_keeps_lifetime_iff (by simp [Session.view]) (by simp [Session.view]) rfl rfl
    spares_sampleDoc h).2 ⟨rfl, by decide, by decide, rfl⟩

/-- In a session one hour ahead of UTC the patch of the callback gives an hour to the lifetime. -/
theorem patch_moves_lifetime :
    SparesExpiry sampleDoc ∧ subscribedRow.expiryAt = some 1893456000000000 ∧
      Prog.seen? answered (samplePatched 3600 (by decide)) Env.quiet =
        some (.ok, [some 1893459600000000]) :=
  ⟨spares_sampleDoc, rfl, by decide⟩

end sample

end Nssf.Pg
