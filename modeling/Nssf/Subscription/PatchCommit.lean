import Nssf.Base.KeyedList
import Nssf.Subscription.Patching

/-! What a patch leaves in the store. It commits to the one live record of its id or to nothing,
and it always returns unless one of its operations faults. The three members it stores are those
of the working tree, except that an expiry which is no string is dropped. -/

namespace Nssf

open Base Run

theorem RecordId.cut_text (r : RecordId) : RecordId.cut r.text = r := by
  have hfits : r.text.toList.length ≤ 36 := by
    rw [String.length_toList]
    exact r.fits
  have htext : (RecordId.cut r.text).text = r.text := by
    change String.ofList (r.text.toList.take 36) = r.text
    rw [List.take_of_length_le hfits, String.ofList_toList]
  cases r with
  | mk text fits =>
    simp only [RecordId.cut] at htext ⊢
    simp only [htext]

/-- An absent value adds nothing. -/
def Json.withMember (obj : Json) (name : String) (v : Option Json) : Json :=
  v.elim obj (obj.addItem name)

namespace SubscriptionRecord

def identity (x : SubscriptionRecord) : RecordId × Option String × Option String × Bool :=
  (x.id, x.amfId, x.amfSetId, x.tombstone)

/-- The three fields a patch may write. -/
def withFields (x : SubscriptionRecord) (fields : Subscription.PatchedFields) :
    SubscriptionRecord :=
  { x with
    callbackUri := some fields.callbackUri
    filter := some fields.filter
    expiryAt := fields.expiry }

theorem identity_withFields (x : SubscriptionRecord) (fields : Subscription.PatchedFields) :
    (x.withFields fields).identity = x.identity := rfl

/-- The resource of the record, as a patch sees it. -/
def view (x : SubscriptionRecord) : Json :=
  (((Json.object []).withMember "callbackUri" (x.callbackUri.map Json.string)).withMember
    "filter" x.filter).withMember "expiry" (x.expiryAt.map Json.string)

@[simp]
theorem member_view_callbackUri (x : SubscriptionRecord) :
    x.view.member? "callbackUri" = x.callbackUri.map Json.string := by
  cases hc : x.callbackUri <;> cases hf : x.filter <;> cases he : x.expiryAt <;>
    simp [view, Json.withMember, Json.addItem, Json.member?, Json.findMember, hc, hf, he]

@[simp]
theorem member_view_filter (x : SubscriptionRecord) : x.view.member? "filter" = x.filter := by
  cases hc : x.callbackUri <;> cases hf : x.filter <;> cases he : x.expiryAt <;>
    simp [view, Json.withMember, Json.addItem, Json.member?, Json.findMember, hc, hf, he]

@[simp]
theorem member_view_expiry (x : SubscriptionRecord) :
    x.view.member? "expiry" = x.expiryAt.map Json.string := by
  cases hc : x.callbackUri <;> cases hf : x.filter <;> cases he : x.expiryAt <;>
    simp [view, Json.withMember, Json.addItem, Json.member?, Json.findMember, hc, hf, he]

end SubscriptionRecord

namespace Subscription

theorem makes_recordFill (id : String) (callbackUri : Option String) (filter : Option Json)
    (amfId amfSetId expiryAt : Option String) :
    Makes (recordFill id callbackUri filter amfId amfSetId expiryAt)
      ⟨.cut id, callbackUri, filter, amfId, amfSetId, expiryAt, false⟩ := by
  refine Makes.bind (makes_copyField callbackUri) rfl ?_
  refine Makes.bind (makes_copyField filter) rfl ?_
  refine Makes.bind (makes_copyField amfId) rfl ?_
  refine Makes.bind (makes_copyField amfSetId) rfl ?_
  refine Makes.bind (makes_copyField expiryAt) rfl ?_
  exact makes_pure _

section resource

variable {F : Fault → Prop}

theorem gives_addFilter {obj : Json} (h : obj.isObject = true) (filter : Option Json) :
    Gives F ObjectIfSome (addFilter obj filter) := by
  cases filter with
  | none => exact gives_pure (objectIfSome_some h)
  | some filter =>
    refine Gives.bind (gives_allocated filter) fun o ho => ?_
    rcases ho with rfl | rfl
    · exact gives_pure objectIfSome_none
    · refine Gives.bind (gives_addItemToObject obj "filter" (some filter)) fun j hj => ?_
      exact gives_pure (objectIfSome_some (hj h))

theorem gives_buildResource (x : SubscriptionRecord) :
    Gives F ObjectIfSome (buildResource x) := by
  refine Gives.bind (gives_allocated (Json.object [])) fun o ho => ?_
  rcases ho with rfl | rfl
  · exact gives_pure objectIfSome_none
  · refine Gives.bind (gives_addOptionalString _ _ _) fun r₁ h₁ => ?_
    refine Gives.bind (gives_addFilter (h₁ rfl) x.filter) fun o h₂ => ?_
    cases o with
    | none => exact gives_pure objectIfSome_none
    | some r₂ =>
      refine Gives.bind (gives_addOptionalString _ _ _) fun r₃ h₃ => ?_
      exact gives_pure (objectIfSome_some (h₃ (h₂ r₂ rfl)))

/-- With every allocation granted the working tree starts as the view of the record. -/
theorem yields_buildResource (x : SubscriptionRecord) :
    Yields (buildResource x) (some x.view) := by
  have hadd (obj : Json) (name : String) (value : Option String) :
      Yields (addOptionalString obj name value)
        (obj.withMember name (value.map Json.string)) := by
    cases value with
    | none => exact yields_pure _
    | some value => exact Yields.bind yields_alloc (yields_pure _)
  have hfilter (obj : Json) :
      Yields (addFilter obj x.filter) (some (obj.withMember "filter" x.filter)) := by
    cases x.filter with
    | none => exact yields_pure _
    | some filter =>
      refine Yields.bind (yields_allocated filter) ?_
      exact Yields.bind (Yields.bind yields_alloc (yields_pure _)) (yields_pure _)
  refine Yields.bind (yields_allocated (Json.object [])) ?_
  refine Yields.bind (hadd _ "callbackUri" x.callbackUri) ?_
  refine Yields.bind (hfilter _) ?_
  refine Yields.bind (hadd _ "expiry" x.expiryAt) ?_
  exact yields_pure _

/-- The fields that are read back from the working tree. -/
def FieldsOf (tree : Json) (fields : PatchedFields) : Prop :=
  tree.member? "callbackUri" = some (.string fields.callbackUri) ∧
    tree.member? "filter" = some fields.filter ∧
    fields.expiry = (tree.member? "expiry").bind Json.string?

theorem gives_extractFields {tree : Json} (h : tree.isObject = true) :
    Gives F (fun o => ∀ fields, o = some fields → FieldsOf tree fields) (extractFields tree) := by
  have hnone : Gives F (fun o => ∀ fields, o = some fields → FieldsOf tree fields)
      (pure none : Run (Option PatchedFields)) := by
    refine gives_pure ?_
    intro fields hf
    cases hf
  unfold extractFields
  simp only [Json.getObjectItem_of_lookable (Json.lookable_of_isObject h), pure_bind]
  refine Gives.bind ((makes_copyField _).gives F) fun o ho => ?_
  rcases ho with rfl | rfl
  · exact hnone
  refine Gives.bind ((makes_copyField _).gives F) fun o ho => ?_
  rcases ho with rfl | rfl
  · exact hnone
  refine Gives.bind ((makes_copyField _).gives F) fun o ho => ?_
  rcases ho with rfl | rfl
  · exact hnone
  cases hcb : tree.member? "callbackUri" with
  | none => exact hnone
  | some cb =>
    cases cb with
    | string cb =>
      cases hfl : tree.member? "filter" with
      | none => exact hnone
      | some fl =>
        refine gives_pure ?_
        intro fields hf
        cases hf
        exact ⟨hcb, hfl, rfl⟩
    | _ => exact hnone

end resource

end Subscription

namespace SubscriptionStore

open Subscription

variable {s s' : SubscriptionStore} {k : String} {i : ℕ} {x : SubscriptionRecord}
  {F : Fault → Prop}

theorem live?_eq_some_iff : s.live? k = some (i, x) ↔
    s.indexOf k = some i ∧ s.items[i]? = some x ∧ x.tombstone = false := by
  unfold live?
  cases hi : s.indexOf k with
  | none => simp
  | some j =>
    dsimp only
    cases hx : s.items[j]? with
    | none => grind
    | some y =>
      by_cases ht : y.tombstone = true
      · simp only [ht, if_true]
        grind
      · simp only [ht]
        grind

theorem id_of_indexOf (hi : s.indexOf k = some i) (hx : s.items[i]? = some x) :
    x.id.text = k := by
  obtain ⟨hlt, hkey, -⟩ := List.findIdx?_eq_some_iff_getElem.1 hi
  obtain ⟨hlt', rfl⟩ := List.getElem?_eq_some_iff.1 hx
  simpa using hkey

theorem gives_memGet (h : s.live? k = some (i, x)) :
    Gives F (fun g => g = .failed ∨ g = .found x) (s.memGet k) := by
  have hlive := (live?_eq_some_iff.1 h).2.2
  unfold memGet
  rw [h]
  refine Gives.bind ((makes_recordFill _ _ _ _ _ _).gives F) fun o ho => ?_
  rcases ho with rfl | rfl
  · exact gives_pure (Or.inl rfl)
  · refine gives_pure (Or.inr ?_)
    rw [RecordId.cut_text, ← hlive]

theorem gives_replaceFields (h : s.live? k = some (i, x)) (fields : PatchedFields) :
    Gives F (fun r => r = (.error, s) ∨ r = (.ok, ⟨s.items.set i (x.withFields fields)⟩))
      (s.replaceFields k fields) := by
  obtain ⟨hi, hx, hlive⟩ := live?_eq_some_iff.1 h
  have hreplace : Gives F (fun r => r = (RepoCode.failed, s) ∨
      r = (RepoCode.done, ⟨s.items.set i (x.withFields fields)⟩))
      (s.memReplace k (some fields.callbackUri) (some fields.filter) fields.expiry) := by
    unfold memReplace
    rw [h]
    refine Gives.bind ((makes_recordFill _ _ _ _ _ _).gives F) fun o ho => ?_
    rcases ho with rfl | rfl
    · exact gives_pure (Or.inl rfl)
    · refine gives_pure (Or.inr ?_)
      rw [← id_of_indexOf hi hx, RecordId.cut_text, ← hlive]
      rfl
  refine Gives.bind hreplace fun r hr => ?_
  rcases hr with rfl | rfl
  · exact gives_pure (Or.inl rfl)
  · exact gives_pure (Or.inr rfl)

/-- The tree a patch of the record ends with, if all operations succeed. -/
def workingTree (s : SubscriptionStore) (k : String) (ops : List Json) : Run (Option Json) := do
  match ← s.memGet k with
  | .found x => patchedTree x ops
  | _ => return none

/-- What a successful patch does: the fields of its final tree go into the live record. -/
def PatchCommits (s : SubscriptionStore) (id : Option String) (doc : Option Json) (e : Env)
    (s' : SubscriptionStore) : Prop :=
  ∃ k ops i x tree fields e₁, id = some k ∧ doc = some (.array ops) ∧
    s.live? k = some (i, x) ∧ s.workingTree k ops e = .ok (some tree, e₁) ∧
    FieldsOf tree fields ∧ s' = ⟨s.items.set i (x.withFields fields)⟩

theorem patchedTree_objectIfSome {ops : List Json} {e e' : Env} {o : Option Json}
    (h : patchedTree x ops e = .ok (o, e')) : ObjectIfSome o ∧ e.Draws e' := by
  obtain ⟨o₁, e₁, hbuild, h⟩ := Prog.bind_eq_ok.1 h
  obtain ⟨hobj, hd⟩ := (gives_buildResource x (F := fun _ => True)).of_ok hbuild
  cases o₁ with
  | none =>
    cases h
    exact ⟨objectIfSome_none, hd⟩
  | some resource =>
    obtain ⟨hobj', hd'⟩ := applyAllOps_objectIfSome (hobj resource rfl) ops h
    exact ⟨hobj', hd.trans hd'⟩

theorem patchRecord_cases (hx : s.live? k = some (i, x)) {doc : Json} {e e' : Env}
    {code : SubResult} (h : s.patchRecord k x doc e = .ok ((code, s'), e')) :
    e.Draws e' ∧ ((code ≠ .ok ∧ s' = s) ∨ (code = .ok ∧ ∃ ops tree fields e₁,
      doc = .array ops ∧ patchedTree x ops e = .ok (some tree, e₁) ∧ FieldsOf tree fields ∧
      s' = ⟨s.items.set i (x.withFields fields)⟩)) := by
  obtain ⟨o, e₁, hatomic, h⟩ := Prog.bind_eq_ok.1 h
  cases doc with
  | array ops =>
    obtain ⟨t, e₂, htree, hatomic⟩ := Prog.bind_eq_ok.1 hatomic
    obtain ⟨hobj, hd⟩ := patchedTree_objectIfSome htree
    cases t with
    | none =>
      cases hatomic
      cases h
      exact ⟨hd, Or.inl ⟨by decide, rfl⟩⟩
    | some tree =>
      obtain ⟨hfields, hd₂⟩ :=
        (gives_extractFields (hobj tree rfl) (F := fun _ => True)).of_ok hatomic
      cases o with
      | none =>
        cases h
        exact ⟨hd.trans hd₂, Or.inl ⟨by decide, rfl⟩⟩
      | some fields =>
        obtain ⟨hcode, hd₃⟩ := (gives_replaceFields hx fields (F := fun _ => True)).of_ok h
        refine ⟨(hd.trans hd₂).trans hd₃, ?_⟩
        rcases hcode with hcode | hcode
        · cases hcode
          exact Or.inl ⟨by decide, rfl⟩
        · cases hcode
          exact Or.inr ⟨rfl, ops, tree, fields, e₂, rfl, htree, hfields fields rfl, rfl⟩
  | _ =>
    cases hatomic
    cases h
    exact ⟨.refl _, Or.inl ⟨by decide, rfl⟩⟩

/-- A patch that returns has committed to one record or left the store alone. -/
theorem patch_cases {id contentType : Option String} {doc : Option Json} {e e' : Env}
    {code : SubResult} (h : s.patch id contentType doc e = .ok ((code, s'), e')) :
    e.Draws e' ∧
      ((code ≠ .ok ∧ s' = s) ∨ (code = .ok ∧ s.PatchCommits id doc e s')) := by
  unfold patch at h
  cases id with
  | none =>
    cases h
    exact ⟨.refl _, Or.inl ⟨by decide, rfl⟩⟩
  | some k =>
    cases doc with
    | none =>
      cases h
      exact ⟨.refl _, Or.inl ⟨by decide, rfl⟩⟩
    | some doc =>
      by_cases hct : patchContentTypeOk contentType = true
      · simp only [hct, if_true] at h
        obtain ⟨g, e₁, hget, h⟩ := Prog.bind_eq_ok.1 h
        cases hlive : s.live? k with
        | none =>
          unfold memGet at hget
          rw [hlive] at hget
          cases hget
          cases h
          exact ⟨.refl _, Or.inl ⟨by decide, rfl⟩⟩
        | some p =>
          obtain ⟨i, x⟩ := p
          obtain ⟨hg, hd⟩ := (gives_memGet hlive (F := fun _ => True)).of_ok hget
          rcases hg with rfl | rfl
          · cases h
            exact ⟨hd, Or.inl ⟨by decide, rfl⟩⟩
          · obtain ⟨hd', hc⟩ := patchRecord_cases hlive h
            refine ⟨hd.trans hd', ?_⟩
            rcases hc with hc | ⟨hcode, ops, tree, fields, e₂, hdoc, htree, hf, hs⟩
            · exact Or.inl hc
            · refine Or.inr ⟨hcode, k, ops, i, x, tree, fields, e₂, rfl, by rw [hdoc], hlive, ?_,
                hf, hs⟩
              unfold workingTree
              rw [Prog.bind_of_ok hget]
              exact htree
      · simp only [hct] at h
        cases h
        exact ⟨.refl _, Or.inl ⟨by decide, rfl⟩⟩

/-- No operation that the patch reaches is a non-empty array, and none moves a member below
itself. -/
def PatchSafe (s : SubscriptionStore) (id contentType : Option String) (doc : Option Json)
    (e : Env) : Prop :=
  ∀ k ops x e₁ resource e₂, id = some k → doc = some (.array ops) →
    patchContentTypeOk contentType = true → s.memGet k e = .ok (.found x, e₁) →
    buildResource x e₁ = .ok (some resource, e₂) → OpsSafe resource ops e₂

theorem patchRecord_returns_iff (hx : s.live? k = some (i, x)) (doc : Json) {e : Env} :
    Prog.Returns (s.patchRecord k x doc) e ↔ ∀ ops resource e₂, doc = .array ops →
      buildResource x e = .ok (some resource, e₂) → OpsSafe resource ops e₂ := by
  cases doc with
  | array ops =>
    obtain ⟨o, e₂, hbuild, hobj, -⟩ := (gives_buildResource x).ok e
    cases o with
    | none =>
      refine iff_of_true ⟨((.badPatch, s), e₂), ?_⟩ ?_
      · have htree : patchedTree x ops e = .ok (none, e₂) := Prog.bind_of_ok hbuild
        have hatomic : applyPatchAtomic x (.array ops) e = .ok (none, e₂) :=
          Prog.bind_of_ok htree
        exact Prog.bind_of_ok hatomic
      · intro ops' resource e₃ _ h
        rw [hbuild] at h
        cases h
    | some resource =>
      have hiff := applyAllOps_returns_iff (hobj resource rfl) ops (e := e₂)
      have htree : patchedTree x ops e = applyAllOps resource ops e₂ := Prog.bind_of_ok hbuild
      constructor
      · intro hret ops' resource' e₃ hops h
        rw [hbuild] at h
        cases hops
        cases h
        obtain ⟨⟨r, e₄⟩, hret⟩ := hret
        obtain ⟨f, e₅, hatomic, -⟩ := Prog.bind_eq_ok.1 hret
        obtain ⟨t, e₆, hall, -⟩ := Prog.bind_eq_ok.1 hatomic
        rw [htree] at hall
        exact hiff.1 ⟨_, hall⟩
      · intro hsafe
        obtain ⟨⟨t, e₃⟩, hall⟩ := hiff.2 (hsafe ops resource e₂ rfl hbuild)
        rw [← htree] at hall
        have hobj' := (patchedTree_objectIfSome hall).1
        cases t with
        | none =>
          have hatomic : applyPatchAtomic x (.array ops) e = .ok (none, e₃) :=
            Prog.bind_of_ok hall
          exact ⟨((.badPatch, s), e₃), Prog.bind_of_ok hatomic⟩
        | some tree =>
          obtain ⟨f, e₄, hextract, -, -⟩ := (gives_extractFields (hobj' tree rfl)).ok e₃
          have hatomic : applyPatchAtomic x (.array ops) e = .ok (f, e₄) := by
            rw [← hextract]
            exact Prog.bind_of_ok hall
          rw [Prog.Returns, patchRecord, Prog.bind_of_ok hatomic]
          cases f with
          | none => exact ⟨_, rfl⟩
          | some fields =>
            obtain ⟨r, e₅, hreplace, -⟩ := (gives_replaceFields hx fields).ok e₄
            exact ⟨_, hreplace⟩
  | _ =>
    refine iff_of_true ⟨((.badPatch, s), e), rfl⟩ ?_
    intro ops resource e₂ h
    cases h

theorem patch_returns_iff (s : SubscriptionStore) (id contentType : Option String)
    (doc : Option Json) (e : Env) :
    Prog.Returns (s.patch id contentType doc) e ↔ s.PatchSafe id contentType doc e := by
  unfold patch
  cases id with
  | none =>
    refine iff_of_true ⟨_, rfl⟩ ?_
    intro k ops x e₁ resource e₂ h
    cases h
  | some k =>
    cases doc with
    | none =>
      refine iff_of_true ⟨_, rfl⟩ ?_
      intro k ops x e₁ resource e₂ _ h
      cases h
    | some doc =>
      by_cases hct : patchContentTypeOk contentType = true
      · simp only [hct, if_true]
        cases hlive : s.live? k with
        | none =>
          have hget : s.memGet k e = .ok (.absent, e) := by
            unfold memGet
            rw [hlive]
            rfl
          rw [Prog.Returns, Prog.bind_of_ok hget]
          refine iff_of_true ⟨_, rfl⟩ ?_
          intro k' ops x e₁ resource e₂ hk _ _ h
          cases hk
          rw [hget] at h
          cases h
        | some p =>
          obtain ⟨i, x⟩ := p
          obtain ⟨g, e₁, hget, hg, -⟩ := (gives_memGet hlive).ok e
          rw [Prog.Returns, Prog.bind_of_ok hget]
          rcases hg with rfl | rfl
          · refine iff_of_true ⟨_, rfl⟩ ?_
            intro k' ops y e₂ resource e₃ hk _ _ h
            cases hk
            rw [hget] at h
            cases h
          · refine (patchRecord_returns_iff hlive doc (e := e₁)).trans ?_
            constructor
            · intro hsafe k' ops y e₂ resource e₃ hk hdoc _ h hbuild
              cases hk
              cases hdoc
              rw [hget] at h
              cases h
              exact hsafe ops resource e₃ rfl hbuild
            · intro hsafe ops resource e₂ hdoc hbuild
              exact hsafe k ops x e₁ resource e₂ rfl (by rw [hdoc]) hct hget hbuild
      · simp only [hct]
        refine iff_of_true ⟨_, rfl⟩ ?_
        intro k ops x e₁ resource e₂ _ _ h
        exact (hct h).elim

/-- Success changes three fields of the live record of the id, failure changes nothing, and
the identities stand as they were. -/
structure PatchFramed (s : SubscriptionStore) (id : Option String) (code : SubResult)
    (s' : SubscriptionStore) : Prop where
  committed : code = .ok → ∃ k i x fields, id = some k ∧ s.live? k = some (i, x) ∧
    s'.items = s.items.set i (x.withFields fields)
  unchanged : code ≠ .ok → s' = s
  identities : s'.items.map (·.identity) = s.items.map (·.identity)

theorem PatchCommits.identities {id : Option String} {doc : Option Json} {e : Env}
    (h : s.PatchCommits id doc e s') :
    s'.items.map (·.identity) = s.items.map (·.identity) := by
  obtain ⟨k, ops, i, x, tree, fields, e₁, -, -, hlive, -, -, rfl⟩ := h
  apply map_key_set
  rw [(live?_eq_some_iff.1 hlive).2.1]
  rfl

theorem patch_framed_iff (s : SubscriptionStore) (id contentType : Option String)
    (doc : Option Json) (e : Env) :
    (∃ code s' e', s.patch id contentType doc e = .ok ((code, s'), e') ∧
      s.PatchFramed id code s') ↔ s.PatchSafe id contentType doc e := by
  rw [← patch_returns_iff]
  constructor
  · intro h
    obtain ⟨code, s', e', h, -⟩ := h
    exact ⟨_, h⟩
  · intro hret
    obtain ⟨⟨⟨code, s'⟩, e'⟩, h⟩ := hret
    refine ⟨code, s', e', h, ?_⟩
    rcases (patch_cases h).2 with ⟨hcode, rfl⟩ | ⟨rfl, hcommit⟩
    · exact ⟨fun h => absurd h hcode, fun _ => rfl, rfl⟩
    · refine ⟨fun _ => ?_, fun h => absurd rfl h, hcommit.identities⟩
      obtain ⟨k, ops, i, x, tree, fields, e₁, hid, -, hlive, -, -, rfl⟩ := hcommit
      exact ⟨k, i, x, fields, hid, hlive, rfl⟩

/-- What the first create of a run leaves, when the clock stands at zero. -/
def sampleRecord : SubscriptionRecord where
  id := .cut (uuidText 1 0)
  callbackUri := some "https://amf/cb"
  filter := some (.object [])
  amfId := none
  amfSetId := none
  expiryAt := some "1970-01-01T00:00:00Z"
  tombstone := false

def sampleStore : SubscriptionStore := ⟨[sampleRecord]⟩

def sampleOutbox : Outbox := ⟨retryStoreNewInmemory, notificationDispatcherNew none⟩

def sampleCreate : Run (SubResult × String × SubscriptionStore × Outbox) :=
  newInmemory.create ⟨[]⟩ sampleOutbox (some "https://amf/cb") (some (.object [])) none none 0

def samplePatch (ops : List Json) : Run (SubResult × SubscriptionStore) :=
  sampleStore.patch (some (uuidText 1 0)) (some jsonPatchContentType) (some (.array ops))

/-- The operation is the array `[1]`, whose members have no names to compare with. -/
theorem patch_not_framed :
    (Prog.result? sampleCreate Env.quiet).map (fun r => r.2.2.1) = some sampleStore ∧
      ¬∃ code s' e', samplePatch [.array [.number (.ofNat 1)]] Env.quiet = .ok ((code, s'), e') ∧
        sampleStore.PatchFramed (some (uuidText 1 0)) code s' := by
  refine ⟨by decide +kernel, ?_⟩
  intro h
  obtain ⟨code, s', e', h, -⟩ := h
  have hnone : Prog.result? (samplePatch [.array [.number (.ofNat 1)]]) Env.quiet = none := by
    decide +kernel
  unfold Prog.result? at hnone
  rw [h] at hnone
  cases hnone

theorem indexOf_set (hi : s.indexOf k = some i) (hx : s.items[i]? = some x)
    {y : SubscriptionRecord} (hy : y.id = x.id) :
    (SubscriptionStore.mk (s.items.set i y)).indexOf k = some i := by
  have hids : (s.items.set i y).map (·.id.text) = s.items.map (·.id.text) := by
    apply map_key_set
    rw [hx, hy]
    rfl
  have hcomp (l : List SubscriptionRecord) : l.findIdx? (fun x => x.id.text == k) =
      (l.map (·.id.text)).findIdx? (· == k) := by
    rw [List.findIdx?_map]
    rfl
  unfold indexOf at hi ⊢
  rw [hcomp, hids, ← hcomp]
  exact hi

theorem live?_set (h : s.live? k = some (i, x)) {y : SubscriptionRecord} (hy : y.id = x.id)
    (ht : y.tombstone = false) :
    (SubscriptionStore.mk (s.items.set i y)).live? k = some (i, y) := by
  obtain ⟨hi, hx, -⟩ := live?_eq_some_iff.1 h
  refine live?_eq_some_iff.2 ⟨indexOf_set hi hx hy, ?_, ht⟩
  exact List.getElem?_set_self (List.getElem?_eq_some_iff.1 hx).1

/-- The members of the resource are those of the tree. -/
def Stores (tree : Json) (x : SubscriptionRecord) : Prop :=
  ∀ name ∈ ["callbackUri", "filter", "expiry"], x.view.member? name = tree.member? name

theorem stores_iff_of_fields {tree : Json} {fields : PatchedFields}
    (hf : FieldsOf tree fields) (x : SubscriptionRecord) :
    Stores tree (x.withFields fields) ↔
      ∀ v, tree.member? "expiry" = some v → v.isString = true := by
  obtain ⟨hcb, hfl, hex⟩ := hf
  have hexpiry : (x.withFields fields).expiryAt = (tree.member? "expiry").bind Json.string? := hex
  have hall : Stores tree (x.withFields fields) ↔
      (x.withFields fields).expiryAt.map Json.string = tree.member? "expiry" := by
    simp [Stores, hcb, hfl, SubscriptionRecord.withFields]
  rw [hall, hexpiry]
  cases tree.member? "expiry" with
  | none => simp
  | some v => cases v <;> simp [Json.string?, Json.isString]

theorem patch_stores_iff {id contentType : Option String} {doc : Option Json} {e e' : Env}
    (h : s.patch id contentType doc e = .ok ((.ok, s'), e')) :
    ∃ k ops i tree e₁ x', id = some k ∧ doc = some (.array ops) ∧
      s.workingTree k ops e = .ok (some tree, e₁) ∧ s'.live? k = some (i, x') ∧
      (Stores tree x' ↔ ∀ v, tree.member? "expiry" = some v → v.isString = true) := by
  rcases (patch_cases h).2 with ⟨hcode, -⟩ | ⟨-, hcommit⟩
  · exact absurd rfl hcode
  · obtain ⟨k, ops, i, x, tree, fields, e₁, hid, hdoc, hlive, htree, hf, rfl⟩ := hcommit
    have hx := (live?_eq_some_iff.1 hlive).2.2
    exact ⟨k, ops, i, tree, e₁, x.withFields fields, hid, hdoc, htree, live?_set hlive rfl hx,
      stores_iff_of_fields hf x⟩

def setExpiry (value : Json) : Json :=
  .object [("op", .string "replace"), ("path", .string "/expiry"), ("value", value)]

def withExpiry (value : Option String) : SubscriptionStore :=
  ⟨[{ sampleRecord with expiryAt := value }]⟩

theorem patch_stores_string :
    ∃ k ops i tree e₁ x', some (uuidText 1 0) = some k ∧
      some (Json.array [setExpiry (.string "t")]) = some (.array ops) ∧
      sampleStore.workingTree k ops Env.quiet = .ok (some tree, e₁) ∧
      (withExpiry (some "t")).live? k = some (i, x') ∧
      (Stores tree x' ↔ ∀ v, tree.member? "expiry" = some v → v.isString = true) := by
  have hres : Prog.result? (samplePatch [setExpiry (.string "t")]) Env.quiet =
      some (.ok, withExpiry (some "t")) := by
    decide +kernel
  obtain ⟨e', h⟩ := Prog.exists_of_result? hres
  exact patch_stores_iff h

/-- The patch sets the expiry to the number 5, is answered with success, and leaves none. -/
theorem patch_drops_expiry :
    ¬∀ ops s' e', samplePatch ops Env.quiet = .ok ((.ok, s'), e') →
      ∃ tree e₁ i x', sampleStore.workingTree (uuidText 1 0) ops Env.quiet =
        .ok (some tree, e₁) ∧ s'.live? (uuidText 1 0) = some (i, x') ∧ Stores tree x' := by
  intro hall
  have hres : Prog.result? (samplePatch [setExpiry (.number (.ofNat 5))]) Env.quiet =
      some (.ok, withExpiry none) := by
    decide +kernel
  obtain ⟨e', h⟩ := Prog.exists_of_result? hres
  obtain ⟨tree, e₁, i, x', htree, hlive, hstores⟩ := hall _ _ _ h
  have htree' : (Prog.result? (sampleStore.workingTree (uuidText 1 0)
      [setExpiry (.number (.ofNat 5))]) Env.quiet).map (·.bind (·.member? "expiry")) =
        some (some (.number (.ofNat 5))) := by
    decide +kernel
  have hlive' : ((withExpiry none).live? (uuidText 1 0)).map
      (fun p => p.2.view.member? "expiry") = some none := by
    decide +kernel
  unfold Prog.result? at htree'
  rw [htree] at htree'
  rw [hlive] at hlive'
  have hno : x'.view.member? "expiry" = none := Option.some.inj hlive'
  have hnumber : tree.member? "expiry" = some (.number (.ofNat 5)) := Option.some.inj htree'
  have hmember := hstores "expiry" (by simp)
  rw [hno, hnumber] at hmember
  cases hmember

end SubscriptionStore

end Nssf
