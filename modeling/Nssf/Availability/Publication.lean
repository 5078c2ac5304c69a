import Nssf.Availability.Committed

/-! Where a committed call publishes. Up to that point the seam plays no part: the event, the
new repository and the environment in which the seam is called are the same for every seam.
Whatever an invariant of the seam's state needs is therefore asked of the seam alone. -/

namespace Nssf

open Base Run NssaiAvailabilityInfo

/-- An engine call with its seam left open. -/
abbrev SeamRun := ∀ τ : Type, PublishSeam τ → τ → Run (AvailabilityReply × AvailabilityRepo × τ)

/-- From `e` the call gets to `e₁`, hands `ev` to the seam, and then only forms its reply. -/
def PublishesAt (m : SeamRun) (e : Env) (ev : ChangeEvent) (r' : AvailabilityRepo) (e₁ : Env) :
    Prop :=
  e.Draws e₁ ∧ ∃ finish : Run AvailabilityReply, ∀ τ (seam : PublishSeam τ) (t : τ),
    m τ seam t e = (publishChange seam ev t >>= fun t' =>
      finish >>= fun reply => pure (reply, r', t')) e₁

/-- What is left to be answered by a call that committed. -/
structure Answer where
  wanted : Bool
  snssais : List Json
  tai : Json
  features : Option String

def Answer.reply (a : Answer) : Run AvailabilityReply :=
  committedReply a.wanted a.snssais a.tai a.features

/-- The call publishes as above, and what it then forms is the answer `a`. -/
def CommitsAt (m : SeamRun) (e : Env) (ev : ChangeEvent) (r' : AvailabilityRepo) (a : Answer)
    (e₁ : Env) : Prop :=
  e.Draws e₁ ∧ ∀ τ (seam : PublishSeam τ) (t : τ),
    m τ seam t e = (publishChange seam ev t >>= fun t' =>
      a.reply >>= fun reply => pure (reply, r', t')) e₁

theorem CommitsAt.publishesAt {m : SeamRun} {e e₁ : Env} {ev : ChangeEvent}
    {r' : AvailabilityRepo} {a : Answer} (h : CommitsAt m e ev r' a e₁) :
    PublishesAt m e ev r' e₁ :=
  ⟨h.1, a.reply, h.2⟩

/-- Before its seam is called, the call stops in a fault, refuses and leaves the repository
as it was, or commits as `C` says. -/
def Decides (r : AvailabilityRepo) (C : ChangeEvent → AvailabilityRepo → Answer → Prop)
    (m : SeamRun) : Prop :=
  ∀ e, (∃ x, ∀ τ (seam : PublishSeam τ) (t : τ), m τ seam t e = .error x) ∨
    (∃ reply e', reply.result.committed = false ∧
      ∀ τ (seam : PublishSeam τ) (t : τ), m τ seam t e = .ok ((reply, r, t), e')) ∨
    ∃ ev r' a e₁, CommitsAt m e ev r' a e₁ ∧ C ev r' a

section decides

variable {r : AvailabilityRepo} {C C' : ChangeEvent → AvailabilityRepo → Answer → Prop}

theorem decides_refused {reply : AvailabilityReply} (h : reply.result.committed = false) :
    Decides r C fun _ _ t => pure (reply, r, t) :=
  fun e => Or.inr (Or.inl ⟨reply, e, h, fun _ _ _ => rfl⟩)

theorem decides_commit {ev : ChangeEvent} {r' : AvailabilityRepo} {a : Answer} (h : C ev r' a) :
    Decides r C fun _ seam t => publishChange seam ev t >>= fun t' =>
      a.reply >>= fun reply => pure (reply, r', t') :=
  fun e => Or.inr (Or.inr ⟨ev, r', a, e, ⟨.refl e, fun _ _ _ => rfl⟩, h⟩)

theorem Decides.bind {α : Type} {P : α → Prop} {p : Run α} {f : α → SeamRun}
    (hp : Gives (fun _ => True) P p) (hf : ∀ a, P a → Decides r C (f a)) :
    Decides r C fun τ seam t => p >>= fun a => f a τ seam t := by
  intro e
  rcases h : p e with x | ⟨a, e₁⟩
  · exact Or.inl ⟨x, fun _ _ _ => Prog.bind_of_error h⟩
  · obtain ⟨ha, hd⟩ := hp.of_ok h
    rcases hf a ha e₁ with ⟨x, hx⟩ | ⟨reply, e', hc, hrun⟩ | ⟨ev, r', an, e₂, ⟨hd', hrun⟩, hC⟩
    · exact Or.inl ⟨x, fun τ seam t => (Prog.bind_of_ok h).trans (hx τ seam t)⟩
    · refine Or.inr (Or.inl ⟨reply, e', hc, fun τ seam t => ?_⟩)
      exact (Prog.bind_of_ok h).trans (hrun τ seam t)
    · refine Or.inr (Or.inr ⟨ev, r', an, e₂, ⟨hd.trans hd', fun τ seam t => ?_⟩, hC⟩)
      exact (Prog.bind_of_ok h).trans (hrun τ seam t)

theorem Decides.mono {m : SeamRun} (h : Decides r C m) (hC : ∀ ev r' a, C ev r' a → C' ev r' a) :
    Decides r C' m := by
  intro e
  rcases h e with hx | hr | ⟨ev, r', a, e₁, hat, hc⟩
  · exact Or.inl hx
  · exact Or.inr (Or.inl hr)
  · exact Or.inr (Or.inr ⟨ev, r', a, e₁, hat, hC ev r' a hc⟩)

/-- What a call that returned did, whatever its seam is. -/
theorem Decides.cases {m : SeamRun} (hm : Decides r C m) {τ : Type} {seam : PublishSeam τ}
    {t t' : τ} {reply : AvailabilityReply} {r' : AvailabilityRepo} {e e' : Env}
    (h : m τ seam t e = .ok ((reply, r', t'), e')) :
    (reply.result.committed = false ∧ r' = r ∧ t' = t) ∨
      ∃ ev a e₁ e₂, CommitsAt m e ev r' a e₁ ∧ C ev r' a ∧
        publishChange seam ev t e₁ = .ok (t', e₂) ∧ a.reply e₂ = .ok (reply, e') := by
  rcases hm e with ⟨x, hx⟩ | ⟨reply₁, e₁, hc, hrun⟩ | ⟨ev, r₁, a, e₁, hat, hC⟩
  · rw [hx] at h
    cases h
  · rw [hrun] at h
    cases h
    exact Or.inl ⟨hc, rfl, rfl⟩
  · rw [hat.2] at h
    obtain ⟨t₁, e₂, hpub, h⟩ := Prog.bind_eq_ok.1 h
    obtain ⟨reply₁, e₃, hreply, h⟩ := Prog.bind_eq_ok.1 h
    cases h
    exact Or.inr ⟨ev, a, e₁, e₂, hat, hC, hpub, hreply⟩

end decides

section calls

variable {r : AvailabilityRepo}

theorem gives_any {α : Type} {F : Fault → Prop} {P : α → Prop} {m : Run α} (h : Gives F P m) :
    Gives (fun _ => True) P m :=
  h.mono (fun _ h => h) fun _ _ => trivial

theorem commitReplace_decides {nf : String} {body : Json} (hb : body.isObject = true)
    (wanted : Bool) (snssais : List Json) (tai plmnId : Json) :
    Decides r (fun ev r' _ => ev.nfId = some nf ∧ ev.tai = some tai ∧
        r' = r.put (replacementRecord nf plmnId tai snssais
          (body.member? "amfSetReallocationInd")))
      fun _ seam t => commitReplace seam r t nf body wanted snssais tai plmnId := by
  unfold commitReplace
  simp only [Json.getObjectItem_of_lookable (Json.lookable_of_isObject hb), pure_bind]
  refine Decides.bind (gives_any (gives_readSnapshot r nf plmnId tai)) fun before _ => ?_
  refine Decides.bind (r.gives_memUpsert _) fun o ho => ?_
  rcases ho with rfl | rfl
  · exact decides_refused rfl
  · exact decides_commit (a := ⟨wanted, snssais, tai, _⟩) ⟨rfl, rfl, rfl⟩

theorem replaceInfo_decides {nf : String} {body : Json} (hb : body.isObject = true)
    (wanted : Bool) :
    Decides r (fun ev r' _ => ∃ tai plmnId, firstTai? body = some tai ∧
        tai.member? "plmnId" = some plmnId ∧ ev.nfId = some nf ∧ ev.tai = some tai ∧
        r' = r.put (replacementRecord nf plmnId tai (slices body)
          (body.member? "amfSetReallocationInd")))
      fun _ seam t => replaceInfo seam r t nf body wanted := by
  unfold replaceInfo
  refine Decides.bind ((makes_collectSnssais hb).gives _) fun o ho => ?_
  rcases ho with rfl | rfl
  · exact decides_refused rfl
  cases htai : firstTai? body with
  | none => exact decides_refused rfl
  | some tai =>
    refine Decides.bind (gives_getObjectItem (some tai) "plmnId") fun plmn hplmn => ?_
    split
    · refine (commitReplace_decides hb wanted (slices body) tai _).mono fun ev r' _ h => ?_
      exact ⟨tai, _, rfl, (hplmn tai rfl).symm, h⟩
    · exact decides_refused rfl

theorem replace_decides (nfId : Option String) (info : Option Json) (wanted : Bool) :
    Decides r (fun ev r' _ => ∃ nf body tai plmnId, nfId = some nf ∧ nfIdValid nf = true ∧
        info = some body ∧ firstTai? body = some tai ∧ tai.member? "plmnId" = some plmnId ∧
        ev.nfId = some nf ∧ ev.tai = some tai ∧
        r' = r.put (replacementRecord nf plmnId tai (slices body)
          (body.member? "amfSetReallocationInd")))
      fun _ seam t => availabilityReplace seam r t nfId info wanted := by
  unfold availabilityReplace
  cases info with
  | none => exact decides_refused rfl
  | some body =>
    cases hnf : nfId.filter nfIdValid with
    | none => exact decides_refused rfl
    | some nf =>
      obtain ⟨rfl, hvalid⟩ := Option.filter_eq_some_iff.1 hnf
      by_cases hb : body.isObject = true
      · simp only [hb, if_true]
        refine (replaceInfo_decides hb wanted).mono ?_
        rintro ev r' a ⟨tai, plmnId, htai, hplmn, hev⟩
        exact ⟨nf, body, tai, plmnId, rfl, hvalid, rfl, htai, hplmn, hev⟩
      · simp only [hb]
        exact decides_refused rfl

theorem commitPatch_decides (hr : r.Keyed) (nf : String) (tai before : Json) (wanted : Bool)
    (working : List Json) :
    Decides r (fun ev r' _ => ev.nfId = some nf ∧ ev.tai = some tai ∧
        r' = r.withSlices nf (.array working))
      fun _ seam t => commitPatch seam r t nf tai wanted before working := by
  unfold commitPatch
  refine Decides.bind (r.gives_memPatch_slices hr nf (.array working)) fun o ho => ?_
  obtain ⟨code, r₁⟩ := o
  rcases ho with ⟨rfl, hne⟩ | ho
  · cases code with
    | done => exact absurd rfl hne
    | noRow => exact decides_refused rfl
    | failed => exact decides_refused rfl
  · cases ho
    exact decides_commit (a := ⟨wanted, working, tai, none⟩) ⟨rfl, rfl, rfl⟩

theorem patchSnapshot_decides (hr : r.Keyed) (nf : String) (tai : Json) (ops : List Json)
    (wanted : Bool) (before : Snapshot) :
    Decides r (fun ev r' _ => ∃ items patched, before.found = true ∧ before.err = false ∧
        before.value = some (.array items) ∧ edits items ops = some patched ∧
        ev.nfId = some nf ∧ ev.tai = some tai ∧ r' = r.withSlices nf (.array patched))
      fun _ seam t => patchSnapshot seam r t nf tai ops wanted before := by
  unfold patchSnapshot
  split_ifs with herr hfound
  · exact decides_refused rfl
  · exact decides_refused rfl
  · refine Decides.bind (gives_duplicate before.value) fun copy hcopy => ?_
    split
    · rename_i items
      refine Decides.bind (gives_applyOps items ops) fun o ho => ?_
      cases o with
      | none => exact decides_refused rfl
      | some patched =>
        refine (commitPatch_decides hr nf tai _ wanted patched).mono fun ev r' _ h => ?_
        refine ⟨items, patched, by simpa using hfound, by simpa using herr, ?_, ?_, h⟩
        · exact (hcopy.resolve_left (by simp)).symm
        · exact (ho.resolve_left (by simp)).symm
    · exact decides_refused rfl

theorem patchOps_decides (hr : r.Keyed) {nf : String} (hnf : nfIdValid nf = true)
    (plmnId tai : Json) (ops : List Json) (wanted : Bool) :
    Decides r (fun ev r' _ => ∃ x items patched, r.row? nf = some x ∧ x.slices = .array items ∧
        edits items ops = some patched ∧ ev.nfId = some nf ∧ ev.tai = some tai ∧
        r' = r.withSlices nf (.array patched))
      fun _ seam t => patchOps seam r t nf plmnId tai ops wanted := by
  unfold patchOps
  refine Decides.bind (gives_patchOpsValid ops) fun valid _ => ?_
  cases valid with
  | false => exact decides_refused rfl
  | true =>
    refine Decides.bind (gives_any (gives_readSnapshot r nf plmnId tai)) fun before hb => ?_
    refine (patchSnapshot_decides hr nf tai ops wanted before).mono ?_
    rintro ev r' a ⟨items, patched, hfound, herr, hvalue, hedits, hev⟩
    obtain ⟨x, hx, hslices⟩ := hb hfound herr hr hnf
    rw [hvalue] at hslices
    exact ⟨x, items, patched, hx, (Option.some.inj hslices).symm, hedits, hev⟩

theorem patch_decides (hr : r.Keyed) (nfId contentType : Option String)
    (tai patch : Option Json) (wanted : Bool) :
    Decides r (fun ev r' _ => ∃ nf ops x items patched, nfId = some nf ∧
        patch = some (.array ops) ∧ r.row? nf = some x ∧ x.slices = .array items ∧
        edits items ops = some patched ∧ ev.nfId = some nf ∧ ev.tai = tai ∧
        r' = r.withSlices nf (.array patched))
      fun _ seam t => availabilityPatch seam r t nfId contentType tai patch wanted := by
  unfold availabilityPatch
  split_ifs with hct
  · exact decides_refused rfl
  cases hnf : nfId.filter nfIdValid with
  | none => exact decides_refused rfl
  | some nf =>
    obtain ⟨rfl, hvalid⟩ := Option.filter_eq_some_iff.1 hnf
    cases harea : tai.filter Json.isObject with
    | none => exact decides_refused rfl
    | some area =>
      obtain ⟨rfl, -⟩ := Option.filter_eq_some_iff.1 harea
      refine Decides.bind (gives_getObjectItem (some area) "plmnId") fun plmn _ => ?_
      split
      · split
        · rename_i ops
          refine (patchOps_decides hr hvalid _ area ops wanted).mono ?_
          rintro ev r' a ⟨x, items, patched, h⟩
          exact ⟨nf, ops, x, items, patched, rfl, rfl, h⟩
        · exact decides_refused rfl
      · exact decides_refused rfl

theorem delete_decides (hr : r.Keyed) (nfId : Option String) :
    Decides r (fun ev r' _ => ∃ nf x, nfId = some nf ∧ r.row? nf = some x ∧ ev.nfId = some nf ∧
        ev.tai = none ∧ ∀ id, r'.row? id = if id = nf then none else r.row? id)
      fun _ seam t => availabilityDelete seam r t nfId := by
  unfold availabilityDelete
  cases hnf : nfId.filter nfIdValid with
  | none => exact decides_refused rfl
  | some nf =>
    obtain ⟨rfl, -⟩ := Option.filter_eq_some_iff.1 hnf
    rcases r.memDelete_cases hr nf with ⟨hdel, -⟩ | ⟨r₁, x, hdel, hx, -, hrows⟩
    · simp only [hdel]
      exact decides_refused rfl
    · simp only [hdel]
      exact decides_commit (a := ⟨false, [], .null, none⟩) ⟨nf, x, rfl, hx, rfl, rfl, hrows⟩

end calls

section ends

variable {τ : Type} {F : Fault → Prop} {I : τ → Prop} {seam : PublishSeam τ} {t : τ}

theorem gives_makeAuthorizedInfo (snssais : Json) (tai : Option Json) (features : Option String) :
    Gives F (fun _ => True) (makeAuthorizedInfo snssais tai features) := by
  have htai (data : Json) : Gives F (fun _ => True) (addTai data tai) := by
    cases tai with
    | none => exact gives_pure trivial
    | some tai =>
      refine Gives.bind (gives_allocated tai) fun o ho => ?_
      rcases ho with rfl | rfl
      · exact gives_pure trivial
      · exact Gives.bind (gives_addItemToObject _ _ _) fun _ _ => gives_pure trivial
  have hfeatures (info : Json) : Gives F (fun _ => True) (addSupportedFeatures info features) := by
    cases features with
    | none => exact gives_pure trivial
    | some f =>
      refine Gives.bind gives_alloc fun b _ => ?_
      cases b with
      | true => exact gives_pure trivial
      | false => exact gives_pure trivial
  refine Gives.bind (gives_allocated (Json.object [])) fun o ho => ?_
  rcases ho with rfl | rfl
  · exact gives_pure trivial
  refine Gives.bind (gives_allocated (Json.array [])) fun o ho => ?_
  rcases ho with rfl | rfl
  · exact gives_pure trivial
  refine Gives.bind gives_alloc fun added _ => ?_
  refine Gives.bind (gives_allocated (Json.object [])) fun o ho => ?_
  rcases ho with rfl | rfl
  · exact gives_pure trivial
  refine Gives.bind (htai _) fun o _ => ?_
  cases o with
  | none => exact gives_pure trivial
  | some data =>
    refine Gives.bind (gives_allocated snssais) fun o ho => ?_
    rcases ho with rfl | rfl
    · exact gives_pure trivial
    exact Gives.bind (gives_addItemToObject _ _ _) fun _ _ => hfeatures _

theorem gives_committedReply (wanted : Bool) (snssais : List Json) (tai : Json)
    (features : Option String) :
    Gives F (fun _ => True) (committedReply wanted snssais tai features) := by
  unfold committedReply
  split_ifs with hempty hwanted
  · exact gives_pure trivial
  · refine Gives.bind (gives_makeAuthorizedInfo _ _ _) fun o _ => ?_
    cases o with
    | none => exact gives_pure trivial
    | some authorized => exact gives_pure trivial
  · exact gives_pure trivial

theorem isObject_of_firstTai? {info tai : Json} (h : firstTai? info = some tai) :
    tai.isObject = true := by
  obtain ⟨entry, -, hentry⟩ := List.exists_of_findSome?_eq_some h
  unfold tai? at hentry
  exact (Option.filter_eq_some_iff.1 hentry).2

theorem ends_commitReplace (hF : F .outOfBounds) (ht : I t)
    (hpub : ∀ ev, Ends F I (publishChange seam ev t)) (r : AvailabilityRepo) (nf : String)
    {body : Json} (hb : body.isObject = true) (wanted : Bool) (snssais : List Json)
    (tai plmnId : Json) :
    Ends F (fun x => I x.2.2) (commitReplace seam r t nf body wanted snssais tai plmnId) := by
  have hread : Gives F (fun _ => True) (readSnapshot r nf plmnId tai) := by
    refine (gives_readSnapshot r nf plmnId tai).mono (fun _ _ => trivial) fun x hx => ?_
    rw [hx]
    exact hF
  unfold commitReplace
  simp only [Json.getObjectItem_of_lookable (Json.lookable_of_isObject hb), pure_bind]
  refine Ends.bind hread.ends fun before _ => ?_
  refine Ends.bind (r.gives_memUpsert _).ends fun o ho => ?_
  rcases ho with rfl | rfl
  · exact ends_pure ht
  refine Ends.bind (hpub _) fun t' ht' => ?_
  exact Ends.bind (gives_committedReply _ _ _ _).ends fun _ _ => ends_pure ht'

/-- The engine looks into objects only, so what a replace can run into is left to the seam. -/
theorem ends_availabilityReplace (hF : F .outOfBounds) (ht : I t)
    (hpub : ∀ ev, Ends F I (publishChange seam ev t)) (r : AvailabilityRepo)
    (nfId : Option String) (info : Option Json) (wanted : Bool) :
    Ends F (fun x => I x.2.2) (availabilityReplace seam r t nfId info wanted) := by
  unfold availabilityReplace
  cases info with
  | none => exact ends_pure ht
  | some body =>
    cases nfId.filter nfIdValid with
    | none => exact ends_pure ht
    | some nf =>
      by_cases hb : body.isObject = true
      · simp only [hb, if_true]
        refine Ends.bind ((makes_collectSnssais hb).gives F).ends fun o ho => ?_
        rcases ho with rfl | rfl
        · exact ends_pure ht
        cases htai : firstTai? body with
        | none => exact ends_pure ht
        | some tai =>
          have htaiLook := Json.lookable_of_isObject (isObject_of_firstTai? htai)
          change Ends F _ (Json.getObjectItem (some tai) "plmnId" >>= _)
          rw [Json.getObjectItem_of_lookable htaiLook, pure_bind]
          split
          · exact ends_commitReplace hF ht hpub r nf hb wanted _ tai _
          · exact ends_pure ht
      · simp only [hb]
        exact ends_pure ht

theorem ends_availabilityDelete (ht : I t) (hpub : ∀ ev, Ends F I (publishChange seam ev t))
    (r : AvailabilityRepo) (nfId : Option String) :
    Ends F (fun x => I x.2.2) (availabilityDelete seam r t nfId) := by
  unfold availabilityDelete
  cases nfId.filter nfIdValid with
  | none => exact ends_pure ht
  | some nf =>
    rcases hdel : r.memDelete nf with ⟨code, r₁⟩
    simp only [hdel]
    cases code with
    | done => exact Ends.bind (hpub _) fun t' ht' => ends_pure ht'
    | noRow => exact ends_pure ht
    | failed => exact ends_pure ht

/-- Without a tracking area a patch is refused before anything is looked at. -/
theorem availabilityPatch_refused (seam : PublishSeam τ) (r : AvailabilityRepo) (t : τ)
    (nfId contentType : Option String) (patch : Option Json) (wanted : Bool) :
    ∃ reply, availabilityPatch seam r t nfId contentType none patch wanted =
      pure (reply, r, t) := by
  unfold availabilityPatch
  split_ifs with hct
  · exact ⟨_, rfl⟩
  · cases nfId.filter nfIdValid with
    | none => exact ⟨_, rfl⟩
    | some nf => exact ⟨_, rfl⟩

end ends

namespace EngineCall

/-- The tracking area that the event of the call carries. -/
def eventTai : EngineCall → Option Json
  | .replace _ info _ => info.bind firstTai?
  | .patch _ _ tai _ _ => tai
  | .delete _ => none

/-- The repository `r'` has the content that the call asks for, in place of that of `r`. -/
def Holds (c : EngineCall) (r r' : AvailabilityRepo) : Prop :=
  match c with
  | .replace nfId info _ => ∃ nf body tai plmnId, nfId = some nf ∧ info = some body ∧
      firstTai? body = some tai ∧ tai.member? "plmnId" = some plmnId ∧
      ∀ id, r'.row? id = if id = nf then some (replacementRecord nf plmnId tai (slices body)
        (body.member? "amfSetReallocationInd")) else r.row? id
  | .patch nfId _ _ ops? _ => ∃ nf ops x items patched, nfId = some nf ∧
      ops? = some (.array ops) ∧ r.row? nf = some x ∧ x.slices = .array items ∧
      edits items ops = some patched ∧
      ∀ id, r'.row? id =
        if id = nf then some { x with snssais := some (.array patched) } else r.row? id
  | .delete nfId => ∃ nf x, nfId = some nf ∧ r.row? nf = some x ∧
      ∀ id, r'.row? id = if id = nf then none else r.row? id

theorem run_decides {r : AvailabilityRepo} (hr : r.Keyed) (c : EngineCall) :
    Decides r (fun ev r' _ => ev.nfId = c.nfId ∧ ev.tai = c.eventTai ∧ c.Holds r r')
      fun _ seam t => c.run seam r t := by
  cases c with
  | replace nfId info wanted =>
    refine (replace_decides nfId info wanted).mono ?_
    rintro ev r' a ⟨nf, body, tai, plmnId, rfl, hvalid, rfl, htai, hplmn, hevnf, hevtai, rfl⟩
    refine ⟨hevnf, hevtai.trans htai.symm, nf, body, tai, plmnId, rfl, rfl, htai, hplmn, ?_⟩
    intro id
    rw [AvailabilityRepo.row?_put, replacementRecord_id hvalid]
  | patch nfId contentType tai patch wanted =>
    refine (patch_decides hr nfId contentType tai patch wanted).mono ?_
    rintro ev r' a ⟨nf, ops, x, items, patched, rfl, rfl, hx, hslices, hedits, hevnf, hevtai, rfl⟩
    refine ⟨hevnf, hevtai, nf, ops, x, items, patched, rfl, rfl, hx, hslices, hedits, ?_⟩
    intro id
    rw [AvailabilityRepo.row?_withSlices]
    split_ifs with hid
    · rw [hid, hx]
      rfl
    · rfl
  | delete nfId =>
    refine (delete_decides hr nfId).mono ?_
    rintro ev r' a ⟨nf, x, rfl, hx, hevnf, hevtai, hrows⟩
    exact ⟨hevnf, hevtai, nf, x, rfl, hx, hrows⟩

theorem run_publishes {c : EngineCall} {r r' : AvailabilityRepo} {reply : AvailabilityReply}
    {e e' : Env} {u : Unit} (hr : r.Keyed) (h : c.run none r u e = .ok ((reply, r', u), e'))
    (hc : reply.result.committed = true) :
    ∃ ev e₁, ev.nfId = c.nfId ∧ ev.tai = c.eventTai ∧
      PublishesAt (fun _ seam t => c.run seam r t) e ev r' e₁ := by
  have hm : (fun _ seam t => c.run seam r t : SeamRun) Unit none u e = _ := h
  rcases (run_decides hr c).cases hm with ⟨hc₁, -⟩ | ⟨ev, a, e₁, e₂, hat, hev, -⟩
  · rw [hc₁] at hc
    cases hc
  · exact ⟨ev, e₁, hev.1, hev.2.1, hat.publishesAt⟩

end EngineCall

end Nssf
