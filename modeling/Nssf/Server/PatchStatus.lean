import Nssf.Server.MediaTypes

/-! The status that answers a patch of a subscription. The handler parses before the store
classifies, and the store looks at the media type only behind its own arguments: a body that is
absent or no JSON is answered with 500, whatever the content type says. -/

namespace Nssf

open Base Run Subscription

namespace SubscriptionStore

variable {s s' : SubscriptionStore} {k : String} {i : ℕ} {x : SubscriptionRecord}

theorem yields_memGet (h : s.live? k = some (i, x)) : Yields (s.memGet k) (.found x) := by
  have hlive := (live?_eq_some_iff.1 h).2.2
  unfold memGet
  rw [h]
  refine Yields.bind (makes_recordFill _ _ _ _ _ _).granted ?_
  have hsame : (⟨.cut x.id.text, x.callbackUri, x.filter, x.amfId, x.amfSetId, x.expiryAt,
      false⟩ : SubscriptionRecord) = x := by
    rw [RecordId.cut_text, ← hlive]
  rw [hsame]
  exact yields_pure _

theorem yields_replaceFields (h : s.live? k = some (i, x)) (fields : PatchedFields) :
    ∃ s', Yields (s.replaceFields k fields) (.ok, s') := by
  have hreplace : ∃ s', Yields (s.memReplace k (some fields.callbackUri) (some fields.filter)
      fields.expiry) (.done, s') := by
    unfold memReplace
    rw [h]
    exact ⟨_, Yields.bind (makes_recordFill _ _ _ _ _ _).granted (yields_pure _)⟩
  obtain ⟨s', hreplace⟩ := hreplace
  exact ⟨s', Yields.bind hreplace (yields_pure _)⟩

theorem yields_extractFields {tree : Json} (h : tree.isObject = true) {fields : PatchedFields}
    (hf : FieldsOf tree fields) : Yields (extractFields tree) (some fields) := by
  obtain ⟨hcb, hfl, hex⟩ := hf
  unfold extractFields
  simp only [Json.getObjectItem_of_lookable (Json.lookable_of_isObject h), pure_bind, hcb, hfl]
  refine Yields.bind (makes_copyField _).granted ?_
  refine Yields.bind (makes_copyField _).granted ?_
  refine Yields.bind (makes_copyField _).granted ?_
  rw [← hex]
  exact yields_pure _

/-- With every allocation granted the code of a patch is settled by the record and by what the
operations come to. -/
theorem patch_outcome {contentType : Option String} {doc : Json} {e e' : Env} {code : SubResult}
    (he : e.AllocOk) (hct : patchContentTypeOk contentType = true)
    (h : s.patch (some k) contentType (some doc) e = .ok ((code, s'), e')) :
    (s.live? k = none ∧ code = .notFound) ∨ (s.live? k ≠ none ∧
      ((code = .ok ∧ s.PatchCommits (some k) (some doc) e s') ∨
        (code = .badPatch ∧ ¬∃ s'', s.PatchCommits (some k) (some doc) e s''))) := by
  have hcases := (patch_cases h).2
  unfold patch at h
  simp only [hct, if_true] at h
  cases hlive : s.live? k with
  | none =>
    have hget : s.memGet k = pure .absent := by
      unfold memGet
      rw [hlive]
    rw [hget, pure_bind] at h
    cases h
    exact Or.inl ⟨rfl, rfl⟩
  | some p =>
    obtain ⟨i, x⟩ := p
    obtain ⟨e₁, hget, hd⟩ := yields_memGet hlive e he
    rw [Prog.bind_of_ok hget] at h
    have hrefused (hcode : code = .badPatch)
        (hno : ∀ ops tree fields e₂, doc = .array ops →
          patchedTree x ops e₁ = .ok (some tree, e₂) → ¬FieldsOf tree fields) :
        code = .badPatch ∧ ¬∃ s'', s.PatchCommits (some k) (some doc) e s'' := by
      refine ⟨hcode, ?_⟩
      intro hcommit
      obtain ⟨s'', k', ops, j, y, tree, fields, e₂, hk, hdoc, -, htree, hf, -⟩ := hcommit
      cases hk
      unfold workingTree at htree
      rw [Prog.bind_of_ok hget] at htree
      exact hno ops tree fields e₂ (Option.some.inj hdoc) htree hf
    refine Or.inr ⟨Option.some_ne_none _, ?_⟩
    obtain ⟨o, e₂, hatomic, h⟩ := Prog.bind_eq_ok.1 h
    cases doc with
    | array ops =>
      obtain ⟨t, e₃, htree, hatomic⟩ := Prog.bind_eq_ok.1 hatomic
      obtain ⟨hobj, hd₃⟩ := patchedTree_objectIfSome htree
      cases t with
      | none =>
        cases hatomic
        cases h
        refine Or.inr (hrefused rfl fun ops' tree fields e₄ hops htree' => ?_)
        cases hops
        rw [htree] at htree'
        cases htree'
      | some tree =>
        have he₃ := hd₃.allocOk (hd.allocOk he)
        cases o with
        | none =>
          cases h
          refine Or.inr (hrefused rfl fun ops' tree' fields e₄ hops htree' hf => ?_)
          cases hops
          rw [htree] at htree'
          cases htree'
          obtain ⟨hread, -⟩ := (yields_extractFields (hobj tree rfl) hf).eq_of_ok he₃ hatomic
          cases hread
        | some fields =>
          have hd₂ := ((gives_extractFields (hobj tree rfl) (F := fun _ => True)).of_ok hatomic).2
          obtain ⟨s'', hreplace⟩ := yields_replaceFields hlive fields
          have hdone := (hreplace.eq_of_ok (hd₂.allocOk he₃) h).1
          have hcode : code = .ok := (Prod.mk.inj hdone).1
          rcases hcases with ⟨hne, -⟩ | hok
          · exact absurd hcode hne
          · exact Or.inl hok
    | _ =>
      cases hatomic
      cases h
      refine Or.inr (hrefused rfl fun ops tree fields e₄ hops => ?_)
      cases hops

end SubscriptionStore

open SubscriptionStore

def SubResult.status : SubResult → ℕ
  | .ok => 200
  | .unsupported => 415
  | .notFound => 404
  | .badPatch => 400
  | .error => 500

section handler

variable {validate : BearerValidator} {req : Request} {s : Stores}

theorem answerPatch_status (req : Request) (result : SubResult) (s : Stores) (e : Env) :
    ∃ answer e', answerPatch req result s e = .ok ((answer, s), e') ∧
      answer.status = result.status := by
  have hrefused (cause : ProblemCause) : ∃ answer e',
      refuseWith req s cause none e = .ok ((answer, s), e') ∧
        answer.status = cause.metadata.status := by
    obtain ⟨answer, e', hrun, hstatus, -⟩ := (gives_problem cause none req.path).ok e
    exact ⟨answer, e', Prog.bind_of_ok hrun, hstatus⟩
  cases result with
  | ok => exact ⟨_, e, rfl, rfl⟩
  | unsupported => exact hrefused .unsupportedMediaTypeJsonPatch
  | notFound => exact hrefused .notFoundSubscription
  | badPatch => exact hrefused .badRequestInvalidBody
  | error => exact hrefused .internalServerError

def Request.IsJsonPatch (req : Request) : Prop :=
  ∃ ct, req.contentType = some ct ∧ mediaType ct = jsonPatchContentType

/-- The status that a patch of the subscription is to have, when the store is asked in `e`. -/
inductive PatchAnswers (req : Request) (store : SubscriptionStore) (id : String) (e : Env) :
    ℕ → Prop
  | unsupported (hct : ¬req.IsJsonPatch) : PatchAnswers req store id e 415
  | unread (hct : req.IsJsonPatch) (hdoc : req.document? = none) :
      PatchAnswers req store id e 400
  | refused {doc : Json} (hct : req.IsJsonPatch) (hdoc : req.document? = some doc)
      (hlive : store.live? id ≠ none)
      (hno : ¬∃ store', store.PatchCommits (some id) (some doc) e store') :
      PatchAnswers req store id e 400
  | absent {doc : Json} (hct : req.IsJsonPatch) (hdoc : req.document? = some doc)
      (hlive : store.live? id = none) : PatchAnswers req store id e 404
  | committed {doc : Json} {store' : SubscriptionStore} (hct : req.IsJsonPatch)
      (hdoc : req.document? = some doc)
      (hcommit : store.PatchCommits (some id) (some doc) e store') :
      PatchAnswers req store id e 200

theorem PatchAnswers.unsupported_iff {store : SubscriptionStore} {id : String} {e : Env} :
    PatchAnswers req store id e 415 ↔ ¬req.IsJsonPatch := by
  constructor
  · intro h
    cases h with
    | unsupported hct => exact hct
  · exact .unsupported

theorem PatchAnswers.isJsonPatch {store : SubscriptionStore} {id : String} {e : Env}
    {status : ℕ} (h : PatchAnswers req store id e status) (hne : status ≠ 415) :
    req.IsJsonPatch := by
  cases h with
  | unsupported hct => exact absurd rfl hne
  | unread hct hdoc => exact hct
  | refused hct hdoc hlive hno => exact hct
  | absent hct hdoc hlive => exact hct
  | committed hct hdoc hcommit => exact hct

/-- Without a document the store has nothing to classify. -/
theorem modifyAndAnswer_none (req : Request) (s : Stores) (id : String) (e : Env) :
    ∃ answer e', modifyAndAnswer req s id none e = .ok ((answer, s), e') ∧
      answer.status = 500 :=
  answerPatch_status req .error s e

theorem modifyAndAnswer_some {doc : Json} {id : String} {e e' : Env} {answer : Response}
    {s' : Stores} (h : modifyAndAnswer req s id (some doc) e = .ok ((answer, s'), e')) :
    ∃ code subs e₁, s.subscriptions.patch (some id) req.contentType (some doc) e =
      .ok ((code, subs), e₁) ∧ answer.status = code.status := by
  obtain ⟨⟨code, subs⟩, e₁, hpatch, h⟩ := Prog.bind_eq_ok.1 h
  obtain ⟨answer', e₂, hanswer, hstatus⟩ :=
    answerPatch_status req code { s with subscriptions := subs } e₁
  cases hanswer.symm.trans h
  exact ⟨code, subs, e₁, hpatch, hstatus⟩

theorem patch_unsupported {contentType : Option String} (store : SubscriptionStore) (id : String)
    (doc : Json) (h : patchContentTypeOk contentType = false) :
    store.patch (some id) contentType (some doc) = pure (.unsupported, store) := by
  simp only [patch, h, Bool.false_eq_true, if_false]

/-- The classes are right for a document that the store is given. -/
theorem modifyAndAnswer_answers_iff {doc : Json} (hdoc : req.document? = some doc) {id : String}
    {e : Env} (he : e.AllocOk) :
    (∃ answer s' e', modifyAndAnswer req s id (some doc) e = .ok ((answer, s'), e') ∧
      PatchAnswers req s.subscriptions id e answer.status) ↔
      (patchContentTypeOk req.contentType = true ↔ req.IsJsonPatch) ∧
        s.subscriptions.PatchSafe (some id) req.contentType (some doc) e := by
  have hreturns (hsafe : s.subscriptions.PatchSafe (some id) req.contentType (some doc) e) :
      ∃ answer s' e', modifyAndAnswer req s id (some doc) e = .ok ((answer, s'), e') := by
    obtain ⟨⟨⟨code, subs⟩, e₁⟩, hpatch⟩ := (patch_returns_iff _ _ _ _ _).2 hsafe
    obtain ⟨answer, e₂, hanswer, -⟩ :=
      answerPatch_status req code { s with subscriptions := subs } e₁
    exact ⟨answer, _, e₂, (Prog.bind_of_ok hpatch).trans hanswer⟩
  cases hok : patchContentTypeOk req.contentType with
  | false =>
    have hsafe : s.subscriptions.PatchSafe (some id) req.contentType (some doc) e := by
      intro k ops y e₁ resource e₂ _ _ hct
      rw [hok] at hct
      cases hct
    have hstatus {answer : Response} {s' : Stores} {e' : Env}
        (h : modifyAndAnswer req s id (some doc) e = .ok ((answer, s'), e')) :
        answer.status = 415 := by
      obtain ⟨code, subs, e₁, hpatch, hstatus⟩ := modifyAndAnswer_some h
      rw [patch_unsupported _ _ _ hok] at hpatch
      cases hpatch
      exact hstatus
    constructor
    · intro h
      obtain ⟨answer, s', e', hrun, hanswers⟩ := h
      rw [hstatus hrun] at hanswers
      refine ⟨iff_of_false Bool.false_ne_true ?_, hsafe⟩
      exact PatchAnswers.unsupported_iff.1 hanswers
    · intro h
      obtain ⟨answer, s', e', hrun⟩ := hreturns hsafe
      refine ⟨answer, s', e', hrun, ?_⟩
      rw [hstatus hrun]
      exact .unsupported fun hct => Bool.false_ne_true (h.1.2 hct)
  | true =>
    have hclass {answer : Response} {s' : Stores} {e' : Env}
        (h : modifyAndAnswer req s id (some doc) e = .ok ((answer, s'), e')) :
        answer.status ≠ 415 ∧
          (req.IsJsonPatch → PatchAnswers req s.subscriptions id e answer.status) := by
      obtain ⟨code, subs, e₁, hpatch, hstatus⟩ := modifyAndAnswer_some h
      rcases patch_outcome he hok hpatch with ⟨hlive, rfl⟩ | ⟨hlive, ⟨rfl, hcommit⟩ | ⟨rfl, hno⟩⟩
      · rw [hstatus]
        exact ⟨by decide, fun hct => .absent hct hdoc hlive⟩
      · rw [hstatus]
        exact ⟨by decide, fun hct => .committed hct hdoc hcommit⟩
      · rw [hstatus]
        exact ⟨by decide, fun hct => .refused hct hdoc hlive hno⟩
    constructor
    · intro h
      obtain ⟨answer, s', e', hrun, hanswers⟩ := h
      refine ⟨iff_of_true rfl (hanswers.isJsonPatch (hclass hrun).1), ?_⟩
      obtain ⟨code, subs, e₁, hpatch, -⟩ := modifyAndAnswer_some hrun
      exact (patch_returns_iff _ _ _ _ _).1 ⟨_, hpatch⟩
    · intro h
      obtain ⟨answer, s', e', hrun⟩ := hreturns h.2
      exact ⟨answer, s', e', hrun, (hclass hrun).2 (h.1.1 rfl)⟩

/-- The body decides first: without a document there is no right answer. -/
theorem patch_status_iff (s : Stores) (id : String)
    (hadm : req.admitted validate scopeNssaiavailability = true) (hlen : req.measured = true)
    {e : Env} (he : e.AllocOk) :
    (∃ answer s' e', subscriptionPatchHandle validate req s id e = .ok ((answer, s'), e') ∧
      PatchAnswers req s.subscriptions id e.popAlloc answer.status) ↔
      ∃ doc, req.document? = some doc ∧
        (patchContentTypeOk req.contentType = true ↔ req.IsJsonPatch) ∧
        s.subscriptions.PatchSafe (some id) req.contentType (some doc) e.popAlloc := by
  have hhandle : subscriptionPatchHandle validate req s id =
      parseOptional req.body >>= fun patch => modifyAndAnswer req s id patch := by
    unfold subscriptionPatchHandle
    rw [gated_of_admitted hadm, lengthChecked_of_measured hlen]
  cases hdoc : req.document? with
  | none =>
    obtain ⟨e₁, hparse, -⟩ := yields_parseOptional req.body e he
    have hread : req.body.bind Json.parseText = none := hdoc
    rw [hread] at hparse
    obtain ⟨answer, e₂, hanswer, hstatus⟩ := modifyAndAnswer_none req s id e₁
    rw [hhandle, Prog.bind_of_ok hparse]
    constructor
    · intro h
      obtain ⟨answer', s', e', hrun, hanswers⟩ := h
      rw [hanswer] at hrun
      cases hrun
      rw [hstatus] at hanswers
      cases hanswers
    · intro h
      obtain ⟨doc, h, -⟩ := h
      cases h
  | some doc =>
    have hparse : parseOptional req.body e = .ok (some doc, e.popAlloc) := by
      have hread : req.body.bind Json.parseText = some doc := hdoc
      cases hbody : req.body with
      | none =>
        rw [hbody] at hread
        cases hread
      | some body =>
        rw [hbody, Option.bind_some] at hread
        simp only [parseOptional, Json.parse, Prog.bind_of_ok (alloc_apply e), he.head, if_true,
          hread]
        rfl
    rw [hhandle, Prog.bind_of_ok hparse,
      modifyAndAnswer_answers_iff hdoc (e.draws_popAlloc.allocOk he)]
    constructor
    · intro h
      exact ⟨doc, rfl, h⟩
    · intro h
      obtain ⟨doc', heq, h⟩ := h
      cases heq
      exact h

/-- A patch of the only record of a store, with the right content type. -/
def storedPatch (body : Option String) : Request :=
  { sampleRequest "PATCH" "/nssai-availability/subscriptions/x" jsonPatchContentType "" with
    body := body }

theorem patch_status_unknown :
    (∃ answer s' e', subscriptionPatchHandle openDeps.validate (storedPatch (some "[]"))
        (.start (notificationDispatcherNew none)) "x" Env.quiet = .ok ((answer, s'), e') ∧
      PatchAnswers (storedPatch (some "[]")) .newInmemory "x" Env.quiet.popAlloc answer.status) ↔
      ∃ doc, (storedPatch (some "[]")).document? = some doc ∧
        (patchContentTypeOk (storedPatch (some "[]")).contentType = true ↔
          (storedPatch (some "[]")).IsJsonPatch) ∧
        SubscriptionStore.newInmemory.PatchSafe (some "x")
          (storedPatch (some "[]")).contentType (some doc) Env.quiet.popAlloc :=
  patch_status_iff (.start (notificationDispatcherNew none)) "x" (by decide) (by decide)
    Env.allocOk_quiet

/-- No body: the answer is 500, and none of the classes has it. -/
theorem absent_patch_answered_500 :
    ¬∃ answer s' e', subscriptionPatchHandle openDeps.validate (storedPatch none)
        (.start (notificationDispatcherNew none)) "x" Env.quiet = .ok ((answer, s'), e') ∧
      PatchAnswers (storedPatch none) .newInmemory "x" Env.quiet.popAlloc answer.status := by
  intro h
  obtain ⟨answer, s', e', hrun, hanswers⟩ := h
  have hstatus : (Prog.result? (subscriptionPatchHandle openDeps.validate (storedPatch none)
      (.start (notificationDispatcherNew none)) "x") Env.quiet).map (fun r => r.1.status) =
        some 500 := by
    decide
  unfold Prog.result? at hstatus
  rw [hrun] at hstatus
  have hfive : answer.status = 500 := Option.some.inj hstatus
  rw [hfive] at hanswers
  cases hanswers

end handler

end Nssf
