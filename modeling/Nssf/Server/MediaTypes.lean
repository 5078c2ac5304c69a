import Mathlib.Data.List.DropRight
import Nssf.Server.Outcome
import Nssf.Subscription.PatchCommit

/-! Which content types the routes with a body take. A media type is what stands before the
parameters, in any case and with blanks around it. Each route compares the header value in its
own way: as a whole in any case, as a whole to the letter, or by its first characters. -/

namespace Nssf

open Base Run Subscription SubscriptionStore

section values

def isOws (c : Char) : Bool := c == ' ' || c == '\t'

def trimOws (cs : List Char) : List Char := (cs.dropWhile isOws).rdropWhile isOws

/-- The type and the subtype of a `Content-Type` value, in lower case. -/
def mediaType (ct : String) : String :=
  String.ofList ((trimOws (ct.toList.takeWhile (· != ';'))).map tolower)

/-- The value is its media type: no parameter, and no blank at either end. -/
def Bare (ct : String) : Prop := ';' ∉ ct.toList ∧ trimOws ct.toList = ct.toList

/-- Up to the first parameter there are only blanks. -/
def onlyParameters (rest : List Char) : Bool := (rest.takeWhile (· != ';')).all isOws

/-- A media type as the sources spell it: lower case, no blank, no parameter. -/
def spelled (lit : List Char) : Bool :=
  lit.all fun c => c != ';' && !isOws c && tolower c == c

variable {lit ct : String}

theorem spelled_iff {cs : List Char} : spelled cs = true ↔
    ∀ c ∈ cs, c ≠ ';' ∧ isOws c = false ∧ tolower c = c := by
  simp only [spelled, List.all_eq_true, Bool.and_eq_true, bne_iff_ne, Bool.not_eq_true',
    beq_iff_eq, and_assoc]

theorem map_tolower_of_spelled {cs : List Char} (h : spelled cs = true) :
    cs.map tolower = cs := by
  have hsame : ∀ c ∈ cs, tolower c = id c := fun c hc => (spelled_iff.1 h c hc).2.2
  rw [List.map_congr_left hsame, List.map_id]

theorem trimOws_eq_self {cs : List Char} (h : ∀ c ∈ cs, isOws c = false) : trimOws cs = cs := by
  have hfront : cs.dropWhile isOws = cs := by
    cases cs with
    | nil => rfl
    | cons c cs => rw [List.dropWhile_cons_of_neg (by simp [h c List.mem_cons_self])]
  rw [trimOws, hfront, List.rdropWhile_eq_self_iff]
  intro hne
  simp [h _ (List.getLast_mem hne)]

theorem mediaType_of_bare (h : Bare ct) :
    mediaType ct = String.ofList (ct.toList.map tolower) := by
  have hwhole : ct.toList.takeWhile (· != ';') = ct.toList := by
    apply List.takeWhile_eq_self_iff.2
    intro c hc
    rw [bne_iff_ne]
    rintro rfl
    exact h.1 hc
  rw [mediaType, hwhole, h.2]

theorem strcasecmpEq_iff (hlit : spelled lit.toList = true) :
    strcasecmpEq ct lit = true ↔ ct.toList.map tolower = lit.toList := by
  rw [strcasecmpEq, beq_iff_eq, map_tolower_of_spelled hlit]

/-- Equality in any case takes the media type without parameters and blanks. -/
theorem strcasecmpEq_iff_bare (hlit : spelled lit.toList = true) :
    strcasecmpEq ct lit = true ↔ mediaType ct = lit ∧ Bare ct := by
  rw [strcasecmpEq_iff hlit]
  constructor
  · intro h
    have hchar : ∀ c ∈ ct.toList, c ≠ ';' ∧ isOws c = false := by
      intro c hc
      have hmem : tolower c ∈ lit.toList := by
        rw [← h]
        exact List.mem_map_of_mem hc
      obtain ⟨hsemi, hows, -⟩ := spelled_iff.1 hlit _ hmem
      constructor
      · rintro rfl
        exact hsemi rfl
      · rw [Bool.eq_false_iff]
        intro hblank
        simp only [isOws, Bool.or_eq_true, beq_iff_eq] at hblank
        rcases hblank with rfl | rfl
        · cases hows
        · cases hows
    have hbare : Bare ct :=
      ⟨fun hmem => (hchar _ hmem).1 rfl, trimOws_eq_self fun c hc => (hchar c hc).2⟩
    exact ⟨by rw [mediaType_of_bare hbare, h, String.ofList_toList], hbare⟩
  · intro h
    obtain ⟨hmedia, hbare⟩ := h
    rw [mediaType_of_bare hbare] at hmedia
    rw [← hmedia, String.toList_ofList]

/-- Equality to the letter takes it in lower case only. -/
theorem eq_iff_bare (hlit : spelled lit.toList = true) :
    ct = lit ↔ mediaType ct = lit ∧ Bare ct ∧ ct.toList.map tolower = ct.toList := by
  constructor
  · rintro rfl
    have hself := map_tolower_of_spelled hlit
    obtain ⟨hmedia, hbare⟩ := (strcasecmpEq_iff_bare hlit).1 ((strcasecmpEq_iff hlit).2 hself)
    exact ⟨hmedia, hbare, hself⟩
  · intro h
    obtain ⟨hmedia, hbare, hlower⟩ := h
    have heq := (strcasecmpEq_iff hlit).1 ((strcasecmpEq_iff_bare hlit).2 ⟨hmedia, hbare⟩)
    rw [hlower, String.toList_inj] at heq
    exact heq

theorem rdropWhile_append {a b : List Char} {p : Char → Bool} :
    (a ++ b).rdropWhile p = if b.all p then a.rdropWhile p else a ++ b.rdropWhile p := by
  have hempty : (b.reverse.dropWhile p).isEmpty = b.all p := by
    rw [Bool.eq_iff_iff, List.isEmpty_iff, List.dropWhile_eq_nil_iff, List.all_eq_true]
    simp only [List.mem_reverse]
  rw [List.rdropWhile, List.reverse_append, List.dropWhile_append, hempty]
  split_ifs
  · rfl
  · rw [List.reverse_append, List.reverse_reverse]
    rfl

/-- Behind the media type a value goes on with a parameter, or it has another media type. -/
theorem mediaType_append (hlit : spelled lit.toList = true) (hne : lit.toList ≠ [])
    {rest : List Char} (hct : ct.toList = lit.toList ++ rest) :
    mediaType ct = lit ↔ onlyParameters rest = true := by
  have hchar := spelled_iff.1 hlit
  have hblank : ∀ c ∈ lit.toList, isOws c = false := fun c hc => (hchar c hc).2.1
  have htake : ct.toList.takeWhile (· != ';') = lit.toList ++ rest.takeWhile (· != ';') := by
    rw [hct]
    apply List.takeWhile_append_of_pos
    intro c hc
    simpa using (hchar c hc).1
  have hfront : (lit.toList ++ rest.takeWhile (· != ';')).dropWhile isOws =
      lit.toList ++ rest.takeWhile (· != ';') := by
    obtain ⟨c, cs, hcs⟩ := List.exists_cons_of_ne_nil hne
    rw [hcs, List.cons_append, List.dropWhile_cons_of_neg]
    simp [hblank c (hcs ▸ List.mem_cons_self)]
  have hself : lit.toList.rdropWhile isOws = lit.toList :=
    List.rdropWhile_eq_self_iff.2 fun hl => by simp [hblank _ (List.getLast_mem hl)]
  have htrim : trimOws (ct.toList.takeWhile (· != ';')) = if onlyParameters rest then lit.toList
      else lit.toList ++ (rest.takeWhile (· != ';')).rdropWhile isOws := by
    rw [trimOws, htake, hfront, rdropWhile_append, hself]
    rfl
  rw [mediaType, htrim]
  split_ifs with hrest
  · rw [map_tolower_of_spelled hlit, String.ofList_toList]
    exact iff_of_true rfl hrest
  · refine iff_of_false ?_ hrest
    intro heq
    rw [← String.toList_inj, String.toList_ofList, List.map_append, map_tolower_of_spelled hlit,
      List.append_right_eq_self, List.map_eq_nil_iff, List.rdropWhile_eq_nil_iff] at heq
    exact hrest (List.all_eq_true.2 heq)

end values

section routes

variable (validate : BearerValidator) (req : Request) (s : Stores)

/-- The requests that carry a body. -/
inductive BodyRoute where
  | subscriptionPost
  | availabilityPut (nfId : String)
  | subscriptionPatch (id : String)
  | availabilityPatch (nfId : String) (taiText : Option String)

namespace BodyRoute

def handle : BodyRoute → Run (Response × Stores)
  | subscriptionPost => subscriptionPostHandle validate req s
  | availabilityPut nfId => availabilityPutHandle validate req s nfId
  | subscriptionPatch id => subscriptionPatchHandle validate req s id
  | availabilityPatch nfId taiText => availabilityPatchHandle validate req s nfId taiText

/-- The media type the route is about. -/
def expected : BodyRoute → String
  | subscriptionPost => jsonContentType
  | availabilityPut _ => jsonContentType
  | subscriptionPatch _ => jsonPatchContentType
  | availabilityPatch _ _ => jsonPatchContentType

/-- The values that the comparison of the route puts on the right side: a value of the expected
media type is spelled in the way the route looks for, and one that merely begins with it goes on
with a parameter. -/
def Fits (ct : String) : BodyRoute → Prop
  | subscriptionPost => mediaType ct = jsonContentType → Bare ct
  | availabilityPut _ => mediaType ct = jsonContentType → Bare ct
  | subscriptionPatch _ =>
    (mediaType ct = jsonPatchContentType → jsonPatchContentType.toList <+: ct.toList) ∧
      ∀ rest, ct.toList = jsonPatchContentType.toList ++ rest → onlyParameters rest = true
  | availabilityPatch _ _ => mediaType ct = jsonPatchContentType →
    Bare ct ∧ ct.toList.map tolower = ct.toList

/-- The comparison of the route. -/
def accepts (ct : String) : BodyRoute → Bool
  | subscriptionPost => strcasecmpEq ct jsonContentType
  | availabilityPut _ => strcasecmpEq ct jsonContentType
  | subscriptionPatch _ => patchContentTypeOk (some ct)
  | availabilityPatch _ _ => decide (ct = jsonPatchContentType)

/-- The route answers that the media type is not supported. -/
def Unsupported (route : BodyRoute) (e : Env) : Prop :=
  ∃ answer s' e', route.handle validate req s e = .ok ((answer, s'), e') ∧ answer.status = 415

end BodyRoute

end routes

section engine

variable {τ : Type} (seam : PublishSeam τ) (r : AvailabilityRepo) (t : τ)

theorem ends_any {α : Type} (m : Run α) : Ends (fun _ => True) (fun _ => True) m :=
  ends_of_ok fun _ _ _ _ => trivial

/-- The reply is not about the media type. -/
def OtherReply (x : AvailabilityReply × AvailabilityRepo × τ) : Prop :=
  x.1.result ≠ .unsupportedMediaType

theorem ends_committedReply_other (wanted : Bool) (snssais : List Json) (tai : Json)
    (features : Option String) : Ends (fun _ => True)
      (fun reply => reply.result ≠ .unsupportedMediaType)
      (committedReply wanted snssais tai features) := by
  unfold committedReply
  split_ifs with hempty hwanted
  · exact ends_pure (by decide)
  · refine Ends.bind (ends_any _) fun o _ => ?_
    cases o with
    | none => exact ends_pure (by simp [refuse])
    | some authorized => exact ends_pure (by simp)
  · exact ends_pure (by decide)

theorem ends_publish_other (ev : ChangeEvent) (wanted : Bool) (snssais : List Json) (tai : Json)
    (features : Option String) : Ends (fun _ => True) OtherReply (do
      let t ← publishChange seam ev t
      let reply ← committedReply wanted snssais tai features
      return (reply, r, t)) := by
  refine Ends.bind (ends_any _) fun t' _ => ?_
  refine Ends.bind (ends_committedReply_other wanted snssais tai features) fun reply hreply => ?_
  exact ends_pure hreply

theorem ends_commitReplace_other (nf : String) (body : Json) (wanted : Bool)
    (snssais : List Json) (tai plmnId : Json) : Ends (fun _ => True) OtherReply
      (commitReplace seam r t nf body wanted snssais tai plmnId) := by
  refine Ends.bind (ends_any _) fun reallocation _ => ?_
  refine Ends.bind (ends_any _) fun features _ => ?_
  refine Ends.bind (ends_any _) fun before _ => ?_
  refine Ends.bind (ends_any _) fun o _ => ?_
  obtain ⟨done, r'⟩ := o
  cases done with
  | false => exact ends_pure (by simp [OtherReply, refuse])
  | true => exact ends_publish_other seam r' t _ wanted snssais tai _

theorem ends_availabilityReplace_other (nfId : Option String) (info : Option Json)
    (wanted : Bool) : Ends (fun _ => True) OtherReply
      (availabilityReplace seam r t nfId info wanted) := by
  unfold availabilityReplace
  cases info with
  | none => exact ends_pure (by simp [OtherReply, refuse])
  | some body =>
    cases nfId.filter nfIdValid with
    | none => exact ends_pure (by simp [OtherReply, refuse])
    | some nf =>
      dsimp only
      split_ifs with hobject
      · refine Ends.bind (ends_any _) fun o _ => ?_
        match o with
        | none => exact ends_pure (by simp [OtherReply, refuse])
        | some (_, none) => exact ends_pure (by simp [OtherReply, refuse])
        | some (snssais, some tai) =>
          refine Ends.bind (ends_any _) fun plmnId _ => ?_
          match plmnId with
          | some (.object ms) => exact ends_commitReplace_other seam r t nf body wanted _ tai _
          | none => exact ends_pure (by simp [OtherReply, refuse])
          | some .null => exact ends_pure (by simp [OtherReply, refuse])
          | some (.bool _) => exact ends_pure (by simp [OtherReply, refuse])
          | some (.number _) => exact ends_pure (by simp [OtherReply, refuse])
          | some (.string _) => exact ends_pure (by simp [OtherReply, refuse])
          | some (.array _) => exact ends_pure (by simp [OtherReply, refuse])
      · exact ends_pure (by simp [OtherReply, refuse])

theorem ends_commitPatch_other (nf : String) (tai : Json) (wanted : Bool) (before : Json)
    (working : List Json) : Ends (fun _ => True) OtherReply
      (commitPatch seam r t nf tai wanted before working) := by
  refine Ends.bind (ends_any _) fun o _ => ?_
  obtain ⟨code, r'⟩ := o
  cases code with
  | noRow => exact ends_pure (by simp [OtherReply, refuse])
  | failed => exact ends_pure (by simp [OtherReply, refuse])
  | done => exact ends_publish_other seam r' t _ wanted working tai none

theorem ends_patchOps_other (nf : String) (plmnId tai : Json) (ops : List Json)
    (wanted : Bool) : Ends (fun _ => True) OtherReply
      (patchOps seam r t nf plmnId tai ops wanted) := by
  refine Ends.bind (ends_any _) fun valid _ => ?_
  cases valid with
  | false => exact ends_pure (by simp [OtherReply, refuse])
  | true =>
    refine Ends.bind (ends_any _) fun before _ => ?_
    unfold patchSnapshot
    split_ifs with herr hfound
    · exact ends_pure (by simp [OtherReply, refuse])
    · exact ends_pure (by simp [OtherReply, refuse])
    · refine Ends.bind (ends_any _) fun copy _ => ?_
      match copy with
      | some (.array working) =>
        refine Ends.bind (ends_any _) fun o _ => ?_
        cases o with
        | none => exact ends_pure (by simp [OtherReply, refuse])
        | some patched => exact ends_commitPatch_other seam r t nf tai wanted _ patched
      | none => exact ends_pure (by simp [OtherReply, refuse])
      | some .null => exact ends_pure (by simp [OtherReply, refuse])
      | some (.bool _) => exact ends_pure (by simp [OtherReply, refuse])
      | some (.number _) => exact ends_pure (by simp [OtherReply, refuse])
      | some (.string _) => exact ends_pure (by simp [OtherReply, refuse])
      | some (.object _) => exact ends_pure (by simp [OtherReply, refuse])

/-- Behind the comparison of the content type a patch is answered for other reasons only. -/
theorem ends_availabilityPatch_other (nfId : Option String) (tai patch : Option Json)
    (wanted : Bool) : Ends (fun _ => True) OtherReply
      (availabilityPatch seam r t nfId (some jsonPatchContentType) tai patch wanted) := by
  have hct : ¬some jsonPatchContentType ≠ some "application/json-patch+json" := by
    simp [jsonPatchContentType]
  unfold availabilityPatch
  rw [if_neg hct]
  cases nfId.filter nfIdValid with
  | none => exact ends_pure (by simp [OtherReply, refuse])
  | some nf =>
    cases tai.filter Json.isObject with
    | none => exact ends_pure (by simp [OtherReply, refuse])
    | some area =>
      refine Ends.bind (ends_any _) fun plmnId _ => ?_
      match plmnId with
      | some (.object ms) =>
        match patch with
        | some (.array ops) => exact ends_patchOps_other seam r t nf _ area ops wanted
        | none => exact ends_pure (by simp [OtherReply, refuse])
        | some .null => exact ends_pure (by simp [OtherReply, refuse])
        | some (.bool _) => exact ends_pure (by simp [OtherReply, refuse])
        | some (.number _) => exact ends_pure (by simp [OtherReply, refuse])
        | some (.string _) => exact ends_pure (by simp [OtherReply, refuse])
        | some (.object _) => exact ends_pure (by simp [OtherReply, refuse])
      | none => exact ends_pure (by simp [OtherReply, refuse])
      | some .null => exact ends_pure (by simp [OtherReply, refuse])
      | some (.bool _) => exact ends_pure (by simp [OtherReply, refuse])
      | some (.number _) => exact ends_pure (by simp [OtherReply, refuse])
      | some (.string _) => exact ends_pure (by simp [OtherReply, refuse])
      | some (.array _) => exact ends_pure (by simp [OtherReply, refuse])

end engine

section store

variable {store : SubscriptionStore}

theorem ends_patch_supported {contentType : Option String} (id : Option String)
    (doc : Option Json) (h : patchContentTypeOk contentType = true) :
    Ends (fun _ => True) (fun r => r.1 ≠ .unsupported) (store.patch id contentType doc) := by
  have hreplace (k : String) (fields : PatchedFields) :
      Ends (fun _ => True) (fun r => r.1 ≠ .unsupported) (store.replaceFields k fields) := by
    refine Ends.bind (ends_any _) fun r _ => ?_
    obtain ⟨code, s'⟩ := r
    cases code with
    | noRow => exact ends_pure (by simp)
    | done => exact ends_pure (by simp)
    | failed => exact ends_pure (by simp)
  unfold patch
  cases id with
  | none => exact ends_pure (by simp)
  | some k =>
    cases doc with
    | none => exact ends_pure (by simp)
    | some doc =>
      simp only [h, if_true]
      refine Ends.bind (ends_any _) fun got _ => ?_
      cases got with
      | absent => exact ends_pure (by simp)
      | failed => exact ends_pure (by simp)
      | found x =>
        refine Ends.bind (ends_any _) fun fields _ => ?_
        cases fields with
        | none => exact ends_pure (by simp)
        | some fields => exact hreplace k fields

end store

section answers

variable {validate : BearerValidator} {req : Request} {s : Stores}

theorem lengthChecked_of_measured (h : req.measured = true) (handle : Run (Response × Stores)) :
    lengthChecked req s handle = handle := by
  simp only [Request.measured, Bool.and_eq_true, Bool.not_eq_true', Bool.and_eq_false_iff,
    decide_eq_false_iff_not] at h
  have hfits : ¬(0 < req.maxBodyLen ∧ req.maxBodyLen < req.contentLength) := by omega
  unfold lengthChecked
  rw [h.1, if_neg hfits]
  rfl

/-- The part is never answered with 415. -/
def Spares (m : Run (Response × Stores)) : Prop :=
  Ends (fun _ => True) (fun r => r.1.status ≠ 415) m

theorem Spares.not_unsupported {m : Run (Response × Stores)} (h : Spares m) (e : Env) :
    ¬∃ answer s' e', m e = .ok ((answer, s'), e') ∧ answer.status = 415 := by
  intro hex
  obtain ⟨answer, s', e', hrun, hstatus⟩ := hex
  exact (h e).1 _ _ hrun hstatus

theorem spares_refuseWith (cause : ProblemCause) (detail : Option String)
    (h : cause.metadata.status ≠ 415) : Spares (refuseWith req s cause detail) := by
  refine Ends.bind (gives_problem cause detail req.path).ends fun answer hanswer => ends_pure ?_
  rw [hanswer]
  exact h

theorem unsupported_refuseWith (cause : ProblemCause) (detail : Option String)
    (h : cause.metadata.status = 415) (e : Env) :
    ∃ answer s' e', refuseWith req s cause detail e = .ok ((answer, s'), e') ∧
      answer.status = 415 := by
  obtain ⟨answer, e', hrun, hstatus, -⟩ := (gives_problem cause detail req.path).ok e
  exact ⟨answer, s, e', Prog.bind_of_ok hrun, hstatus.trans h⟩

theorem spares_postDocument (doc : Json) : Spares (postDocument req s doc) := by
  refine Ends.bind (ends_any _) fun cb _ => ?_
  cases cb.bind Json.string? with
  | none => exact spares_refuseWith _ _ (by decide)
  | some callbackUri =>
    dsimp only
    split_ifs with hallowed
    · refine Ends.bind (ends_any _) fun filter _ => ?_
      refine Ends.bind (ends_any _) fun amfId _ => ?_
      refine Ends.bind (ends_any _) fun amfSetId _ => ?_
      refine Ends.bind (ends_any _) fun r _ => ?_
      obtain ⟨result, id, subs, outbox⟩ := r
      dsimp only
      split_ifs with hok
      · exact ends_pure (by simp)
      · exact spares_refuseWith _ _ (by decide)
    · exact spares_refuseWith _ _ (by decide)

theorem spares_answerJson (authorized : Option Json) : Spares (answerJson req authorized s) := by
  cases authorized with
  | none => exact spares_refuseWith _ _ (by decide)
  | some j =>
    refine Ends.bind (ends_any _) fun body _ => ?_
    cases body with
    | none => exact spares_refuseWith _ _ (by decide)
    | some body => exact ends_pure (by simp)

theorem spares_answerAvailability (unsupported : ProblemCause) {reply : AvailabilityReply}
    (h : reply.result ≠ .unsupportedMediaType) :
    Spares (answerAvailability req unsupported reply s) := by
  unfold answerAvailability
  cases hresult : reply.result with
  | ok => exact spares_answerJson _
  | noContent => exact ends_pure (by simp)
  | badRequest => exact spares_refuseWith _ _ (by decide)
  | unsupportedMediaType => exact absurd hresult h
  | notFound => exact spares_refuseWith _ _ (by decide)
  | internal => exact spares_refuseWith _ _ (by decide)

theorem spares_answerPatch {result : SubResult} (h : result ≠ .unsupported) :
    Spares (answerPatch req result s) := by
  cases result with
  | ok => exact ends_pure (by simp)
  | unsupported => exact absurd rfl h
  | notFound => exact spares_refuseWith _ _ (by decide)
  | badPatch => exact spares_refuseWith _ _ (by decide)
  | error => exact spares_refuseWith _ _ (by decide)

theorem unsupported_jsonBody_iff {ct : String} (hct : req.contentType = some ct)
    {handle : Json → Run (Response × Stores)} (hspares : ∀ doc, Spares (handle doc)) (e : Env) :
    (∃ answer s' e', jsonBody req s handle e = .ok ((answer, s'), e') ∧ answer.status = 415) ↔
      strcasecmpEq ct jsonContentType = false := by
  unfold jsonBody
  rw [hct, Option.any_some]
  cases hsame : strcasecmpEq ct jsonContentType with
  | false =>
    refine iff_of_true ?_ rfl
    exact unsupported_refuseWith _ _ rfl e
  | true =>
    rw [if_pos rfl]
    refine iff_of_false ?_ Bool.true_eq_false.mp
    apply Spares.not_unsupported
    cases req.body with
    | none => exact spares_refuseWith _ _ (by decide)
    | some body =>
      refine Ends.bind (ends_any _) fun o _ => ?_
      cases o with
      | none => exact spares_refuseWith _ _ (by decide)
      | some doc => exact hspares doc

theorem yields_parseOptional (text : Option String) :
    Yields (parseOptional text) (text.bind Json.parseText) := by
  cases text with
  | none => exact yields_pure none
  | some text => exact Yields.bind yields_alloc (yields_pure _)

theorem unsupported_modifyAndAnswer_iff {ct : String} (hct : req.contentType = some ct)
    (id : String) (doc : Json) (e : Env) :
    (∃ answer s' e', modifyAndAnswer req s id (some doc) e = .ok ((answer, s'), e') ∧
      answer.status = 415) ↔ patchContentTypeOk (some ct) = false := by
  cases hok : patchContentTypeOk (some ct) with
  | false =>
    refine iff_of_true ?_ rfl
    have hpatch : s.subscriptions.patch (some id) req.contentType (some doc) =
        pure (.unsupported, s.subscriptions) := by
      simp only [patch, hct, hok, Bool.false_eq_true, if_false]
    unfold modifyAndAnswer
    rw [hpatch, pure_bind]
    exact unsupported_refuseWith _ _ rfl e
  | true =>
    refine iff_of_false ?_ Bool.true_eq_false.mp
    apply Spares.not_unsupported
    rw [← hct] at hok
    refine Ends.bind (ends_patch_supported (some id) (some doc) hok) fun r hr => ?_
    obtain ⟨result, subs⟩ := r
    exact spares_answerPatch hr

theorem unsupported_patchAndAnswer_iff {ct : String} (hct : req.contentType = some ct)
    (nfId : String) (tai patch : Option Json) (e : Env) :
    (∃ answer s' e', patchAndAnswer req s nfId tai patch e = .ok ((answer, s'), e') ∧
      answer.status = 415) ↔ ct ≠ jsonPatchContentType := by
  by_cases heq : ct = jsonPatchContentType
  · refine iff_of_false ?_ fun hne => hne heq
    apply Spares.not_unsupported
    unfold patchAndAnswer
    rw [hct, heq]
    refine Ends.bind (ends_availabilityPatch_other _ _ _ (some nfId) tai patch true)
      fun x hx => ?_
    obtain ⟨reply, r, t⟩ := x
    exact spares_answerAvailability _ hx
  · refine iff_of_true ?_ heq
    have hne : some ct ≠ some "application/json-patch+json" := fun h => heq (Option.some.inj h)
    unfold patchAndAnswer availabilityPatch
    rw [hct, if_pos hne, pure_bind]
    exact unsupported_refuseWith _ _ rfl e

end answers

section rule

variable {validate : BearerValidator} {req : Request} {s : Stores}

namespace BodyRoute

theorem unsupported_iff (route : BodyRoute) {ct : String} {doc : Json}
    (hadm : req.admitted validate scopeNssaiavailability = true) (hlen : req.measured = true)
    (hct : req.contentType = some ct) (hdoc : req.document? = some doc) {e : Env}
    (he : e.AllocOk) : route.Unsupported validate req s e ↔ route.accepts ct = false := by
  have hhandle (handle : Run (Response × Stores)) :
      gated validate req s scopeNssaiavailability (lengthChecked req s handle) = handle := by
    rw [gated_of_admitted hadm, lengthChecked_of_measured hlen]
  unfold Unsupported
  cases route with
  | subscriptionPost =>
    simp only [handle, subscriptionPostHandle, hhandle]
    exact unsupported_jsonBody_iff hct spares_postDocument e
  | availabilityPut nfId =>
    simp only [handle, availabilityPutHandle, hhandle]
    refine unsupported_jsonBody_iff hct (fun info => ?_) e
    refine Ends.bind (ends_availabilityReplace_other _ _ _ (some nfId) (some info) true)
      fun x hx => ?_
    obtain ⟨reply, r, t⟩ := x
    exact spares_answerAvailability _ hx
  | subscriptionPatch id =>
    simp only [handle, subscriptionPatchHandle, hhandle]
    obtain ⟨e₁, hparse, -⟩ := yields_parseOptional req.body e he
    have hread : req.body.bind Json.parseText = some doc := hdoc
    rw [hread] at hparse
    rw [Prog.bind_of_ok hparse]
    exact unsupported_modifyAndAnswer_iff hct id doc e₁
  | availabilityPatch nfId taiText =>
    simp only [handle, availabilityPatchHandle, hhandle]
    obtain ⟨e₁, htai, hd⟩ := yields_parseOptional taiText e he
    obtain ⟨e₂, hparse, -⟩ := yields_parseOptional req.body e₁ (hd.allocOk he)
    rw [Prog.bind_of_ok htai, Prog.bind_of_ok hparse]
    rw [accepts, decide_eq_false_iff_not]
    exact unsupported_patchAndAnswer_iff hct nfId _ _ e₂

theorem spelled_json : spelled jsonContentType.toList = true := by decide

theorem spelled_jsonPatch : spelled jsonPatchContentType.toList = true := by decide

/-- A comparison that begins with the media type takes what the rule takes, if every value of
the media type begins with it and nothing but parameters follows it. -/
theorem patchContentTypeOk_iff (ct : String) :
    (patchContentTypeOk (some ct) = true ↔ mediaType ct = jsonPatchContentType) ↔
      (mediaType ct = jsonPatchContentType → jsonPatchContentType.toList <+: ct.toList) ∧
        ∀ rest, ct.toList = jsonPatchContentType.toList ++ rest → onlyParameters rest = true := by
  have hne : jsonPatchContentType.toList ≠ [] := by decide
  rw [patchContentTypeOk, List.isPrefixOf_iff_prefix]
  constructor
  · intro h
    refine ⟨h.2, fun rest hrest => ?_⟩
    exact (mediaType_append spelled_jsonPatch hne hrest).1 (h.1 ⟨rest, hrest.symm⟩)
  · intro h
    refine ⟨fun hpre => ?_, h.1⟩
    obtain ⟨rest, hrest⟩ := hpre
    exact (mediaType_append spelled_jsonPatch hne hrest.symm).2 (h.2 rest hrest.symm)

theorem accepts_iff_fits (route : BodyRoute) (ct : String) :
    (route.accepts ct = true ↔ mediaType ct = route.expected) ↔ route.Fits ct := by
  have hwhole : (strcasecmpEq ct jsonContentType = true ↔ mediaType ct = jsonContentType) ↔
      (mediaType ct = jsonContentType → Bare ct) := by
    rw [strcasecmpEq_iff_bare spelled_json]
    exact and_iff_left_iff_imp
  cases route with
  | subscriptionPost => exact hwhole
  | availabilityPut nfId => exact hwhole
  | subscriptionPatch id => exact patchContentTypeOk_iff ct
  | availabilityPatch nfId taiText =>
    simp only [accepts, expected, Fits, decide_eq_true_eq]
    rw [eq_iff_bare spelled_jsonPatch]
    exact and_iff_left_iff_imp

/-- A route follows the rule on a value exactly when its comparison is right about the value. -/
theorem media_rule_iff (route : BodyRoute) (s : Stores) {ct : String} {doc : Json}
    (hadm : req.admitted validate scopeNssaiavailability = true) (hlen : req.measured = true)
    (hct : req.contentType = some ct) (hdoc : req.document? = some doc) {e : Env}
    (he : e.AllocOk) :
    (route.Unsupported validate req s e ↔ mediaType ct ≠ route.expected) ↔ route.Fits ct := by
  rw [route.unsupported_iff hadm hlen hct hdoc he, ← accepts_iff_fits, Ne, ← Bool.not_eq_true,
    not_iff_not]

end BodyRoute

/-- A post that is right but for the parameter of its content type. -/
def charsetPost : Request :=
  sampleRequest "POST" "/nssai-availability/subscriptions" "application/json; charset=utf-8"
    "\x7b\"callbackUri\":\"https://amf/cb\"\x7d"

theorem media_rule_charset :
    (BodyRoute.subscriptionPost.Unsupported openDeps.validate charsetPost
        (.start (notificationDispatcherNew none)) Env.quiet ↔
      mediaType "application/json; charset=utf-8" ≠ BodyRoute.subscriptionPost.expected) ↔
        BodyRoute.subscriptionPost.Fits "application/json; charset=utf-8" := by
  have hdoc : charsetPost.document?.isSome = true := by decide
  obtain ⟨doc, hdoc⟩ := Option.isSome_iff_exists.1 hdoc
  exact BodyRoute.media_rule_iff _ _ (by decide) (by decide) rfl hdoc Env.allocOk_quiet

def suffixPatch : Request :=
  sampleRequest "PATCH" "/nssai-availability/subscriptions/x" "application/json-patch+jsonx" "[]"

/-- A parameter is refused on the post, and another media type is let through on the patch. -/
theorem media_types_off_rule :
    ¬(BodyRoute.subscriptionPost.Unsupported openDeps.validate charsetPost
        (.start (notificationDispatcherNew none)) Env.quiet ↔
      mediaType "application/json; charset=utf-8" ≠ BodyRoute.subscriptionPost.expected) ∧
    ¬((BodyRoute.subscriptionPatch "x").Unsupported openDeps.validate suffixPatch
        (.start (notificationDispatcherNew none)) Env.quiet ↔
      mediaType "application/json-patch+jsonx" ≠ (BodyRoute.subscriptionPatch "x").expected) := by
  have hpost : charsetPost.document?.isSome = true := by decide
  have hpatch : suffixPatch.document?.isSome = true := by decide
  obtain ⟨post, hpost⟩ := Option.isSome_iff_exists.1 hpost
  obtain ⟨patch, hpatch⟩ := Option.isSome_iff_exists.1 hpatch
  constructor
  · rw [BodyRoute.unsupported_iff _ (by decide) (by decide) rfl hpost Env.allocOk_quiet]
    decide
  · rw [BodyRoute.unsupported_iff _ (by decide) (by decide) rfl hpatch Env.allocOk_quiet]
    decide

end rule

end Nssf
