import Nssf.Availability.Publication
import Nssf.Server.Router
import Nssf.Subscription.LiveRecords

/-! What a request hands to the part behind its handler, and the rule that follows a property of
the live records through the dispatch of any request. The rule asks something only of the three
requests whose content reaches a lookup or the store: the post, the patch and the query. -/

namespace Nssf

open Base Run Subscription

namespace Request

variable (validate : BearerValidator) (req : Request)

/-- The bearer is valid and its token has the scope. -/
def granted (scope : String) : Bool :=
  match req.authorization.bind bearerOf with
  | none => false
  | some bearer =>
    match validate bearer with
    | .error _ => false
    | .ok claim => scopeMatch claim scope

def admitted (scope : String) : Bool := req.granted validate scope && !req.uriTooLong

/-- The length of the body is told and within the limit. -/
def measured : Bool :=
  req.hasContentLength &&
    !(decide (0 < req.maxBodyLen) && decide (req.maxBodyLen < req.contentLength))

def Targets (method : String) (resource : Resource) : Prop :=
  ∃ path, req.path = some path ∧ req.method = some method ∧
    resourceOf (routePart path) = resource

def document? : Option Json := req.body.bind Json.parseText

/-- The document gets to the create of a subscription. -/
def Posts (doc : Json) : Prop :=
  req.Targets "POST" .subscriptions ∧ req.admitted validate scopeNssaiavailability = true ∧
    req.measured = true ∧ req.contentType.any (strcasecmpEq · jsonContentType) = true ∧
    req.document? = some doc

/-- The document gets to the patch of the subscription. -/
def Patches (id : String) (doc : Json) : Prop :=
  req.Targets "PATCH" (.subscription id) ∧
    req.admitted validate scopeNssaiavailability = true ∧ req.measured = true ∧
    req.document? = some doc

/-- The query is one that the selection may be asked with. -/
def Queries (query : Json) : Prop :=
  req.Targets "GET" .sliceInformation ∧ req.admitted validate scopeNsselection = true ∧
    ∃ e e', buildEngineQuery (req.path.bind queryPart) e = .ok (some query, e')

end Request

section combinators

variable {F : Fault → Prop} {I : Stores → Prop} {validate : BearerValidator} {req : Request}
  {s : Stores}

/-- A problem has the status of its cause, whether or not it can be built. -/
theorem gives_problem (cause : ProblemCause) (detail instanceUri : Option String) :
    Gives F (fun answer => answer.status = cause.metadata.status)
      (problem cause detail instanceUri) := by
  refine Gives.bind (gives_allocated _) fun pd hpd => ?_
  rcases hpd with rfl | rfl
  · exact gives_pure rfl
  refine Gives.bind (gives_allocated _) fun json hjson => ?_
  rcases hjson with rfl | rfl
  · exact gives_pure rfl
  exact Gives.bind (gives_allocated _) fun _ _ => gives_pure rfl

theorem ends_refuseWith (h : I s) (cause : ProblemCause) (detail : Option String) :
    Ends F (fun r => I r.2) (refuseWith req s cause detail) :=
  Ends.bind (gives_problem cause detail req.path).ends fun _ _ => ends_pure h

theorem ends_securityGate (scope : String) :
    Ends F (fun o => o = none → req.granted validate scope = true)
      (securityGate validate scope req.authorization req.path) := by
  have hdeny (cause : ProblemCause) (detail : Option String) :
      Ends F (fun o => o = none → req.granted validate scope = true)
        (problem cause detail req.path >>= fun denied => pure (some denied)) := by
    refine Ends.bind (gives_problem cause detail req.path).ends fun denied _ => ?_
    refine ends_pure ?_
    intro h
    cases h
  unfold securityGate
  cases hb : req.authorization.bind bearerOf with
  | none => exact hdeny _ _
  | some bearer =>
    simp only
    cases hv : validate bearer with
    | error err => exact hdeny _ _
    | ok claim =>
      simp only
      split_ifs with hscope
      · refine ends_pure ?_
        intro _
        simp only [Request.granted, hb, hv, hscope]
      · exact hdeny _ _

theorem ends_gated (h : I s) {scope : String} {handle : Run (Response × Stores)}
    (hh : req.admitted validate scope = true → Ends F (fun r => I r.2) handle) :
    Ends F (fun r => I r.2) (gated validate req s scope handle) := by
  refine Ends.bind (ends_securityGate scope) fun o ho => ?_
  cases o with
  | some denied => exact ends_pure h
  | none =>
    cases hlong : req.uriTooLong with
    | true => exact ends_refuseWith h _ _
    | false =>
      apply hh
      unfold Request.admitted
      rw [ho rfl, hlong]
      rfl

theorem ends_lengthChecked (h : I s) {handle : Run (Response × Stores)}
    (hh : req.measured = true → Ends F (fun r => I r.2) handle) :
    Ends F (fun r => I r.2) (lengthChecked req s handle) := by
  unfold lengthChecked
  split_ifs with hlen hmax
  · exact ends_refuseWith h _ _
  · exact ends_refuseWith h _ _
  · apply hh
    simp only [Bool.not_eq_true, Bool.not_eq_false'] at hlen
    simp only [Request.measured, hlen, Bool.true_and, Bool.not_eq_true', Bool.and_eq_false_iff,
      decide_eq_false_iff_not]
    omega

theorem ends_jsonBody (h : I s) {handle : Json → Run (Response × Stores)}
    (hh : ∀ doc, req.contentType.any (strcasecmpEq · jsonContentType) = true →
      req.document? = some doc → Ends F (fun r => I r.2) (handle doc)) :
    Ends F (fun r => I r.2) (jsonBody req s handle) := by
  unfold jsonBody
  split_ifs with hct
  · cases hbody : req.body with
    | none => exact ends_refuseWith h _ _
    | some body =>
      refine Ends.bind (gives_parse body).ends fun o ho => ?_
      cases o with
      | none => exact ends_refuseWith h _ _
      | some doc =>
        apply hh doc hct
        unfold Request.document?
        rw [hbody]
        rcases ho with ho | ho
        · cases ho
        · exact ho.symm
  · exact ends_refuseWith h _ _

theorem ends_parseOptional (text : Option String) :
    Ends F (fun o => o = none ∨ o = text.bind Json.parseText) (parseOptional text) := by
  cases text with
  | none => exact ends_pure (Or.inl rfl)
  | some text => exact (gives_parse text).ends

theorem ends_answerJson (h : I s) (authorized : Option Json) :
    Ends F (fun r => I r.2) (answerJson req authorized s) := by
  cases authorized with
  | none => exact ends_refuseWith h _ _
  | some j =>
    refine Ends.bind (gives_allocated (Json.printText j)).ends fun body hbody => ?_
    rcases hbody with rfl | rfl
    · exact ends_refuseWith h _ _
    · exact ends_pure h

theorem ends_answerAvailability (h : I s) (unsupported : ProblemCause)
    (reply : AvailabilityReply) :
    Ends F (fun r => I r.2) (answerAvailability req unsupported reply s) := by
  unfold answerAvailability
  cases reply.result with
  | ok => exact ends_answerJson h _
  | noContent => exact ends_pure h
  | _ => exact ends_refuseWith h _ _

theorem ends_answerDelete (h : I s) (reply : AvailabilityReply) :
    Ends F (fun r => I r.2) (answerDelete req reply s) := by
  unfold answerDelete
  cases reply.result with
  | ok => exact ends_pure h
  | noContent => exact ends_pure h
  | _ => exact ends_refuseWith h _ _

theorem ends_answerPatch (h : I s) (result : SubResult) :
    Ends F (fun r => I r.2) (answerPatch req result s) := by
  cases result with
  | ok => exact ends_pure h
  | _ => exact ends_refuseWith h _ _

end combinators

/-- What the run keeps: the property of the live records and the envelopes of the queue. -/
def Stores.Sound (P : SubscriptionRecord → Prop) (s : Stores) : Prop :=
  Subscription.Sound P (s.subscriptions, s.outbox)

section dispatch

variable {F : Fault → Prop} {P : SubscriptionRecord → Prop} {validate : BearerValidator}
  {req : Request} {s : Stores}

/-- The filter that a post stores. -/
def postedFilter (doc : Json) : Json := (doc.member? "filter").getD doc

/-- The callback of a post, if the policy lets it be stored. -/
def PostedCallback (doc : Json) (callbackUri : String) : Prop :=
  doc.member? "callbackUri" = some (.string callbackUri) ∧
    notificationCallbackUrlAllowed (some callbackUri) = true

theorem ends_postDocument (hF : F .outOfBounds) (hs : s.Sound P) {doc : Json}
    (hdoc : F .nullName ∨ doc.Lookable)
    (hfilter : ∀ cb, PostedCallback doc cb → F .nullName ∨ (postedFilter doc).Lookable)
    (hP : ∀ cb x, PostedCallback doc cb → x.callbackUri = some cb →
      x.filter = some (postedFilter doc) → P x) :
    Ends F (fun r => r.2.Sound P) (postDocument req s doc) := by
  refine Ends.bind (ends_getObjectItem hdoc "callbackUri") fun cb hcb => ?_
  cases hstr : cb.bind Json.string? with
  | none => exact ends_refuseWith hs _ _
  | some callbackUri =>
    dsimp only
    split_ifs with hallowed
    · have hposted : PostedCallback doc callbackUri := by
        refine ⟨?_, hallowed⟩
        rw [← hcb]
        cases cb with
        | none => cases hstr
        | some v =>
          cases v with
          | string text =>
            cases hstr
            rfl
          | _ => cases hstr
      refine Ends.bind (ends_getObjectItem hdoc "filter") fun filter hf => ?_
      refine Ends.bind (ends_getObjectItem hdoc "amfId") fun amfId _ => ?_
      refine Ends.bind (ends_getObjectItem hdoc "amfSetId") fun amfSetId _ => ?_
      rw [hf]
      refine Ends.bind (ends_create hF hs (hfilter _ hposted) (fun x => hP _ x hposted)
        s.repo _ _ _) fun r hr => ?_
      obtain ⟨result, id, subs, outbox⟩ := r
      dsimp only
      split_ifs with hok
      · exact ends_pure hr
      · apply ends_refuseWith (I := Stores.Sound P)
        exact hr
    · exact ends_refuseWith hs _ _

theorem ends_availabilityPutHandle (hF : F .outOfBounds)
    (hP : ∀ x, P x → F .nullName ∨ x.Searchable) (hs : s.Sound P) (nfId : String) :
    Ends F (fun r => r.2.Sound P) (availabilityPutHandle validate req s nfId) := by
  refine ends_gated hs fun _ => ends_lengthChecked hs fun _ => ends_jsonBody hs fun info _ _ => ?_
  have hpub : ∀ ev, Ends F (Subscription.Sound P)
      (publishChange cascade ev (s.subscriptions, s.outbox)) := fun _ => ends_fanoutPublish hP hs
  refine Ends.bind (ends_availabilityReplace (I := Subscription.Sound P) hF hs hpub s.repo _ _ _)
    fun r hr => ?_
  obtain ⟨reply, repo, t⟩ := r
  apply ends_answerAvailability (I := Stores.Sound P)
  exact hr

theorem ends_availabilityDeleteHandle (hP : ∀ x, P x → F .nullName ∨ x.Searchable)
    (hs : s.Sound P) (nfId : String) :
    Ends F (fun r => r.2.Sound P) (availabilityDeleteHandle validate req s nfId) := by
  refine ends_gated hs fun _ => ?_
  have hpub : ∀ ev, Ends F (Subscription.Sound P)
      (publishChange cascade ev (s.subscriptions, s.outbox)) := fun _ => ends_fanoutPublish hP hs
  have hdelete := ends_availabilityDelete (I := Subscription.Sound P) hs hpub s.repo (some nfId)
  refine Ends.bind hdelete fun r hr => ?_
  obtain ⟨reply, repo, t⟩ := r
  apply ends_answerDelete (I := Stores.Sound P)
  exact hr

theorem ends_availabilityPatchHandle (hs : s.Sound P) (nfId : String) :
    Ends F (fun r => r.2.Sound P) (availabilityPatchHandle validate req s nfId none) := by
  refine ends_gated hs fun _ => ends_lengthChecked hs fun _ => ?_
  refine Ends.bind (ends_parseOptional none) fun tai htai => ?_
  have htai : tai = none := by
    rcases htai with h | h
    · exact h
    · exact h
  refine Ends.bind (ends_parseOptional req.body) fun patch _ => ?_
  obtain ⟨reply, hrefused⟩ := availabilityPatch_refused cascade s.repo
    (s.subscriptions, s.outbox) (some nfId) req.contentType patch true
  unfold patchAndAnswer
  rw [htai, hrefused, pure_bind]
  exact ends_answerAvailability (I := Stores.Sound P) hs _ _

theorem ends_subscriptionUnsubscribeHandle (hs : s.Sound P) (id : String) :
    Ends F (fun r => r.2.Sound P) (subscriptionUnsubscribeHandle validate req s id) :=
  ends_gated hs fun _ => ends_pure ⟨hs.1.memRemove id, hs.2⟩

theorem ends_subscriptionPatchHandle (hs : s.Sound P) {id : String}
    (hpatch : ∀ doc, req.admitted validate scopeNssaiavailability = true → req.measured = true →
      req.document? = some doc → Ends F (fun r => r.2.AllLive P)
        (s.subscriptions.patch (some id) req.contentType (some doc))) :
    Ends F (fun r => r.2.Sound P) (subscriptionPatchHandle validate req s id) := by
  refine ends_gated hs fun hadm => ends_lengthChecked hs fun hlen => ?_
  refine Ends.bind (ends_parseOptional req.body) fun patch hdoc => ?_
  have hrun : Ends F (fun r => r.2.AllLive P)
      (s.subscriptions.patch (some id) req.contentType patch) := by
    cases patch with
    | none => exact ends_pure hs.1
    | some doc =>
      apply hpatch doc hadm hlen
      rcases hdoc with h | h
      · cases h
      · exact h.symm
  refine Ends.bind hrun fun r hr => ?_
  obtain ⟨result, subs⟩ := r
  apply ends_answerPatch (I := Stores.Sound P)
  exact ⟨hr, hs.2⟩

theorem gives_addPairs {query : Json} (h : query.isObject = true) (pairs : List (List Char)) :
    Gives F ObjectIfSome (addPairs query pairs) := by
  induction pairs generalizing query with
  | nil => exact gives_pure (objectIfSome_some h)
  | cons pair pairs ih =>
    unfold addPairs
    cases splitPair pair with
    | none => exact ih h
    | some p =>
      obtain ⟨name, value⟩ := p
      dsimp only
      cases engineKeyFor (String.ofList name) with
      | none => exact ih h
      | some key =>
        have hparam : Gives F ObjectIfSome (addParam query key value) := by
          refine Gives.bind (gives_allocated _) fun o ho => ?_
          rcases ho with rfl | rfl
          · exact gives_pure objectIfSome_none
          refine Gives.bind (gives_parse _) fun parsed _ => ?_
          cases parsed with
          | none =>
            refine Gives.bind (gives_addStringToObject _ _ _) fun j hj => ?_
            exact gives_pure (objectIfSome_some (hj h))
          | some parsed =>
            refine Gives.bind (gives_addItemToObject _ _ _) fun j hj => ?_
            exact gives_pure (objectIfSome_some (hj h))
        refine Gives.bind hparam fun o ho => ?_
        cases o with
        | none => exact gives_pure objectIfSome_none
        | some query' => exact ih (ho query' rfl)

theorem gives_buildEngineQuery (raw : Option String) :
    Gives F ObjectIfSome (buildEngineQuery raw) := by
  refine Gives.bind (gives_allocated (Json.object [])) fun o ho => ?_
  rcases ho with rfl | rfl
  · exact gives_pure objectIfSome_none
  · exact gives_addPairs rfl _

theorem ends_nsselectionGetHandle (hs : s.Sound P) {seams : SelectionSeams}
    {raw : Option String}
    (hquery : ∀ query e e', req.admitted validate scopeNsselection = true →
      buildEngineQuery raw e = .ok (some query, e') →
        Ends F (fun _ => True) (select seams s.repo (some query))) :
    Ends F (fun r => r.2.Sound P) (nsselectionGetHandle validate req s seams raw) := by
  refine ends_gated hs fun hadm => ?_
  have hbuilt : Ends F (fun o => ∀ query, o = some query →
      Ends F (fun _ => True) (select seams s.repo (some query))) (buildEngineQuery raw) := by
    refine ((gives_buildEngineQuery raw).ends.and (ends_of_ok fun e e' o ho => ?_)).mono
      fun o h => h.2
    intro query hq
    rw [hq] at ho
    exact hquery query e e' hadm ho
  refine Ends.bind hbuilt fun o ho => ?_
  cases o with
  | none => exact ends_refuseWith hs _ _
  | some query =>
    refine Ends.bind (ho query rfl) fun selection _ => ?_
    cases selection with
    | failed err =>
      unfold answerSelection
      dsimp only
      split_ifs with hinternal
      · exact ends_refuseWith hs _ _
      · exact ends_refuseWith hs _ _
    | selected info n => exact ends_answerJson (I := Stores.Sound P) hs (some info)

/-- A request keeps a property of the live records, and ends in no fault outside of `F`, if its
document or query does. -/
theorem ends_routerDispatch {deps : RouterDeps} (hF : F .outOfBounds)
    (hP : ∀ x, P x → F .nullName ∨ x.Searchable) (hs : s.Sound P)
    (hpost : ∀ doc, req.Posts deps.validate doc →
      Ends F (fun r => r.2.Sound P) (postDocument req s doc))
    (hpatch : ∀ id doc, req.Patches deps.validate id doc → Ends F (fun r => r.2.AllLive P)
      (s.subscriptions.patch (some id) req.contentType (some doc)))
    (hquery : ∀ query, req.Queries deps.validate query →
      Ends F (fun _ => True) (select deps.seams s.repo (some query))) :
    Ends F (fun r => r.2.Sound P) (routerDispatch deps req s) := by
  unfold routerDispatch
  cases hpath : req.path with
  | none => exact ends_refuseWith hs _ _
  | some path =>
    cases hmethod : req.method with
    | none => exact ends_refuseWith hs _ _
    | some method =>
      dsimp only
      have htarget {m : String} {resource : Resource} (hm : method = m)
          (hr : resourceOf (routePart path) = resource) : req.Targets m resource :=
        ⟨path, hpath, by rw [hmethod, hm], hr⟩
      cases hres : resourceOf (routePart path) with
      | sliceInformation =>
        dsimp only
        split_ifs with hget
        · refine ends_nsselectionGetHandle hs fun query e e' hadm hbuild => ?_
          refine hquery query ⟨htarget hget hres, hadm, e, e', ?_⟩
          rw [hpath]
          exact hbuild
        · exact ends_refuseWith hs _ _
      | availability =>
        dsimp only
        split_ifs with hoptions
        · exact ends_gated hs fun _ => ends_pure hs
        · exact ends_refuseWith hs _ _
      | subscriptions =>
        dsimp only
        split_ifs with hm
        · refine ends_gated hs fun hadm => ends_lengthChecked hs fun hlen => ?_
          refine ends_jsonBody hs fun doc hct hdoc => ?_
          exact hpost doc ⟨htarget hm hres, hadm, hlen, hct, hdoc⟩
        · exact ends_refuseWith hs _ _
      | subscription id =>
        refine Ends.bind (gives_allocated id).ends fun o ho => ?_
        rcases ho with rfl | rfl
        · exact ends_refuseWith hs _ _
        dsimp only
        split_ifs with hdelete hm
        · exact ends_subscriptionUnsubscribeHandle hs id
        · refine ends_subscriptionPatchHandle hs fun doc hadm hlen hdoc => ?_
          exact hpatch id doc ⟨htarget hm hres, hadm, hlen, hdoc⟩
        · exact ends_refuseWith hs _ _
      | nf nfId =>
        refine Ends.bind (gives_allocated nfId).ends fun o ho => ?_
        rcases ho with rfl | rfl
        · exact ends_refuseWith hs _ _
        dsimp only
        split_ifs with hput hm hdelete
        · exact ends_availabilityPutHandle hF hP hs nfId
        · exact ends_availabilityPatchHandle hs nfId
        · exact ends_availabilityDeleteHandle hP hs nfId
        · exact ends_refuseWith hs _ _
      | unknown => exact ends_refuseWith hs _ _

end dispatch

/-- The stores of a server that starts without anything stored. -/
def Stores.start (dispatcher : Dispatcher) : Stores :=
  ⟨.newInmemory, .newInmemory, ⟨retryStoreNewInmemory, dispatcher⟩⟩

theorem Stores.sound_start (P : SubscriptionRecord → Prop) (dispatcher : Dispatcher) :
    (Stores.start dispatcher).Sound P :=
  ⟨SubscriptionStore.allLive_newInmemory P, RetryStore.enveloped_newInmemory⟩

/-- The server answers the request and goes on with the new stores. -/
def Serves (deps : RouterDeps) (req : Request) (s s' : Stores) : Prop :=
  ∃ answer e e', routerDispatch deps req s e = .ok ((answer, s'), e')

theorem Serves.sound {F : Fault → Prop} {P : SubscriptionRecord → Prop} {deps : RouterDeps}
    {req : Request} {s s' : Stores} (h : Serves deps req s s')
    (hrun : Ends F (fun r => r.2.Sound P) (routerDispatch deps req s)) : s'.Sound P := by
  obtain ⟨answer, e, e', h⟩ := h
  exact (hrun e).1 _ _ h

/-- The scopes of both services for whoever has a bearer. -/
def openDeps : RouterDeps where
  validate := fun _ => .ok (some (scopeNsselection ++ " " ++ scopeNssaiavailability))
  seams := {}

def sampleRequest (method path contentType body : String) : Request where
  method := some method
  path := some path
  authorization := some "Bearer t"
  maxUriLen := 0
  contentType := some contentType
  body := some body
  contentLength := body.length
  hasContentLength := true
  maxBodyLen := 0

def callbackPost : Request :=
  sampleRequest "POST" "/nssai-availability/subscriptions" jsonContentType
    "\x7b\"callbackUri\":\"https://amf/cb\"\x7d"

end Nssf
