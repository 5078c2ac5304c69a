import Nssf.Server.Requests

/-! The grammar of the routes. A resource is named by the part of the path before the query, a
handler by the resource and the method, and the dispatch runs just the handler that the two
name. -/

namespace Nssf

open Base Run

/-- One part of a path. -/
def Segment (x : String) : Prop := x ≠ "" ∧ '/' ∉ x.toList

/-- What a route names. -/
inductive Names : List Char → Resource → Prop
  | sliceInformation : Names "/network-slice-information".toList .sliceInformation
  | availability : Names "/nssai-availability".toList .availability
  | subscriptions : Names "/nssai-availability/subscriptions".toList .subscriptions
  | subscription {x : String} (h : Segment x) :
      Names ("/nssai-availability/subscriptions/".toList ++ x.toList) (.subscription x)
  | nf {y : String} (h : Segment y) (hne : y ≠ "subscriptions") :
      Names ("/nssai-availability/".toList ++ y.toList) (.nf y)

section grammar

variable {pre route : List Char} {x : String}

theorem idBehind_eq_some_iff :
    idBehind pre route = some x ↔ route = pre ++ x.toList ∧ Segment x := by
  unfold idBehind
  by_cases hpre : pre.isPrefixOf route = true
  · obtain ⟨rest, rfl⟩ := List.isPrefixOf_iff_prefix.1 hpre
    rw [if_pos hpre, List.drop_left, List.append_right_inj]
    have hsegment : (rest.isEmpty || rest.contains '/') = false ↔ Segment (String.ofList rest) := by
      simp [Segment]
    constructor
    · intro h
      cases hbad : rest.isEmpty || rest.contains '/' with
      | true => simp only [hbad, if_true, reduceCtorEq] at h
      | false =>
        simp only [hbad, Bool.false_eq_true, if_false, Option.some.injEq] at h
        rw [← h, String.toList_ofList]
        exact ⟨rfl, hsegment.1 hbad⟩
    · intro h
      obtain ⟨rfl, hx⟩ := h
      rw [String.ofList_toList] at hsegment
      simp only [hsegment.2 hx, Bool.false_eq_true, if_false, String.ofList_toList]
  · rw [if_neg hpre]
    refine iff_of_false (by simp) ?_
    intro h
    rw [h.1] at hpre
    exact hpre (List.isPrefixOf_iff_prefix.2 (List.prefix_append _ _))

theorem ne_of_starts_not {lit : List Char} (h : pre.isPrefixOf lit = false) (rest : List Char) :
    pre ++ rest ≠ lit := by
  intro heq
  rw [← heq, List.isPrefixOf_iff_prefix.2 (List.prefix_append _ _)] at h
  cases h

theorem resourceOf_subscription (h : Segment x) :
    resourceOf ("/nssai-availability/subscriptions/".toList ++ x.toList) = .subscription x := by
  unfold resourceOf
  rw [if_neg (ne_of_starts_not (by decide) _), if_neg (ne_of_starts_not (by decide) _),
    if_neg (ne_of_starts_not (by decide) _), idBehind_eq_some_iff.2 ⟨rfl, h⟩]

/-- The collection's own name is no id of an NF, and neither is a name below it. -/
theorem resourceOf_nf (h : Segment x) (hne : x ≠ "subscriptions") :
    resourceOf ("/nssai-availability/".toList ++ x.toList) = .nf x := by
  have hcollection : "/nssai-availability/".toList ++ x.toList ≠
      "/nssai-availability/subscriptions".toList := by
    intro heq
    have hsplit : "/nssai-availability/subscriptions".toList =
        "/nssai-availability/".toList ++ "subscriptions".toList := by decide
    rw [hsplit, List.append_right_inj, String.toList_inj] at heq
    exact hne heq
  have hbelow : idBehind "/nssai-availability/subscriptions/".toList
      ("/nssai-availability/".toList ++ x.toList) = none := by
    cases hid : idBehind "/nssai-availability/subscriptions/".toList
        ("/nssai-availability/".toList ++ x.toList) with
    | none => rfl
    | some y =>
      obtain ⟨heq, -⟩ := idBehind_eq_some_iff.1 hid
      have hsplit : "/nssai-availability/subscriptions/".toList =
          "/nssai-availability/".toList ++ "subscriptions/".toList := by decide
      rw [hsplit, List.append_assoc, List.append_right_inj] at heq
      refine absurd ?_ h.2
      rw [heq]
      exact List.mem_append_left _ (by decide)
  unfold resourceOf
  rw [if_neg (ne_of_starts_not (by decide) _), if_neg (ne_of_starts_not (by decide) _),
    if_neg hcollection, hbelow, idBehind_eq_some_iff.2 ⟨rfl, h⟩]

theorem resourceOf_of_names {res : Resource} (h : Names route res) : resourceOf route = res := by
  cases h with
  | sliceInformation => decide
  | availability => decide
  | subscriptions => decide
  | subscription h => exact resourceOf_subscription h
  | nf h hne => exact resourceOf_nf h hne

theorem names_resourceOf (h : resourceOf route ≠ .unknown) : Names route (resourceOf route) := by
  unfold resourceOf at h ⊢
  by_cases hslice : route = "/network-slice-information".toList
  · rw [if_pos hslice, hslice]
    exact .sliceInformation
  by_cases havail : route = "/nssai-availability".toList
  · rw [if_neg hslice, if_pos havail, havail]
    exact .availability
  by_cases hsubs : route = "/nssai-availability/subscriptions".toList
  · rw [if_neg hslice, if_neg havail, if_pos hsubs, hsubs]
    exact .subscriptions
  rw [if_neg hslice, if_neg havail, if_neg hsubs] at h ⊢
  cases hsub : idBehind "/nssai-availability/subscriptions/".toList route with
  | some id =>
    obtain ⟨hroute, hid⟩ := idBehind_eq_some_iff.1 hsub
    rw [hroute]
    exact .subscription hid
  | none =>
    rw [hsub] at h
    cases hnf : idBehind "/nssai-availability/".toList route with
    | some nfId =>
      obtain ⟨hroute, hid⟩ := idBehind_eq_some_iff.1 hnf
      rw [hroute]
      refine .nf hid ?_
      intro hname
      rw [hname] at hroute
      exact hsubs (hroute.trans (by decide))
    | none =>
      rw [hnf] at h
      exact absurd rfl h

/-- A route has one name, or none. -/
theorem names_iff {res : Resource} (hres : res ≠ .unknown) :
    Names route res ↔ resourceOf route = res := by
  constructor
  · exact resourceOf_of_names
  · intro h
    rw [← h]
    exact names_resourceOf (h ▸ hres)

end grammar

section handlers

abbrev Handler := Request → Stores → Option String → Run (Response × Stores)

/-- The handler that a resource has for a method. -/
inductive Handles (deps : RouterDeps) : Resource → String → Handler → Prop
  | selectionGet : Handles deps .sliceInformation "GET"
      fun req s query => nsselectionGetHandle deps.validate req s deps.seams query
  | availabilityOptions : Handles deps .availability "OPTIONS"
      fun req s _ => availabilityOptionsHandle deps.validate req s
  | subscriptionPost : Handles deps .subscriptions "POST"
      fun req s _ => subscriptionPostHandle deps.validate req s
  | unsubscribe (id : String) : Handles deps (.subscription id) "DELETE"
      fun req s _ => subscriptionUnsubscribeHandle deps.validate req s id
  | subscriptionPatch (id : String) : Handles deps (.subscription id) "PATCH"
      fun req s _ => subscriptionPatchHandle deps.validate req s id
  | availabilityPut (nfId : String) : Handles deps (.nf nfId) "PUT"
      fun req s _ => availabilityPutHandle deps.validate req s nfId
  | availabilityPatch (nfId : String) : Handles deps (.nf nfId) "PATCH"
      fun req s _ => availabilityPatchHandle deps.validate req s nfId none
  | availabilityDelete (nfId : String) : Handles deps (.nf nfId) "DELETE"
      fun req s _ => availabilityDeleteHandle deps.validate req s nfId

/-- The segment that goes to the handler. -/
def Resource.id? : Resource → Option String
  | .subscription id => some id
  | .nf nfId => some nfId
  | _ => none

/-- A segment is copied before the method is looked at. -/
def withCopy (req : Request) (s : Stores) (res : Resource) (answer : Run (Response × Stores)) :
    Run (Response × Stores) :=
  match res.id? with
  | none => answer
  | some id => do
    match ← allocated id with
    | none => refuseWith req s .internalServerError none
    | some _ => answer

variable {deps : RouterDeps} {req : Request} {s : Stores} {path method : String}

theorem allocated_bind_congr {α β : Type} {a : α} {f g : Option α → Run β}
    (hnone : f none = g none) (hsome : f (some a) = g (some a)) :
    (allocated a >>= f) = (allocated a >>= g) := by
  funext e
  rw [Prog.bind_of_ok (allocated_apply a e), Prog.bind_of_ok (allocated_apply a e)]
  cases e.alloc.head with
  | true => exact congrFun hsome _
  | false => exact congrFun hnone _

/-- The copy is granted where one is made. -/
def CopyGranted (res : Resource) (e : Env) : Prop := res.id? = none ∨ e.alloc.head = true

theorem withCopy_granted {e : Env} {res : Resource} (he : CopyGranted res e)
    (answer : Run (Response × Stores)) :
    withCopy req s res answer e = answer (if res.id?.isSome then e.popAlloc else e) := by
  have hcopy (id : String) (hhead : e.alloc.head = true) : (do
      match ← allocated id with
      | none => refuseWith req s .internalServerError none
      | some _ => answer) e = answer e.popAlloc := by
    rw [Prog.bind_of_ok (allocated_apply id e), hhead]
    rfl
  unfold withCopy
  cases res with
  | subscription id => exact hcopy id (he.resolve_left (by simp [Resource.id?]))
  | nf nfId => exact hcopy nfId (he.resolve_left (by simp [Resource.id?]))
  | _ => rfl

theorem handles_unique {res : Resource} {name : String} {handler handler' : Handler}
    (h : Handles deps res method handler) (h' : Handles deps res name handler')
    (hname : method = name) : handler = handler' := by
  cases h <;> cases h' <;> first | rfl | exact absurd hname (by decide)

theorem refuseWith_status (cause : ProblemCause) (detail : Option String) (e : Env) :
    ∃ answer e', refuseWith req s cause detail e = .ok ((answer, s), e') ∧
      answer.status = cause.metadata.status := by
  obtain ⟨answer, e', hrun, hstatus, -⟩ := (gives_problem cause detail req.path).ok e
  exact ⟨answer, e', Prog.bind_of_ok hrun, hstatus⟩

theorem dispatch_of_handles {res : Resource} {handler : Handler} (hp : req.path = some path)
    (hm : req.method = some method) (hn : Names (routePart path) res)
    (hh : Handles deps res method handler) : routerDispatch deps req s =
      withCopy req s res (handler req s (queryPart path)) := by
  unfold routerDispatch
  rw [hp, hm]
  dsimp only
  rw [resourceOf_of_names hn]
  cases hh with
  | selectionGet => rfl
  | availabilityOptions => rfl
  | subscriptionPost => rfl
  | unsubscribe id => exact allocated_bind_congr rfl rfl
  | subscriptionPatch id => exact allocated_bind_congr rfl rfl
  | availabilityPut nfId => exact allocated_bind_congr rfl rfl
  | availabilityPatch nfId => exact allocated_bind_congr rfl rfl
  | availabilityDelete nfId => exact allocated_bind_congr rfl rfl

theorem dispatch_of_not_handled {res : Resource} (hp : req.path = some path)
    (hm : req.method = some method) (hn : Names (routePart path) res)
    (hh : ∀ handler, ¬Handles deps res method handler) : routerDispatch deps req s =
      withCopy req s res (methodNotAllowed req s) := by
  have hother {name : String} {handler : Handler} (h : Handles deps res name handler) :
      method ≠ name := fun hname => hh handler (hname ▸ h)
  unfold routerDispatch
  rw [hp, hm]
  dsimp only
  rw [resourceOf_of_names hn]
  generalize routePart path = route at hn
  cases hn with
  | sliceInformation => exact if_neg (hother .selectionGet)
  | availability => exact if_neg (hother .availabilityOptions)
  | subscriptions => exact if_neg (hother .subscriptionPost)
  | subscription h =>
    refine allocated_bind_congr rfl ?_
    dsimp only
    rw [if_neg (hother (.unsubscribe _)), if_neg (hother (.subscriptionPatch _))]
  | nf h hne =>
    refine allocated_bind_congr rfl ?_
    dsimp only
    rw [if_neg (hother (.availabilityPut _)), if_neg (hother (.availabilityPatch _)),
      if_neg (hother (.availabilityDelete _))]

theorem dispatch_of_not_named (hp : req.path = some path) (hm : req.method = some method)
    (hn : ∀ res, ¬Names (routePart path) res) : routerDispatch deps req s =
      refuseWith req s .notFoundNoAvailability (some "no resource at the requested path") := by
  have hunknown : resourceOf (routePart path) = .unknown := by
    by_contra hne
    exact hn _ (names_resourceOf hne)
  unfold routerDispatch
  rw [hp, hm]
  dsimp only
  rw [hunknown]

/-- The part before the query names at most one resource, and that and the method at most one
handler; the dispatch runs it, and answers 405 or 404 where there is none. Only the copy of the
segment may fail in between. -/
theorem dispatch_follows_grammar (deps : RouterDeps) {req : Request} (s : Stores)
    {path method : String} (hp : req.path = some path) (hm : req.method = some method) :
    (∀ res handler, Names (routePart path) res → Handles deps res method handler →
      routerDispatch deps req s = withCopy req s res (handler req s (queryPart path)) ∧
      ∀ e, CopyGranted res e → routerDispatch deps req s e =
        handler req s (queryPart path) (if res.id?.isSome then e.popAlloc else e)) ∧
    (∀ res, Names (routePart path) res → (∀ handler, ¬Handles deps res method handler) →
      ∀ e, CopyGranted res e → ∃ answer e',
        routerDispatch deps req s e = .ok ((answer, s), e') ∧ answer.status = 405) ∧
    ((∀ res, ¬Names (routePart path) res) → ∀ e, ∃ answer e',
      routerDispatch deps req s e = .ok ((answer, s), e') ∧ answer.status = 404) ∧
    (∀ res res', Names (routePart path) res → Names (routePart path) res' → res = res') ∧
    ∀ res handler handler', Handles deps res method handler →
      Handles deps res method handler' → handler = handler' := by
  refine ⟨?_, ?_, ?_, ?_, ?_⟩
  · intro res handler hn hh
    have hdispatch := dispatch_of_handles (s := s) hp hm hn hh
    refine ⟨hdispatch, fun e he => ?_⟩
    rw [hdispatch, withCopy_granted he]
  · intro res hn hh e he
    rw [dispatch_of_not_handled hp hm hn hh, withCopy_granted he]
    exact refuseWith_status .methodNotAllowed none _
  · intro hn e
    rw [dispatch_of_not_named hp hm hn]
    exact refuseWith_status .notFoundNoAvailability _ e
  · intro res res' hn hn'
    exact (resourceOf_of_names hn).symm.trans (resourceOf_of_names hn')
  · intro res handler handler' hh hh'
    exact handles_unique hh hh' rfl

/-- A query that looks like a route does not change the choice. -/
def queriedPut : Request :=
  sampleRequest "PUT" "/nssai-availability/amf-1?/nssai-availability/subscriptions" "" ""

def emptyStores : Stores := .start (notificationDispatcherNew none)

theorem dispatch_follows_grammar_queried : routerDispatch openDeps queriedPut emptyStores =
    withCopy queriedPut emptyStores (.nf "amf-1")
      (availabilityPutHandle openDeps.validate queriedPut emptyStores "amf-1") := by
  have hroute : routePart "/nssai-availability/amf-1?/nssai-availability/subscriptions" =
      "/nssai-availability/".toList ++ "amf-1".toList := by decide
  have hnames : Names (routePart "/nssai-availability/amf-1?/nssai-availability/subscriptions")
      (.nf "amf-1") := by
    rw [hroute]
    exact .nf ⟨by decide, by decide⟩ (by decide)
  exact ((dispatch_follows_grammar openDeps emptyStores rfl rfl).1 _ _ hnames (.availabilityPut _)).1

end handlers

end Nssf
