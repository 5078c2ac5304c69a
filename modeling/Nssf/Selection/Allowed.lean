import Nssf.Selection.Engine

/-! What a selection answers when no allocation fails: the requested slices that are
subscribed, available and permitted, in the order requested. -/

namespace Nssf

open Base Run

namespace NsSelectionQuery

def requested (variantBody : Json) (isPdu : Bool) : List Json :=
  if isPdu then
    match variantBody.member? "sNssai" with
    | some (.object members) => [.object members]
    | _ => []
  else
    match variantBody.member? "requestedNssai" with
    | some (.array items) => items
    | _ => []

def subscribedEntries (variantBody : Json) : List Json :=
  match variantBody.member? "subscribedNssai" with
  | some (.array entries) => entries
  | _ => []

def subscribed (seams : SelectionSeams) (query variantBody : Json) : Option Json :=
  match seams.subscribedNssai with
  | some lookup => (lookup query).map fun set => set.getD (.array [])
  | none => some (.array ((subscribedEntries variantBody).filterMap fun entry =>
      (entry.member? "subscribedSnssai").filter Json.isObject))

/-- A query that the engine can serve: one variant, a tracking area with a PLMN, and a source
of subscribed slices that answers. -/
structure Served (seams : SelectionSeams) (query variantBody : Json) (isPdu : Bool)
    (tai plmn set : Json) : Prop where
  object : query.isObject = true
  variant : pickVariant (query.member? "sliceInfoForRegistration")
    (query.member? "sliceInfoForPDUSession")
    (query.member? "sliceInfoForUEConfigurationUpdate") = some (variantBody, isPdu)
  area : query.member? "tai" = some tai
  areaObject : tai.isObject = true
  serving : tai.member? "plmnId" = some plmn
  servingObject : plmn.isObject = true
  source : subscribed seams query variantBody = some set

/-- No lookup of the engine meets a non-empty array in the place of a slice. -/
structure Lookable (seams : SelectionSeams) (variantBody : Json) (isPdu : Bool) (set : Json) :
    Prop where
  wanted : ∀ x ∈ requested variantBody isPdu, x.Lookable
  entries : seams.subscribedNssai = none → ∀ x ∈ subscribedEntries variantBody, x.Lookable
  source : ∀ items, set = .array items → ∀ x ∈ items, x.Lookable
  policy : ∀ items, seams.plmnPolicyAllowList = some (.array items) → ∀ x ∈ items, x.Lookable

end NsSelectionQuery

open NsSelectionQuery

def snssaiIn (set : Option Json) (req : Json) : Bool :=
  match set with
  | some (.array items) => items.any (sameSnssai · req)
  | _ => false

def permits (policy : Option Json) (req : Json) : Bool :=
  match policy with
  | none => true
  | some set => snssaiIn (some set) req

def recordSlices (x : AvailabilityRecord) : List Json :=
  match x.snssais with
  | some (.array items) => items
  | _ => []

def available (r : AvailabilityRepo) (plmn tai : Json) : List Json :=
  unionSnssais [] ((r.items.filter (AvailabilityRepo.At (some plmn) (some tai))).flatMap
    recordSlices)

/-- The slices in the allowed list of an answer. -/
def allowedSnssais (info : Json) : List Json :=
  match info.member? "allowedNssaiList" with
  | some (.array groups) => groups.flatMap fun group =>
    match group.member? "allowedSnssaiList" with
    | some (.array entries) => entries.filterMap fun entry => entry.member? "allowedSnssai"
    | _ => []
  | _ => []

/-- The slices in the rejected list of an answer. -/
def rejectedSnssais (info : Json) : List Json :=
  match info.member? "rejectedNssaiInTa" with
  | some (.array items) => items
  | _ => []

def allowedEntry (req : Json) : Json := .object [("allowedSnssai", req)]

theorem makes_copyItems (items : List Json) : Makes (copyItems items) items := by
  induction items with
  | nil => exact makes_pure _
  | cons it items ih =>
    exact Makes.bind (makes_allocated it) rfl (Makes.bind ih rfl (makes_pure _))

theorem makes_collectRequested {variantBody : Json} (h : variantBody.isObject = true)
    (isPdu : Bool) :
    Makes (collectRequested variantBody isPdu) (requested variantBody isPdu) := by
  refine Makes.bind (makes_allocated _) rfl ?_
  have hlook := Json.lookable_of_isObject h
  cases isPdu with
  | true =>
    change Makes (Json.getObjectItem (some variantBody) _ >>= _) _
    rw [Json.getObjectItem_of_lookable hlook, pure_bind]
    unfold requested
    cases variantBody.member? "sNssai" with
    | none => exact makes_pure _
    | some x =>
      cases x with
      | object members => exact makes_copyItems _
      | _ => exact makes_pure _
  | false =>
    change Makes (Json.getObjectItem (some variantBody) _ >>= _) _
    rw [Json.getObjectItem_of_lookable hlook, pure_bind]
    unfold requested
    cases variantBody.member? "requestedNssai" with
    | none => exact makes_pure _
    | some x =>
      cases x with
      | array items => exact makes_copyItems items
      | _ => exact makes_pure _

theorem makes_flattenSubscribed {entries : List Json} (h : ∀ x ∈ entries, x.Lookable) :
    Makes (flattenSubscribed entries) (entries.filterMap fun entry =>
      (entry.member? "subscribedSnssai").filter Json.isObject) := by
  induction entries with
  | nil => exact makes_pure _
  | cons entry entries ih =>
    have hrest := ih fun x hx => h x (List.mem_cons_of_mem entry hx)
    unfold flattenSubscribed
    rw [Json.getObjectItem_of_lookable (h entry List.mem_cons_self), pure_bind,
      List.filterMap_cons]
    cases entry.member? "subscribedSnssai" with
    | none => exact hrest
    | some x =>
      cases x with
      | object members =>
        exact Makes.bind (makes_allocated _) rfl (Makes.bind hrest rfl (makes_pure _))
      | _ => exact hrest

theorem makes_resolveSubscribed {seams : SelectionSeams} {query variantBody set : Json}
    (hv : variantBody.isObject = true)
    (hl : seams.subscribedNssai = none → ∀ x ∈ subscribedEntries variantBody, x.Lookable)
    (hs : subscribed seams query variantBody = some set) :
    Makes (resolveSubscribed seams query variantBody) set := by
  unfold subscribed at hs
  unfold resolveSubscribed
  cases hseam : seams.subscribedNssai with
  | some lookup =>
    rw [hseam] at hs
    obtain ⟨answer, hanswer, rfl⟩ := Option.map_eq_some_iff.1 hs
    simp only [hanswer]
    cases answer with
    | none => exact makes_allocated _
    | some answer => exact makes_pure _
  | none =>
    rw [hseam] at hs
    cases hs
    have hentries := hl hseam
    refine Makes.bind (makes_allocated _) rfl ?_
    change Makes (Json.getObjectItem (some variantBody) _ >>= _) _
    rw [Json.getObjectItem_of_lookable (Json.lookable_of_isObject hv), pure_bind]
    unfold subscribedEntries at hentries ⊢
    cases hmember : variantBody.member? "subscribedNssai" with
    | none => exact makes_pure _
    | some x =>
      rw [hmember] at hentries
      cases x with
      | array entries =>
        exact Makes.bind (makes_flattenSubscribed hentries) rfl (makes_pure _)
      | _ => exact makes_pure _

theorem makes_addRecords {out : List Json} (ho : ∀ x ∈ out, x.isObject = true)
    (xs : List AvailabilityRecord) :
    Makes (addRecords out xs) (unionSnssais out (xs.flatMap recordSlices)) := by
  induction xs generalizing out with
  | nil => exact makes_pure out
  | cons x xs ih =>
    have happend : unionSnssais out (recordSlices x ++ xs.flatMap recordSlices) =
        unionSnssais (unionSnssais out (recordSlices x)) (xs.flatMap recordSlices) :=
      List.foldl_append
    rw [List.flatMap_cons, happend]
    unfold addRecords recordSlices
    cases x.snssais with
    | none => exact ih ho
    | some snssais =>
      cases snssais with
      | array items =>
        exact Makes.bind (makes_addSnssais ho items) rfl (ih (isObject_of_mem_union ho))
      | _ => exact ih ho

theorem yields_collectAvailability (r : AvailabilityRepo) (plmn tai : Json) :
    Yields (collectAvailability r plmn tai) (some (available r plmn tai)) := by
  refine Yields.bind (yields_allocated _) ?_
  refine Yields.bind (r.yields_memFindForPlmnTai (some plmn) (some tai)) ?_
  exact (makes_addRecords (fun _ h => absurd h List.not_mem_nil) _).granted

theorem snssaiInArray_eq {set : Option Json} {req : Json} (hreq : req.Lookable)
    (hset : ∀ items, set = some (.array items) → ∀ x ∈ items, x.Lookable) :
    snssaiInArray set req = pure (snssaiIn set req) := by
  unfold snssaiInArray snssaiIn
  cases set with
  | none => rfl
  | some set =>
    cases set with
    | array items => exact snssaiInItems_eq hreq (hset items rfl)
    | _ => rfl

theorem isObject_of_mem_available (r : AvailabilityRepo) (plmn tai : Json) :
    ∀ x ∈ available r plmn tai, x.isObject = true :=
  isObject_of_mem_union fun _ h => absurd h List.not_mem_nil

/-- The gates a requested slice has to pass. -/
def gates (policy : Option Json) (set : Json) (availability : List Json) (req : Json) : Bool :=
  snssaiIn (some set) req && (availability.any (sameSnssai · req) && permits policy req)

section classify

variable {set : Json} {availability : List Json} {policy : Option Json} {req : Json}

theorem passes_eq (hreq : req.Lookable) (hset : ∀ items, set = .array items →
      ∀ x ∈ items, x.Lookable) (havail : ∀ x ∈ availability, x.Lookable)
    (hpol : ∀ items, policy = some (.array items) → ∀ x ∈ items, x.Lookable) :
    passes set availability policy req = pure (gates policy set availability req) := by
  have hsome : ∀ items, some set = some (Json.array items) → ∀ x ∈ items, x.Lookable :=
    fun items h => hset items (Option.some.inj h)
  unfold passes gates
  rw [snssaiInArray_eq hreq hsome, pure_bind]
  cases snssaiIn (some set) req with
  | false => rfl
  | true =>
    rw [if_pos rfl, snssaiInItems_eq hreq havail, pure_bind]
    cases availability.any (sameSnssai · req) with
    | false => rfl
    | true =>
      unfold permitted permits
      cases policy with
      | none => rfl
      | some set => exact snssaiInArray_eq hreq fun items h => hpol items h

theorem yields_makeAllowedSnssaiEntry (req : Json) :
    Yields (makeAllowedSnssaiEntry req) (some (allowedEntry req)) := by
  refine Yields.bind (yields_allocated _) ?_
  refine Yields.bind (yields_allocated req) ?_
  exact Yields.bind (Yields.bind yields_alloc (yields_pure _)) (yields_pure _)

theorem yields_classify {reqs : List Json} (h : ∀ req ∈ reqs,
      passes set availability policy req = pure (gates policy set availability req)) :
    Yields (classify set availability policy reqs)
      (some ((reqs.filter (gates policy set availability)).map allowedEntry,
        reqs.filter fun req => !gates policy set availability req)) := by
  induction reqs with
  | nil => exact yields_pure _
  | cons req reqs ih =>
    have hrest := ih fun x hx => h x (List.mem_cons_of_mem req hx)
    unfold classify
    rw [h req List.mem_cons_self, pure_bind, List.filter_cons, List.filter_cons]
    cases gates policy set availability req with
    | true =>
      exact Yields.bind (yields_makeAllowedSnssaiEntry req) (Yields.bind hrest (yields_pure _))
    | false =>
      exact Yields.bind (yields_allocated req) (Yields.bind hrest (yields_pure _))

end classify

theorem variant_isObject {reg pdu ue : Option Json} {variantBody : Json} {isPdu : Bool}
    (h : pickVariant reg pdu ue = some (variantBody, isPdu)) : variantBody.isObject = true := by
  unfold pickVariant at h
  split at h
  · rename_i hreg _ _
    cases h
    exact (Option.filter_eq_some_iff.1 hreg).2
  · rename_i hue
    cases h
    exact (Option.filter_eq_some_iff.1 hue).2
  · rename_i hpdu _
    cases h
    exact (Option.filter_eq_some_iff.1 hpdu).2
  · cases h

/-- The answer without its target AMF set. -/
def authorizedInfo (allowed rejected : List Json) : Json :=
  .object ((if allowed = [] then [] else
      [("allowedNssaiList", Json.array [.object [("allowedSnssaiList", .array allowed),
        ("accessType", .string "3GPP_ACCESS")]])]) ++
    if rejected = [] then [] else [("rejectedNssaiInTa", .array rejected)])

theorem yields_addAllowed (allowed : List Json) :
    Yields (addAllowed (.object []) allowed) (.ok (authorizedInfo allowed [])) := by
  unfold addAllowed authorizedInfo
  by_cases h : allowed = []
  · simp only [h, if_true]
    exact yields_pure _
  · simp only [h, if_false]
    refine Yields.bind (yields_allocated _) ?_
    refine Yields.bind (Yields.bind yields_alloc (yields_pure _)) ?_
    refine Yields.bind (Yields.bind yields_alloc (yields_pure _)) ?_
    refine Yields.bind (yields_allocated _) ?_
    exact Yields.bind (Yields.bind yields_alloc (yields_pure _)) (yields_pure _)

theorem yields_addRejected (allowed rejected : List Json) :
    Yields (addRejected (authorizedInfo allowed []) rejected)
      (authorizedInfo allowed rejected) := by
  unfold addRejected
  by_cases h : rejected = []
  · rw [if_pos h, h]
    exact yields_pure _
  · rw [if_neg h]
    unfold authorizedInfo
    simp only [h, if_false, if_true, List.append_nil]
    exact Yields.bind yields_alloc (yields_pure _)

theorem yields_addTargetAmfSet (seams : SelectionSeams) (query : Json) (ms : List (String × Json))
    (result : SelectResult) : ∃ more, (∀ m ∈ more, m.1 = "targetAmfSet") ∧
      (result = .fullReject → more = []) ∧
      Yields (addTargetAmfSet seams query (.object ms) result) (.object (ms ++ more)) := by
  have hnone : ms = ms ++ [] := (List.append_nil ms).symm
  unfold addTargetAmfSet
  cases seams.amfSetResolver with
  | none => exact ⟨[], by simp, fun _ => rfl, hnone ▸ yields_pure _⟩
  | some resolve =>
    by_cases hr : result = .fullReject
    · simp only [hr, if_true]
      exact ⟨[], by simp, fun _ => rfl, hnone ▸ yields_pure _⟩
    · simp only [hr, if_false]
      rw [Json.getObjectItem_of_lookable (Json.lookable_object ms), pure_bind]
      cases resolve ((Json.object ms).member? "allowedNssaiList") query with
      | none => exact ⟨[], by simp, fun _ => rfl, hnone ▸ yields_pure _⟩
      | some amfSet =>
        refine ⟨[("targetAmfSet", .string amfSet)], by simp, fun h => h.elim, ?_⟩
        exact Yields.bind yields_alloc (yields_pure _)

theorem findMember_append_of_ne {ms more : List (String × Json)} {name other : String}
    (hmore : ∀ m ∈ more, m.1 = other) (hne : other ≠ name) :
    Json.findMember (ms ++ more) name = Json.findMember ms name := by
  have hnone : more.find? (fun m => m.1 == name) = none := by
    rw [List.find?_eq_none]
    intro m hm
    simpa [hmore m hm] using hne
  unfold Json.findMember
  rw [List.find?_append, hnone, Option.or_none]

theorem allowedSnssais_authorizedInfo (allowed rejected : List Json)
    {more : List (String × Json)} (hmore : ∀ m ∈ more, m.1 = "targetAmfSet") :
    ∀ ms, authorizedInfo (allowed.map allowedEntry) rejected = .object ms →
      allowedSnssais (.object (ms ++ more)) = allowed := by
  intro ms hms
  have hmember : (Json.object (ms ++ more)).member? "allowedNssaiList" =
      (authorizedInfo (allowed.map allowedEntry) rejected).member? "allowedNssaiList" := by
    rw [hms]
    exact findMember_append_of_ne hmore (by decide)
  unfold allowedSnssais
  rw [hmember]
  unfold authorizedInfo
  by_cases h : allowed = []
  · by_cases hr : rejected = []
    · simp [h, hr, Json.member?, Json.findMember]
    · simp [h, hr, Json.member?, Json.findMember]
  · simp [h, Json.member?, Json.findMember, List.filterMap_map, Function.comp_def, allowedEntry]

theorem rejectedSnssais_authorizedInfo (allowed rejected : List Json)
    {more : List (String × Json)} (hmore : ∀ m ∈ more, m.1 = "targetAmfSet") :
    ∀ ms, authorizedInfo allowed rejected = .object ms →
      rejectedSnssais (.object (ms ++ more)) = rejected := by
  intro ms hms
  have hmember : (Json.object (ms ++ more)).member? "rejectedNssaiInTa" =
      (authorizedInfo allowed rejected).member? "rejectedNssaiInTa" := by
    rw [hms]
    exact findMember_append_of_ne hmore (by decide)
  unfold rejectedSnssais
  rw [hmember]
  unfold authorizedInfo
  by_cases h : allowed = []
  · by_cases hr : rejected = []
    · simp [h, hr, Json.member?, Json.findMember]
    · simp [h, hr, Json.member?, Json.findMember]
  · by_cases hr : rejected = []
    · simp [h, hr, Json.member?, Json.findMember]
    · simp [h, hr, Json.member?, Json.findMember]

theorem targetAmfSet_authorizedInfo (allowed rejected : List Json) :
    (authorizedInfo allowed rejected).member? "targetAmfSet" = none := by
  unfold authorizedInfo
  by_cases h : allowed = []
  · by_cases hr : rejected = []
    · simp [h, hr, Json.member?, Json.findMember]
    · simp [h, hr, Json.member?, Json.findMember]
  · by_cases hr : rejected = []
    · simp [h, hr, Json.member?, Json.findMember]
    · simp [h, hr, Json.member?, Json.findMember]

theorem yields_buildAuthorized (seams : SelectionSeams) (query : Json) (count : ℕ)
    (allowed rejected : List Json) : ∃ info,
      Yields (buildAuthorized seams query count (allowed.map allowedEntry) rejected)
        (.selected info (selectResult count allowed.length)) ∧
      allowedSnssais info = allowed ∧ rejectedSnssais info = rejected ∧
      (selectResult count allowed.length = .fullReject → info.member? "targetAmfSet" = none) := by
  obtain ⟨ms, hms⟩ : ∃ ms, authorizedInfo (allowed.map allowedEntry) rejected = .object ms :=
    ⟨_, rfl⟩
  obtain ⟨more, hmore, hreject, hamf⟩ := yields_addTargetAmfSet seams query ms
    (selectResult count allowed.length)
  refine ⟨.object (ms ++ more), ?_, allowedSnssais_authorizedInfo allowed rejected hmore ms hms,
    rejectedSnssais_authorizedInfo _ rejected hmore ms hms, ?_⟩
  · unfold buildAuthorized
    rw [List.length_map]
    refine Yields.bind (yields_allocated _) ?_
    refine Yields.bind (yields_addAllowed _) ?_
    have hrej := yields_addRejected (allowed.map allowedEntry) rejected
    rw [hms] at hrej
    exact Yields.bind hrej (Yields.bind hamf (yields_pure _))
  · intro h
    rw [hreject h, List.append_nil, ← hms]
    exact targetAmfSet_authorizedInfo _ rejected

/-- What was requested and how much of it passes tell the outcome. -/
def outcome (seams : SelectionSeams) (r : AvailabilityRepo) (variantBody : Json) (isPdu : Bool)
    (tai plmn set : Json) : SelectResult :=
  selectResult (requested variantBody isPdu).length
    ((requested variantBody isPdu).filter
      (gates seams.plmnPolicyAllowList set (available r plmn tai))).length

/-- The answer lists the requested slices that pass and those that do not. -/
structure Answers (seams : SelectionSeams) (r : AvailabilityRepo) (variantBody : Json)
    (isPdu : Bool) (tai plmn set info : Json) : Prop where
  allowed : allowedSnssais info = (requested variantBody isPdu).filter
    (gates seams.plmnPolicyAllowList set (available r plmn tai))
  rejected : rejectedSnssais info = (requested variantBody isPdu).filter fun req =>
    !gates seams.plmnPolicyAllowList set (available r plmn tai) req
  target : outcome seams r variantBody isPdu tai plmn set = .fullReject →
    info.member? "targetAmfSet" = none

theorem yields_selectVariant {seams : SelectionSeams} {query variantBody set : Json}
    {isPdu : Bool} (hv : variantBody.isObject = true)
    (hs : subscribed seams query variantBody = some set)
    (he : seams.subscribedNssai = none → ∀ x ∈ subscribedEntries variantBody, x.Lookable)
    {r : AvailabilityRepo} {tai plmn : Json}
    (hp : ∀ req ∈ requested variantBody isPdu,
      passes set (available r plmn tai) seams.plmnPolicyAllowList req =
        pure (gates seams.plmnPolicyAllowList set (available r plmn tai) req)) :
    ∃ info, Yields (selectVariant seams r query variantBody isPdu tai plmn)
        (.selected info (outcome seams r variantBody isPdu tai plmn set)) ∧
      Answers seams r variantBody isPdu tai plmn set info := by
  have hclassify := yields_classify hp
  obtain ⟨info, hbuild, hallowed, hrejected, htarget⟩ := yields_buildAuthorized seams query
    (requested variantBody isPdu).length
    ((requested variantBody isPdu).filter
      (gates seams.plmnPolicyAllowList set (available r plmn tai)))
    ((requested variantBody isPdu).filter fun req =>
      !gates seams.plmnPolicyAllowList set (available r plmn tai) req)
  refine ⟨info, ?_, hallowed, hrejected, htarget⟩
  refine Yields.bind (makes_collectRequested hv isPdu).granted ?_
  refine Yields.bind (makes_resolveSubscribed hv he hs).granted ?_
  refine Yields.bind (yields_collectAvailability r plmn tai) ?_
  refine Yields.bind (yields_allocated _) (Yields.bind (yields_allocated _) ?_)
  exact Yields.bind hclassify hbuild

theorem eq_object_of_isObject {j : Json} (h : j.isObject = true) : ∃ ms, j = .object ms := by
  cases j with
  | object ms => exact ⟨ms, rfl⟩
  | _ => cases h

/-- A query that can be served is selected for by its variant. -/
theorem NsSelectionQuery.Served.select_eq {seams : SelectionSeams} {query variantBody tai plmn set : Json}
    {isPdu : Bool} (hq : Served seams query variantBody isPdu tai plmn set)
    (r : AvailabilityRepo) :
    select seams r (some query) = selectVariant seams r query variantBody isPdu tai plmn := by
  have hlook := Json.lookable_of_isObject hq.object
  have hdetect : detectVariant query = pure (some (variantBody, isPdu)) := by
    unfold detectVariant
    simp only [Json.getObjectItem_of_lookable hlook, pure_bind, hq.variant]
  obtain ⟨members, rfl⟩ := eq_object_of_isObject hq.areaObject
  obtain ⟨plmnMembers, rfl⟩ := eq_object_of_isObject hq.servingObject
  unfold select
  simp only [hdetect, pure_bind, Json.getObjectItem_of_lookable hlook, hq.area,
    Json.getObjectItem_of_lookable (Json.lookable_object members), hq.serving]

/-- The selection returns, and allows the requested slices that pass the three gates. -/
theorem yields_select {seams : SelectionSeams} {query variantBody tai plmn set : Json}
    {isPdu : Bool} (hq : Served seams query variantBody isPdu tai plmn set)
    (hl : Lookable seams variantBody isPdu set) (r : AvailabilityRepo) :
    ∃ info result, Yields (select seams r (some query)) (.selected info result) ∧
      allowedSnssais info = (requested variantBody isPdu).filter
        (gates seams.plmnPolicyAllowList set (available r plmn tai)) := by
  have havail : ∀ x ∈ available r plmn tai, x.Lookable :=
    fun x hx => Json.lookable_of_isObject (isObject_of_mem_available r plmn tai x hx)
  obtain ⟨info, hselect, hanswers⟩ := yields_selectVariant (variant_isObject hq.variant)
    hq.source hl.entries fun req hreq => passes_eq (hl.wanted req hreq) hl.source havail hl.policy
  rw [hq.select_eq r]
  exact ⟨info, _, hselect, hanswers.allowed⟩

end Nssf
