import Nssf.Selection.Outcome

/-! The answer of a selection as a partition of what is requested: which slices are allowed,
said with sets, and which lookups have to hold up for the engine to get there. -/

namespace Nssf

open Base Run NsSelectionQuery

/-- The entries that a search for the slice looks at, up to the first one that is the slice. -/
def scanned (req : Json) : List Json → List Json
  | [] => []
  | it :: items => if sameSnssai it req then [it] else it :: scanned req items

theorem isObject_of_snssaiKey {a : Json} (h : (snssaiKey a).isSome = true) :
    a.isObject = true := by
  cases a with
  | object members => rfl
  | _ => cases h

section scan

variable {req : Json} {items : List Json} {e e' : Env} {b : Bool}

theorem snssaiInItems_of_scanned (h : ∀ x ∈ scanned req items, x.Lookable ∧ req.Lookable) :
    snssaiInItems req items = pure (items.any (sameSnssai · req)) := by
  induction items with
  | nil => rfl
  | cons it items ih =>
    unfold scanned at h
    unfold snssaiInItems
    cases hsame : sameSnssai it req with
    | true =>
      simp only [hsame, if_true] at h
      obtain ⟨hit, hreq⟩ := h it List.mem_cons_self
      rw [snssaiEqual_eq hit hreq, pure_bind, List.any_cons, hsame]
      rfl
    | false =>
      simp only [hsame, Bool.false_eq_true, if_false] at h
      obtain ⟨hit, hreq⟩ := h it List.mem_cons_self
      rw [snssaiEqual_eq hit hreq, pure_bind, List.any_cons, hsame]
      exact ih fun x hx => h x (List.mem_cons_of_mem it hx)

/-- A search that returned could look into all that it looked at. -/
theorem scanned_of_snssaiInItems (h : snssaiInItems req items e = .ok (b, e')) :
    ∀ x ∈ scanned req items, x.Lookable ∧ req.Lookable := by
  induction items with
  | nil =>
    intro x hx
    cases hx
  | cons it items ih =>
    obtain ⟨same, e₁, hsame, hrest⟩ := Prog.bind_eq_ok.1 h
    have hlook := hsame
    obtain ⟨sst, e₂, hit, hlook⟩ := Prog.bind_eq_ok.1 hlook
    obtain ⟨sst', e₃, hreq, -⟩ := Prog.bind_eq_ok.1 hlook
    have hboth : it.Lookable ∧ req.Lookable :=
      ⟨lookable_of_getObjectItem hit, lookable_of_getObjectItem hreq⟩
    obtain ⟨rfl, rfl⟩ := snssaiEqual_ok hsame
    intro x hx
    unfold scanned at hx
    cases hs : sameSnssai it req with
    | true =>
      rw [hs] at hx
      rw [List.mem_singleton.1 hx]
      exact hboth
    | false =>
      rw [hs] at hx hrest
      rcases List.mem_cons.1 hx with rfl | hx
      · exact hboth
      · exact ih hrest x hx

end scan

/-- The searches that one requested slice takes part in can look into all they look at. -/
structure Searches (policy : Option Json) (set : Json) (availability : List Json) (req : Json) :
    Prop where
  subscribed : ∀ items, set = .array items → ∀ x ∈ scanned req items, x.Lookable ∧ req.Lookable
  policy : snssaiIn (some set) req = true → availability.any (sameSnssai · req) = true →
    ∀ items, policy = some (.array items) → ∀ x ∈ scanned req items, x.Lookable

section passes

variable {policy : Option Json} {set req : Json} {availability : List Json} {e e' : Env}

/-- A slice that was found is an object. -/
theorem lookable_of_snssaiIn (h : snssaiIn (some set) req = true) : req.Lookable := by
  unfold snssaiIn at h
  cases set with
  | array items =>
    obtain ⟨x, -, hx⟩ := List.any_eq_true.1 h
    obtain ⟨k, -, hk⟩ := sameSnssai_iff.1 hx
    exact Json.lookable_of_isObject (isObject_of_snssaiKey (by rw [hk]; rfl))
  | _ => cases h

theorem snssaiInArray_of_scanned {set : Option Json}
    (h : ∀ items, set = some (.array items) → ∀ x ∈ scanned req items, x.Lookable ∧ req.Lookable) :
    snssaiInArray set req = pure (snssaiIn set req) := by
  unfold snssaiInArray snssaiIn
  cases set with
  | none => rfl
  | some set =>
    cases set with
    | array items => exact snssaiInItems_of_scanned (h items rfl)
    | _ => rfl

theorem scanned_of_snssaiInArray {set : Option Json} {b : Bool}
    (h : snssaiInArray set req e = .ok (b, e')) :
    ∀ items, set = some (.array items) → ∀ x ∈ scanned req items, x.Lookable ∧ req.Lookable := by
  intro items hset
  rw [hset] at h
  exact scanned_of_snssaiInItems h

theorem Searches.passes_eq (h : Searches policy set availability req)
    (havail : ∀ x ∈ availability, x.Lookable) :
    passes set availability policy req = pure (gates policy set availability req) := by
  have hset : ∀ items, some set = some (Json.array items) →
      ∀ x ∈ scanned req items, x.Lookable ∧ req.Lookable :=
    fun items hs => h.subscribed items (Option.some.inj hs)
  unfold passes gates
  rw [snssaiInArray_of_scanned hset, pure_bind]
  cases hsub : snssaiIn (some set) req with
  | false => rfl
  | true =>
    have hreq := lookable_of_snssaiIn hsub
    rw [if_pos rfl, snssaiInItems_eq hreq havail, pure_bind]
    cases hthere : availability.any (sameSnssai · req) with
    | false => rfl
    | true =>
      have hpol := h.policy hsub hthere
      unfold permitted permits
      cases policy with
      | none => rfl
      | some list =>
        exact snssaiInArray_of_scanned fun items hl x hx => ⟨hpol items hl x hx, hreq⟩

/-- A slice whose gates were all answered was looked up without a stop. -/
theorem searches_of_passes {b : Bool} (h : passes set availability policy req e = .ok (b, e')) :
    Searches policy set availability req := by
  obtain ⟨wanted, e₁, hwanted, hrest⟩ := Prog.bind_eq_ok.1 h
  have hset := scanned_of_snssaiInArray hwanted
  refine ⟨fun items hs => hset items (by rw [hs]), ?_⟩
  intro hsub hthere items hpol x hx
  obtain ⟨rfl, rfl⟩ := snssaiInArray_ok hwanted
  rw [hsub, if_pos rfl] at hrest
  obtain ⟨there, e₂, hsearch, hlast⟩ := Prog.bind_eq_ok.1 hrest
  obtain ⟨rfl, rfl⟩ := snssaiInItems_ok hsearch
  rw [hthere, if_pos rfl, hpol] at hlast
  have hsearch' : snssaiInArray (some (.array items)) req e₂ = .ok (b, e') := hlast
  exact (scanned_of_snssaiInArray hsearch' items rfl x hx).1

theorem searches_of_classify (he : e.AllocOk) {reqs : List Json}
    {o : Option (List Json × List Json)}
    (h : classify set availability policy reqs e = .ok (o, e')) :
    ∀ req ∈ reqs, Searches policy set availability req := by
  induction reqs generalizing e e' o with
  | nil =>
    intro req hreq
    cases hreq
  | cons req reqs ih =>
    obtain ⟨pass, e₁, hpass, h⟩ := Prog.bind_eq_ok.1 h
    have hfirst := searches_of_passes hpass
    obtain ⟨-, rfl⟩ := passes_ok hpass
    have hrest : ∀ req ∈ reqs, Searches policy set availability req := by
      cases pass with
      | true =>
        obtain ⟨e₂, he₂, -, h⟩ := (yields_makeAllowedSnssaiEntry req).bind_ok he h
        obtain ⟨rest, e₃, hrest, -⟩ := Prog.bind_eq_ok.1 h
        exact ih he₂ hrest
      | false =>
        obtain ⟨e₂, he₂, -, h⟩ := (yields_allocated req).bind_ok he h
        obtain ⟨rest, e₃, hrest, -⟩ := Prog.bind_eq_ok.1 h
        exact ih he₂ hrest
    intro x hx
    rcases List.mem_cons.1 hx with rfl | hx
    · exact hfirst
    · exact hrest x hx

end passes

/-- The entries of a list of slices, where it is one. -/
def listedIn (set : Json) : List Json :=
  match set with
  | .array items => items
  | _ => []

/-- The slices that may be used: subscribed, supported by a record of the tracking area, and
on the list of the PLMN where there is one. -/
structure Admitted (seams : SelectionSeams) (r : AvailabilityRepo) (tai plmn set req : Json) :
    Prop where
  subscribed : ∃ x ∈ listedIn set, sameSnssai x req = true
  available : ∃ record ∈ r.items, AvailabilityRepo.At (some plmn) (some tai) record = true ∧
    ∃ x ∈ recordSlices record, x.isObject = true ∧ sameSnssai x req = true
  permitted : ∀ list, seams.plmnPolicyAllowList = some list →
    ∃ x ∈ listedIn list, sameSnssai x req = true

theorem snssaiIn_iff {set req : Json} :
    snssaiIn (some set) req = true ↔ ∃ x ∈ listedIn set, sameSnssai x req = true := by
  unfold snssaiIn listedIn
  cases set with
  | array items => exact List.any_eq_true
  | _ => simp

/-- The gates admit just these slices: leaving out duplicates does not change the answer. -/
theorem gates_iff {seams : SelectionSeams} {r : AvailabilityRepo} {tai plmn set req : Json} :
    gates seams.plmnPolicyAllowList set (available r plmn tai) req = true ↔
      Admitted seams r tai plmn set req := by
  have havail : (available r plmn tai).any (sameSnssai · req) = true ↔
      ∃ record ∈ r.items, AvailabilityRepo.At (some plmn) (some tai) record = true ∧
        ∃ x ∈ recordSlices record, x.isObject = true ∧ sameSnssai x req = true := by
    unfold available
    rw [any_unionSnssais]
    simp only [List.any_nil, Bool.false_eq_true, false_or, List.mem_flatMap, List.mem_filter]
    constructor
    · intro h
      obtain ⟨x, ⟨record, ⟨hmem, hat⟩, hx⟩, hobject, hsame⟩ := h
      exact ⟨record, hmem, hat, x, hx, hobject, hsame⟩
    · intro h
      obtain ⟨record, hmem, hat, x, hx, hobject, hsame⟩ := h
      exact ⟨x, ⟨record, ⟨hmem, hat⟩, hx⟩, hobject, hsame⟩
  have hpermits : permits seams.plmnPolicyAllowList req = true ↔
      ∀ list, seams.plmnPolicyAllowList = some list →
        ∃ x ∈ listedIn list, sameSnssai x req = true := by
    unfold permits
    cases seams.plmnPolicyAllowList with
    | none => simp
    | some list =>
      dsimp only
      rw [snssaiIn_iff]
      simp
  unfold gates
  rw [Bool.and_eq_true, Bool.and_eq_true, snssaiIn_iff, havail, hpermits]
  constructor
  · intro h
    exact ⟨h.1, h.2.1, h.2.2⟩
  · intro h
    exact ⟨h.subscribed, h.available, h.permitted⟩

section select

variable {seams : SelectionSeams} {query variantBody tai plmn set : Json} {isPdu : Bool}

/-- Every lookup that the selection makes can be made. -/
structure Reaches (seams : SelectionSeams) (r : AvailabilityRepo) (variantBody : Json)
    (isPdu : Bool) (tai plmn set : Json) : Prop where
  entries : seams.subscribedNssai = none → ∀ x ∈ subscribedEntries variantBody, x.Lookable
  slices : ∀ req ∈ requested variantBody isPdu,
    Searches seams.plmnPolicyAllowList set (available r plmn tai) req

/-- The answer splits what was requested into the slices that may be used and the others, and
its result says how the two compare. -/
structure Splits (seams : SelectionSeams) (r : AvailabilityRepo) (requests : List Json)
    (tai plmn set info : Json) (result : SelectResult) : Prop where
  lists : ∃ p : Json → Bool, (∀ req, p req = true ↔ Admitted seams r tai plmn set req) ∧
    allowedSnssais info = requests.filter p ∧
    rejectedSnssais info = requests.filter fun req => !p req
  fullAllow : result = .fullAllow ↔ rejectedSnssais info = []
  fullReject : result = .fullReject ↔ requests ≠ [] ∧ allowedSnssais info = []
  partialAllow : result = .partialAllow ↔
    allowedSnssais info ≠ [] ∧ rejectedSnssais info ≠ []
  target : info.member? "targetAmfSet" ≠ none → result ≠ .fullReject

theorem length_filter_add (p : Json → Bool) (xs : List Json) :
    (xs.filter p).length + (xs.filter fun x => !p x).length = xs.length := by
  induction xs with
  | nil => rfl
  | cons x xs ih =>
    rw [List.filter_cons, List.filter_cons]
    cases p x with
    | true =>
      simp only [if_true, Bool.not_true, Bool.false_eq_true, if_false, List.length_cons]
      omega
    | false =>
      simp only [if_true, Bool.not_false, Bool.false_eq_true, if_false, List.length_cons]
      omega

theorem selectResult_iff {n allowed rejected : ℕ} (h : allowed + rejected = n) :
    (selectResult n allowed = .fullAllow ↔ rejected = 0) ∧
      (selectResult n allowed = .fullReject ↔ n ≠ 0 ∧ allowed = 0) ∧
      (selectResult n allowed = .partialAllow ↔ allowed ≠ 0 ∧ rejected ≠ 0) := by
  by_cases hall : n = 0 ∨ allowed = n
  · have hresult : selectResult n allowed = .fullAllow := if_pos hall
    simp only [hresult, true_iff, reduceCtorEq, false_iff]
    omega
  · by_cases hnone : allowed = 0
    · have hresult : selectResult n allowed = .fullReject := by
        rw [selectResult, if_neg hall, if_pos hnone]
      simp only [hresult, true_iff, reduceCtorEq, false_iff]
      omega
    · have hresult : selectResult n allowed = .partialAllow := by
        rw [selectResult, if_neg hall, if_neg hnone]
      simp only [hresult, true_iff, reduceCtorEq, false_iff]
      omega

theorem Answers.splits {r : AvailabilityRepo} {info : Json}
    (h : Answers seams r variantBody isPdu tai plmn set info) :
    Splits seams r (requested variantBody isPdu) tai plmn set info
      (outcome seams r variantBody isPdu tai plmn set) := by
  have hlen := length_filter_add (gates seams.plmnPolicyAllowList set (available r plmn tai))
    (requested variantBody isPdu)
  rw [← h.allowed, ← h.rejected] at hlen
  have hresult : outcome seams r variantBody isPdu tai plmn set =
      selectResult (requested variantBody isPdu).length (allowedSnssais info).length := by
    rw [h.allowed]
    rfl
  have hcounts := selectResult_iff hlen
  rw [← hresult] at hcounts
  simp only [List.length_eq_zero_iff, ne_eq] at hcounts
  have hlists : ∃ p : Json → Bool, (∀ req, p req = true ↔ Admitted seams r tai plmn set req) ∧
      allowedSnssais info = (requested variantBody isPdu).filter p ∧
      rejectedSnssais info = (requested variantBody isPdu).filter fun req => !p req :=
    ⟨_, fun req => gates_iff, h.allowed, h.rejected⟩
  refine ⟨hlists, hcounts.1, hcounts.2.1, hcounts.2.2, ?_⟩
  intro hmember hreject
  exact hmember (h.target hreject)

theorem reaches_of_selectVariant {e e' : Env} (he : e.AllocOk) (hv : variantBody.isObject = true)
    (hs : subscribed seams query variantBody = some set) {r : AvailabilityRepo} {sel : Selection}
    (h : selectVariant seams r query variantBody isPdu tai plmn e = .ok (sel, e')) :
    Reaches seams r variantBody isPdu tai plmn set := by
  obtain ⟨e₁, he₁, -, h⟩ := (makes_collectRequested hv isPdu).granted.bind_ok he h
  obtain ⟨o, e₂, hresolve, h⟩ := Prog.bind_eq_ok.1 h
  have hentries := resolveSubscribed_entries he₁ hv hresolve
  obtain ⟨rfl, he₂⟩ := resolveSubscribed_ok he₁ hv hresolve
  rw [hs] at h
  obtain ⟨e₃, he₃, -, h⟩ := (yields_collectAvailability r plmn tai).bind_ok he₂ h
  obtain ⟨e₄, he₄, -, h⟩ := (yields_allocated (Json.array [])).bind_ok he₃ h
  obtain ⟨e₅, he₅, -, h⟩ := (yields_allocated (Json.array [])).bind_ok he₄ h
  obtain ⟨split, e₆, hclassify, -⟩ := Prog.bind_eq_ok.1 h
  exact ⟨hentries, searches_of_classify he₅ hclassify⟩

/-- The selection splits what is requested by its sets just when its lookups can be made. -/
theorem select_splits_iff (hq : Served seams query variantBody isPdu tai plmn set)
    (r : AvailabilityRepo) {e : Env} (he : e.AllocOk) :
    (∃ info result e', select seams r (some query) e = .ok (.selected info result, e') ∧
      Splits seams r (requested variantBody isPdu) tai plmn set info result) ↔
      Reaches seams r variantBody isPdu tai plmn set := by
  have hv := variant_isObject hq.variant
  rw [hq.select_eq r]
  constructor
  · intro h
    obtain ⟨info, result, e', h, -⟩ := h
    exact reaches_of_selectVariant he hv hq.source h
  · intro h
    have havail : ∀ x ∈ available r plmn tai, x.Lookable :=
      fun x hx => Json.lookable_of_isObject (isObject_of_mem_available r plmn tai x hx)
    obtain ⟨info, hselect, hanswers⟩ := yields_selectVariant hv hq.source h.entries
      fun req hreq => (h.slices req hreq).passes_eq havail
    obtain ⟨e', hrun, -⟩ := hselect e he
    exact ⟨info, _, e', hrun, hanswers.splits⟩

def slice (sst : ℕ) : Json := .object [("sst", .number (Binary64.ofNat sst))]

/-- A registration with slice 1 as its one subscribed slice. -/
def registration (requests : List Json) : Json :=
  .object [("requestedNssai", .array requests),
    ("subscribedNssai", .array [.object [("subscribedSnssai", slice 1)]])]

def servingPlmn : Json := .object [("mcc", .string "001"), ("mnc", .string "01")]

def servingTai : Json := .object [("plmnId", servingPlmn), ("tac", .string "000001")]

def registrationQuery (requests : List Json) : Json :=
  .object [("sliceInfoForRegistration", registration requests), ("tai", servingTai)]

theorem served_registrationQuery (requests : List Json) :
    Served {} (registrationQuery requests) (registration requests) false servingTai servingPlmn
      (.array [slice 1]) where
  object := rfl
  variant := rfl
  area := rfl
  areaObject := rfl
  serving := rfl
  servingObject := rfl
  source := rfl

/-- One record, which lists slice 1 twice. -/
def servingRepo : AvailabilityRepo :=
  ⟨[⟨"amf-1", some servingPlmn, some servingTai, some (.array [slice 1, slice 1]), none, false⟩]⟩

theorem select_splits_iff_registration : ∃ info result e',
    select {} servingRepo (some (registrationQuery [slice 2, slice 1])) Env.quiet =
        .ok (.selected info result, e') ∧
      Splits {} servingRepo [slice 2, slice 1] servingTai servingPlmn (.array [slice 1]) info
        result := by
  refine (select_splits_iff (served_registrationQuery [slice 2, slice 1]) _ Env.allocOk_quiet).2 ?_
  have hslice (sst : ℕ) : (slice sst).Lookable := trivial
  refine ⟨?_, ?_⟩
  · intro _ x hx
    rw [List.mem_singleton.1 hx]
    exact Json.lookable_object _
  · intro req hreq
    have hreq' : req.Lookable := by
      rcases List.mem_cons.1 hreq with rfl | hreq
      · exact hslice 2
      · rw [List.mem_singleton.1 hreq]
        exact hslice 1
    refine ⟨?_, ?_⟩
    · intro items hitems x hx
      cases hitems
      have hmem : x ∈ [slice 1] := by
        unfold scanned at hx
        split_ifs at hx with hsame
        · exact hx
        · exact hx
      rw [List.mem_singleton.1 hmem]
      exact ⟨hslice 1, hreq'⟩
    · intro _ _ items hitems
      cases hitems

/-- The one entry that is requested is a list: comparing it to slice 1 stops the engine. -/
theorem requested_list_stops_selection :
    Served {} (registrationQuery [.array [slice 1]]) (registration [.array [slice 1]]) false
        servingTai servingPlmn (.array [slice 1]) ∧
      Env.quiet.AllocOk ∧
      ¬∃ info result e', select {} .newInmemory (some (registrationQuery [.array [slice 1]]))
        Env.quiet = .ok (.selected info result, e') := by
  refine ⟨served_registrationQuery _, Env.allocOk_quiet, ?_⟩
  have hstop : select {} .newInmemory (some (registrationQuery [.array [slice 1]])) Env.quiet =
      .error .nullName := by
    rfl
  intro h
  obtain ⟨info, result, e', h⟩ := h
  rw [hstop] at h
  cases h

end select

end Nssf
