import Nssf.Selection.Allowed

/-! The outcome of a selection that returns, when no allocation fails. Nothing is asked of the
slices in the query: a lookup that was made and returned has told what the slice is. -/

namespace Nssf

open Base Run NsSelectionQuery

section gates

variable {e e' : Env} {b : Bool}

theorem lookable_of_getObjectItem {j : Json} {name : String} {o : Option Json}
    (h : Json.getObjectItem (some j) name e = .ok (o, e')) : j.Lookable :=
  Json.getObjectItem_returns_iff.1 ⟨_, h⟩

theorem snssaiEqual_ok {x y : Json} (h : snssaiEqual x y e = .ok (b, e')) :
    b = sameSnssai x y ∧ e' = e := by
  have hret := h
  obtain ⟨sstX, e₁, hx, hret⟩ := Prog.bind_eq_ok.1 hret
  obtain ⟨sstY, e₂, hy, -⟩ := Prog.bind_eq_ok.1 hret
  rw [snssaiEqual_eq (lookable_of_getObjectItem hx) (lookable_of_getObjectItem hy)] at h
  cases h
  exact ⟨rfl, rfl⟩

theorem snssaiInItems_ok {target : Json} {items : List Json}
    (h : snssaiInItems target items e = .ok (b, e')) :
    b = items.any (sameSnssai · target) ∧ e' = e := by
  induction items with
  | nil =>
    cases h
    exact ⟨rfl, rfl⟩
  | cons it items ih =>
    obtain ⟨same, e₁, hsame, hrest⟩ := Prog.bind_eq_ok.1 h
    obtain ⟨rfl, rfl⟩ := snssaiEqual_ok hsame
    rw [List.any_cons]
    cases hs : sameSnssai it target with
    | true =>
      rw [hs] at hrest
      cases hrest
      exact ⟨rfl, rfl⟩
    | false =>
      rw [hs] at hrest
      exact ih hrest

theorem snssaiInArray_ok {set : Option Json} {target : Json}
    (h : snssaiInArray set target e = .ok (b, e')) : b = snssaiIn set target ∧ e' = e := by
  unfold snssaiInArray at h
  unfold snssaiIn
  cases set with
  | none =>
    cases h
    exact ⟨rfl, rfl⟩
  | some set =>
    cases set with
    | array items => exact snssaiInItems_ok h
    | _ =>
      cases h
      exact ⟨rfl, rfl⟩

variable {set : Json} {availability : List Json} {policy : Option Json} {req : Json}

theorem passes_ok (h : passes set availability policy req e = .ok (b, e')) :
    b = gates policy set availability req ∧ e' = e := by
  obtain ⟨wanted, e₁, hwanted, hrest⟩ := Prog.bind_eq_ok.1 h
  obtain ⟨rfl, rfl⟩ := snssaiInArray_ok hwanted
  unfold gates
  cases hw : snssaiIn (some set) req with
  | false =>
    rw [hw] at hrest
    cases hrest
    exact ⟨rfl, rfl⟩
  | true =>
    rw [hw] at hrest
    obtain ⟨there, e₂, hthere, hlast⟩ := Prog.bind_eq_ok.1 hrest
    obtain ⟨rfl, rfl⟩ := snssaiInItems_ok hthere
    cases ht : availability.any (sameSnssai · req) with
    | false =>
      rw [ht] at hlast
      cases hlast
      exact ⟨rfl, rfl⟩
    | true =>
      rw [ht] at hlast
      cases policy with
      | none =>
        cases hlast
        exact ⟨rfl, rfl⟩
      | some allowList => exact snssaiInArray_ok hlast

/-- The slices that pass and those that do not, if the classification returns. -/
theorem classify_ok (he : e.AllocOk) {reqs : List Json} {o : Option (List Json × List Json)}
    (h : classify set availability policy reqs e = .ok (o, e')) :
    o = some ((reqs.filter (gates policy set availability)).map allowedEntry,
      reqs.filter fun req => !gates policy set availability req) ∧ e'.AllocOk := by
  induction reqs generalizing e e' o with
  | nil =>
    cases h
    exact ⟨rfl, he⟩
  | cons req reqs ih =>
    obtain ⟨pass, e₁, hpass, hone⟩ := Prog.bind_eq_ok.1 h
    obtain ⟨rfl, rfl⟩ := passes_ok hpass
    rw [List.filter_cons, List.filter_cons]
    cases hg : gates policy set availability req with
    | true =>
      rw [hg] at hone
      obtain ⟨e₂, he₂, -, hone⟩ := (yields_makeAllowedSnssaiEntry req).bind_ok he hone
      obtain ⟨rest, e₃, hrest, hone⟩ := Prog.bind_eq_ok.1 hone
      obtain ⟨rfl, he₃⟩ := ih he₂ hrest
      cases hone
      exact ⟨rfl, he₃⟩
    | false =>
      rw [hg] at hone
      obtain ⟨e₂, he₂, -, hone⟩ := (yields_allocated req).bind_ok he hone
      obtain ⟨rest, e₃, hrest, hone⟩ := Prog.bind_eq_ok.1 hone
      obtain ⟨rfl, he₃⟩ := ih he₂ hrest
      cases hone
      exact ⟨rfl, he₃⟩

end gates

section select

variable {seams : SelectionSeams} {query variantBody : Json} {isPdu : Bool} {e e' : Env}

theorem entries_lookable {entries : List Json} (he : e.AllocOk) {o : Option (List Json)}
    (h : flattenSubscribed entries e = .ok (o, e')) : ∀ x ∈ entries, x.Lookable := by
  induction entries generalizing e e' o with
  | nil =>
    intro x hx
    cases hx
  | cons entry entries ih =>
    obtain ⟨member, e₁, hget, h⟩ := Prog.bind_eq_ok.1 h
    have hlook := lookable_of_getObjectItem hget
    rw [Json.getObjectItem_of_lookable hlook] at hget
    cases hget
    have hrest : ∀ x ∈ entries, x.Lookable := by
      cases hm : entry.member? "subscribedSnssai" with
      | none =>
        rw [hm] at h
        exact ih he h
      | some v =>
        rw [hm] at h
        cases v with
        | object members =>
          obtain ⟨e₂, he₂, -, h⟩ := (yields_allocated (Json.object members)).bind_ok he h
          obtain ⟨rest, e₃, hrest, -⟩ := Prog.bind_eq_ok.1 h
          exact ih he₂ hrest
        | _ => exact ih he h
    intro x hx
    rcases List.mem_cons.1 hx with rfl | hx
    · exact hlook
    · exact hrest x hx

theorem resolveSubscribed_entries (he : e.AllocOk) (hv : variantBody.isObject = true)
    {o : Option Json} (h : resolveSubscribed seams query variantBody e = .ok (o, e')) :
    seams.subscribedNssai = none → ∀ x ∈ subscribedEntries variantBody, x.Lookable := by
  intro hseam
  unfold resolveSubscribed at h
  rw [hseam] at h
  obtain ⟨e₁, he₁, -, h⟩ := (yields_allocated (Json.array [])).bind_ok he h
  dsimp only at h
  rw [Json.getObjectItem_of_lookable (Json.lookable_of_isObject hv), pure_bind] at h
  unfold subscribedEntries
  cases hm : variantBody.member? "subscribedNssai" with
  | none =>
    intro x hx
    cases hx
  | some v =>
    rw [hm] at h
    cases v with
    | array entries =>
      obtain ⟨flat, e₂, hflat, -⟩ := Prog.bind_eq_ok.1 h
      exact entries_lookable he₁ hflat
    | _ =>
      intro x hx
      cases hx

theorem resolveSubscribed_ok (he : e.AllocOk) (hv : variantBody.isObject = true)
    {o : Option Json} (h : resolveSubscribed seams query variantBody e = .ok (o, e')) :
    o = subscribed seams query variantBody ∧ e'.AllocOk := by
  cases hs : subscribed seams query variantBody with
  | some set =>
    have hl := resolveSubscribed_entries he hv h
    obtain ⟨rfl, hd⟩ := (makes_resolveSubscribed hv hl hs).granted.eq_of_ok he h
    exact ⟨rfl, hd.allocOk he⟩
  | none =>
    unfold subscribed at hs
    unfold resolveSubscribed at h
    cases hseam : seams.subscribedNssai with
    | none =>
      rw [hseam] at hs
      cases hs
    | some lookup =>
      rw [hseam] at hs h
      dsimp only at hs h
      cases hl : lookup query with
      | none =>
        rw [hl] at h
        cases h
        exact ⟨rfl, he⟩
      | some found =>
        rw [hl] at hs
        cases hs

theorem selectVariant_ok (he : e.AllocOk) (hv : variantBody.isObject = true)
    {r : AvailabilityRepo} {tai plmn : Json} {sel : Selection}
    (h : selectVariant seams r query variantBody isPdu tai plmn e = .ok (sel, e')) :
    (subscribed seams query variantBody = none ∧ ∃ err, sel = .failed err) ∨
      ∃ set info, subscribed seams query variantBody = some set ∧
        sel = .selected info (outcome seams r variantBody isPdu tai plmn set) ∧ e'.AllocOk := by
  obtain ⟨e₁, he₁, -, h⟩ := (makes_collectRequested hv isPdu).granted.bind_ok he h
  obtain ⟨o, e₂, hresolve, h⟩ := Prog.bind_eq_ok.1 h
  obtain ⟨rfl, he₂⟩ := resolveSubscribed_ok he₁ hv hresolve
  cases hs : subscribed seams query variantBody with
  | none =>
    rw [hs] at h
    cases h
    exact Or.inl ⟨rfl, _, rfl⟩
  | some set =>
    rw [hs] at h
    obtain ⟨e₃, he₃, -, h⟩ := (yields_collectAvailability r plmn tai).bind_ok he₂ h
    obtain ⟨e₄, he₄, -, h⟩ := (yields_allocated (Json.array [])).bind_ok he₃ h
    obtain ⟨e₅, he₅, -, h⟩ := (yields_allocated (Json.array [])).bind_ok he₄ h
    obtain ⟨split, e₆, hclassify, h⟩ := Prog.bind_eq_ok.1 h
    obtain ⟨rfl, he₆⟩ := classify_ok he₅ hclassify
    obtain ⟨info, hbuild, -⟩ := yields_buildAuthorized seams query
      (requested variantBody isPdu).length
      ((requested variantBody isPdu).filter
        (gates seams.plmnPolicyAllowList set (available r plmn tai)))
      ((requested variantBody isPdu).filter fun req =>
        !gates seams.plmnPolicyAllowList set (available r plmn tai) req)
    obtain ⟨rfl, hd⟩ := hbuild.eq_of_ok he₆ h
    exact Or.inr ⟨set, info, rfl, rfl, hd.allocOk he₆⟩

/-- The query names one variant, and a tracking area with a PLMN. -/
structure Asked (query variantBody : Json) (isPdu : Bool) (tai plmn : Json) : Prop where
  variant : pickVariant (query.member? "sliceInfoForRegistration")
    (query.member? "sliceInfoForPDUSession")
    (query.member? "sliceInfoForUEConfigurationUpdate") = some (variantBody, isPdu)
  area : query.member? "tai" = some tai
  areaObject : tai.isObject = true
  serving : tai.member? "plmnId" = some plmn
  servingObject : plmn.isObject = true

theorem Asked.of_served {tai plmn set : Json}
    (h : Served seams query variantBody isPdu tai plmn set) :
    Asked query variantBody isPdu tai plmn :=
  ⟨h.variant, h.area, h.areaObject, h.serving, h.servingObject⟩

def WellAsked (query : Json) : Prop :=
  ∃ variantBody isPdu tai plmn, Asked query variantBody isPdu tai plmn

/-- The texts of the failures that a query brings about itself. -/
def askedErrors : List String :=
  ["selection_engine: exactly one slice-info variant required",
    "selection_engine: tai missing or not an object",
    "selection_engine: tai.plmnId missing"]

/-- The engine checks what is asked first, and goes on to select for its variant. -/
theorem select_cases (seams : SelectionSeams) (r : AvailabilityRepo)
    (hq : query.isObject = true) :
    (¬WellAsked query ∧
        ∃ err ∈ askedErrors, select seams r (some query) = pure (.failed err)) ∨
      ∃ variantBody isPdu tai plmn, Asked query variantBody isPdu tai plmn ∧
        select seams r (some query) =
          selectVariant seams r query variantBody isPdu tai plmn := by
  have hlook := Json.lookable_of_isObject hq
  unfold select detectVariant
  simp only [Json.getObjectItem_of_lookable hlook, pure_bind]
  cases hvar : pickVariant (query.member? "sliceInfoForRegistration")
      (query.member? "sliceInfoForPDUSession")
      (query.member? "sliceInfoForUEConfigurationUpdate") with
  | none =>
    refine Or.inl ⟨?_, _, List.mem_cons_self, rfl⟩
    intro hasked
    obtain ⟨v, p, tai, plmn, hasked⟩ := hasked
    have hv := hvar.symm.trans hasked.variant
    cases hv
  | some v =>
    obtain ⟨variantBody, isPdu⟩ := v
    have harea {o : Option Json} (ho : query.member? "tai" = o)
        (hno : ∀ ms, o ≠ some (.object ms)) : ¬WellAsked query := by
      intro hasked
      obtain ⟨v, p, tai, plmn, hasked⟩ := hasked
      obtain ⟨ms, rfl⟩ := eq_object_of_isObject hasked.areaObject
      exact hno ms (ho.symm.trans hasked.area)
    have htext : "selection_engine: tai missing or not an object" ∈ askedErrors :=
      List.mem_cons_of_mem _ List.mem_cons_self
    cases htai : query.member? "tai" with
    | none => exact Or.inl ⟨harea htai (by simp), _, htext, rfl⟩
    | some tai =>
      cases tai with
      | object members =>
        dsimp only
        rw [Json.getObjectItem_of_lookable (Json.lookable_object members), pure_bind]
        have hserving {o : Option Json} (ho : (Json.object members).member? "plmnId" = o)
            (hno : ∀ ms, o ≠ some (.object ms)) : ¬WellAsked query := by
          intro hasked
          obtain ⟨v, p, tai, plmn, hasked⟩ := hasked
          have hsame := htai.symm.trans hasked.area
          cases hsame
          obtain ⟨ms, rfl⟩ := eq_object_of_isObject hasked.servingObject
          exact hno ms (ho.symm.trans hasked.serving)
        have htext : "selection_engine: tai.plmnId missing" ∈ askedErrors :=
          List.mem_cons_of_mem _ (List.mem_cons_of_mem _ List.mem_cons_self)
        cases hplmn : (Json.object members).member? "plmnId" with
        | none => exact Or.inl ⟨hserving hplmn (by simp), _, htext, rfl⟩
        | some plmn =>
          cases plmn with
          | object plmnMembers =>
            exact Or.inr ⟨variantBody, isPdu, _, _, ⟨hvar, htai, rfl, hplmn, rfl⟩, rfl⟩
          | _ => exact Or.inl ⟨hserving hplmn (by simp), _, htext, rfl⟩
      | _ => exact Or.inl ⟨harea htai (by simp), _, htext, rfl⟩

/-- A selection fails exactly when its query cannot be served. -/
theorem select_ok (he : e.AllocOk) (hq : query.isObject = true) {r : AvailabilityRepo}
    {sel : Selection} (h : select seams r (some query) e = .ok (sel, e')) :
    ((∃ err, sel = .failed err) ∧
        ∀ variantBody isPdu tai plmn set, ¬Served seams query variantBody isPdu tai plmn set) ∨
      ∃ variantBody isPdu tai plmn set info,
        Served seams query variantBody isPdu tai plmn set ∧
        sel = .selected info (outcome seams r variantBody isPdu tai plmn set) ∧ e'.AllocOk := by
  rcases select_cases seams r hq with ⟨hno, err, -, heq⟩ | ⟨v, p, tai, plmn, hasked, heq⟩
  · rw [heq] at h
    cases h
    refine Or.inl ⟨⟨_, rfl⟩, fun v p tai plmn set hserved => ?_⟩
    exact hno ⟨v, p, tai, plmn, .of_served hserved⟩
  · rw [heq] at h
    rcases selectVariant_ok he (variant_isObject hasked.variant) h with
      ⟨hnone, hfailed⟩ | ⟨set, info, hset, hsel, he'⟩
    · refine Or.inl ⟨hfailed, fun v' p' tai' plmn' set hserved => ?_⟩
      have hsame := hasked.variant.symm.trans hserved.variant
      cases hsame
      have hsource := hserved.source
      rw [hnone] at hsource
      cases hsource
    · exact Or.inr ⟨v, p, tai, plmn, set, info, ⟨hq, hasked.variant, hasked.area,
        hasked.areaObject, hasked.serving, hasked.servingObject, hset⟩, hsel, he'⟩

end select

end Nssf
