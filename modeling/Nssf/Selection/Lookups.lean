import Nssf.Selection.Allowed

/-! The lookups of the selection, whatever the allocations answer. They stay within the query
and the stored slices, and only an element that is a non-empty array can stop them. -/

namespace Nssf

open Base Run NsSelectionQuery

section classify

variable {F : Fault → Prop} {items availability : List Json} {req : Json}

/-- An empty set is left before the slice is looked at. -/
theorem passes_returns (hitems : ∀ x ∈ items, x.Lookable)
    (havail : ∀ x ∈ availability, x.Lookable) (hreq : items ≠ [] → req.Lookable) :
    ∃ b, passes (.array items) availability none req = pure b := by
  by_cases hempty : items = []
  · rw [hempty]
    exact ⟨false, rfl⟩
  · have hset : ∀ l, Json.array items = .array l → ∀ x ∈ l, x.Lookable := by
      intro l hl
      cases hl
      exact hitems
    exact ⟨_, passes_eq (hreq hempty) hset havail (fun l hl => by cases hl)⟩

theorem gives_makeAllowedSnssaiEntry (req : Json) :
    Gives F (fun _ => True) (makeAllowedSnssaiEntry req) := by
  refine Gives.bind (gives_allocated _) fun o ho => ?_
  rcases ho with rfl | rfl
  · exact gives_pure trivial
  refine Gives.bind (gives_allocated req) fun o ho => ?_
  rcases ho with rfl | rfl
  · exact gives_pure trivial
  exact Gives.bind (gives_addItemToObject _ _ _) fun _ _ => gives_pure trivial

theorem gives_classify (hitems : ∀ x ∈ items, x.Lookable)
    (havail : ∀ x ∈ availability, x.Lookable) {reqs : List Json}
    (hreqs : items ≠ [] → ∀ x ∈ reqs, x.Lookable) :
    Gives F (fun _ => True) (classify (.array items) availability none reqs) := by
  induction reqs with
  | nil => exact gives_pure trivial
  | cons req reqs ih =>
    have hrest := ih fun hne x hx => hreqs hne x (List.mem_cons_of_mem req hx)
    obtain ⟨b, hb⟩ := passes_returns hitems havail fun hne => hreqs hne req List.mem_cons_self
    unfold classify
    rw [hb, pure_bind]
    cases b with
    | true =>
      refine Gives.bind (gives_makeAllowedSnssaiEntry req) fun o _ => ?_
      cases o with
      | none => exact gives_pure trivial
      | some entry =>
        refine Gives.bind hrest fun o _ => ?_
        cases o with
        | none => exact gives_pure trivial
        | some split => exact gives_pure trivial
    | false =>
      refine Gives.bind (gives_allocated req) fun o ho => ?_
      rcases ho with rfl | rfl
      · exact gives_pure trivial
      · refine Gives.bind hrest fun o _ => ?_
        cases o with
        | none => exact gives_pure trivial
        | some split => exact gives_pure trivial

end classify

/-- The seams of the server: none is installed. -/
def mainSeams : SelectionSeams := {}

section select

variable {F : Fault → Prop}

theorem gives_addAllowed (authorized : Json) (allowed : List Json) :
    Gives F (fun _ => True) (addAllowed authorized allowed) := by
  unfold addAllowed
  split_ifs with h
  · exact gives_pure trivial
  refine Gives.bind (gives_allocated _) fun o ho => ?_
  rcases ho with rfl | rfl
  · exact gives_pure trivial
  refine Gives.bind (gives_addItemToObject _ _ _) fun list _ => ?_
  refine Gives.bind (gives_addStringToObject _ _ _) fun list _ => ?_
  refine Gives.bind (gives_allocated _) fun o ho => ?_
  rcases ho with rfl | rfl
  · exact gives_pure trivial
  exact Gives.bind (gives_addItemToObject _ _ _) fun _ _ => gives_pure trivial

theorem gives_buildAuthorized (query : Json) (count : ℕ) (allowed rejected : List Json) :
    Gives F (fun _ => True) (buildAuthorized mainSeams query count allowed rejected) := by
  refine Gives.bind (gives_allocated _) fun o ho => ?_
  rcases ho with rfl | rfl
  · exact gives_pure trivial
  refine Gives.bind (gives_addAllowed _ _) fun o _ => ?_
  cases o with
  | error err => exact gives_pure trivial
  | ok authorized =>
    have hrejected : Gives F (fun _ => True) (addRejected authorized rejected) := by
      unfold addRejected
      split_ifs with h
      · exact gives_pure trivial
      · exact (gives_addItemToObject _ _ _).mono (fun _ _ => trivial) fun _ h => h
    refine Gives.bind hrejected fun authorized _ => ?_
    exact Gives.bind (P := fun _ => True) (gives_pure trivial) fun _ _ => gives_pure trivial

theorem gives_collectAvailability (r : AvailabilityRepo) (plmn tai : Json) :
    Gives OtherFault (fun o => ∀ l, o = some l → ∀ x ∈ l, x.isObject = true)
      (collectAvailability r plmn tai) := by
  have hnone : Gives OtherFault (fun o => ∀ l, o = some l → ∀ x ∈ l, x.isObject = true)
      (pure none : Run (Option (List Json))) := by
    refine gives_pure ?_
    intro l hl
    cases hl
  refine Gives.bind (gives_allocated _) fun o ho => ?_
  rcases ho with rfl | rfl
  · exact hnone
  refine Gives.bind ((r.gives_memFindForPlmnTai _ _).mono (fun _ _ => trivial)
    fun _ => otherFault_of_outOfBounds) fun o _ => ?_
  cases o with
  | none => exact hnone
  | some records =>
    refine ((makes_addRecords (fun _ h => absurd h List.not_mem_nil) records).gives _).mono
      (fun o ho => ?_) fun _ h => h
    rcases ho with rfl | rfl
    · intro l hl
      cases hl
    · intro l hl
      cases hl
      exact isObject_of_mem_union fun _ h => absurd h List.not_mem_nil

/-- The elements of a query that the selection looks into have members or no children. -/
def QueryShaped (query : Json) : Prop :=
  ∀ variantBody isPdu, pickVariant (query.member? "sliceInfoForRegistration")
      (query.member? "sliceInfoForPDUSession")
      (query.member? "sliceInfoForUEConfigurationUpdate") = some (variantBody, isPdu) →
    (∀ x ∈ subscribedEntries variantBody, x.Lookable) ∧
      (subscribed mainSeams query variantBody ≠ some (.array []) →
        ∀ x ∈ requested variantBody isPdu, x.Lookable)

theorem gives_selectVariant {query variantBody : Json} {isPdu : Bool}
    (hv : variantBody.isObject = true)
    (hentries : ∀ x ∈ subscribedEntries variantBody, x.Lookable)
    (hreqs : subscribed mainSeams query variantBody ≠ some (.array []) →
      ∀ x ∈ requested variantBody isPdu, x.Lookable) (r : AvailabilityRepo) (tai plmn : Json) :
    Gives OtherFault (fun _ => True)
      (selectVariant mainSeams r query variantBody isPdu tai plmn) := by
  let items := (subscribedEntries variantBody).filterMap fun entry =>
    (entry.member? "subscribedSnssai").filter Json.isObject
  have hset : subscribed mainSeams query variantBody = some (.array items) := rfl
  have hitems : ∀ x ∈ items, x.Lookable := by
    intro x hx
    obtain ⟨entry, -, hentry⟩ := List.mem_filterMap.1 hx
    exact Json.lookable_of_isObject (Option.filter_eq_some_iff.1 hentry).2
  have hwanted : items ≠ [] → ∀ x ∈ requested variantBody isPdu, x.Lookable := by
    intro hne
    apply hreqs
    rw [hset]
    intro h
    exact hne (Json.array.inj (Option.some.inj h))
  refine Gives.bind ((makes_collectRequested hv isPdu).gives _) fun o ho => ?_
  rcases ho with rfl | rfl
  · exact gives_pure trivial
  refine Gives.bind ((makes_resolveSubscribed hv (fun _ => hentries) hset).gives _) fun o ho => ?_
  rcases ho with rfl | rfl
  · exact gives_pure trivial
  refine Gives.bind (gives_collectAvailability r plmn tai) fun o ho => ?_
  cases o with
  | none => exact gives_pure trivial
  | some availability =>
    have havail : ∀ x ∈ availability, x.Lookable :=
      fun x hx => Json.lookable_of_isObject (ho availability rfl x hx)
    refine Gives.bind (gives_allocated _) fun a ha => ?_
    refine Gives.bind (gives_allocated _) fun b hb => ?_
    rcases ha with rfl | rfl
    · exact gives_pure trivial
    rcases hb with rfl | rfl
    · exact gives_pure trivial
    refine Gives.bind (gives_classify hitems havail hwanted) fun o _ => ?_
    cases o with
    | none => exact gives_pure trivial
    | some split => exact gives_buildAuthorized _ _ _ _

theorem gives_select {query : Json} (hq : query.isObject = true) (hs : QueryShaped query)
    (r : AvailabilityRepo) :
    Gives OtherFault (fun _ => True) (select mainSeams r (some query)) := by
  have hlook := Json.lookable_of_isObject hq
  unfold select detectVariant
  simp only [Json.getObjectItem_of_lookable hlook, pure_bind]
  cases hvar : pickVariant (query.member? "sliceInfoForRegistration")
      (query.member? "sliceInfoForPDUSession")
      (query.member? "sliceInfoForUEConfigurationUpdate") with
  | none => exact gives_pure trivial
  | some v =>
    obtain ⟨variantBody, isPdu⟩ := v
    obtain ⟨hentries, hreqs⟩ := hs variantBody isPdu hvar
    cases htai : query.member? "tai" with
    | none => exact gives_pure trivial
    | some tai =>
      cases tai with
      | object members =>
        change Gives _ _ (Json.getObjectItem (some (.object members)) "plmnId" >>= _)
        rw [Json.getObjectItem_of_lookable (Json.lookable_object members), pure_bind]
        cases hplmn : (Json.object members).member? "plmnId" with
        | none => exact gives_pure trivial
        | some plmn =>
          cases plmn with
          | object plmnMembers =>
            exact gives_selectVariant (variant_isObject hvar) hentries hreqs r _ _
          | _ => exact gives_pure trivial
      | _ => exact gives_pure trivial

end select

end Nssf
