import Nssf.Availability.Committed
import Nssf.Selection.Outcome
import Nssf.Server.Requests

/-! The status that answers a selection. The handler asks only whether the engine succeeded, so
a selection that refuses everything it was asked for is answered like one that allows it. -/

namespace Nssf

open Base Run NsSelectionQuery

/-- A selection is answered with 200 unless it failed or refused everything, and with an error
of the client if it refused everything. -/
def Selection.StatusLaw (sel : Selection) (status : ℕ) : Prop :=
  (status = 200 ↔ ∃ info result, sel = .selected info result ∧ result ≠ .fullReject) ∧
    ∀ info, sel = .selected info .fullReject → 400 ≤ status ∧ status < 500

/-- Something is requested, and none of it is subscribed, available and permitted at once. -/
def AllRefused (seams : SelectionSeams) (r : AvailabilityRepo) (query : Json) : Prop :=
  ∃ variantBody isPdu tai plmn set, Served seams query variantBody isPdu tai plmn set ∧
    requested variantBody isPdu ≠ [] ∧ ∀ x ∈ requested variantBody isPdu,
      gates seams.plmnPolicyAllowList set (available r plmn tai) x = false

theorem selectResult_fullReject_iff {α : Type} {l : List α} {p : α → Bool} :
    selectResult l.length (l.filter p).length = .fullReject ↔ l ≠ [] ∧ ∀ x ∈ l, p x = false := by
  have hempty : (l.filter p).length = 0 ↔ ∀ x ∈ l, p x = false := by
    rw [List.length_eq_zero_iff, List.filter_eq_nil_iff]
    simp only [Bool.not_eq_true]
  unfold selectResult
  by_cases hl : l = []
  · simp [hl]
  · have hlen : l.length ≠ 0 := fun h => hl (List.length_eq_zero_iff.1 h)
    by_cases hnone : (l.filter p).length = 0
    · have hne : ¬(l.length = 0 ∨ (l.filter p).length = l.length) := by omega
      rw [if_neg hne, if_pos hnone]
      exact iff_of_true rfl ⟨hl, hempty.1 hnone⟩
    · refine iff_of_false ?_ fun h => hnone (hempty.2 h.2)
      rw [if_neg hnone]
      split_ifs with hall
      · intro h
        cases h
      · intro h
        cases h

section handler

variable {validate : BearerValidator} {req : Request} {s : Stores} {seams : SelectionSeams}

theorem gated_of_admitted {scope : String} (h : req.admitted validate scope = true)
    (handle : Run (Response × Stores)) : gated validate req s scope handle = handle := by
  unfold Request.admitted at h
  obtain ⟨hgrant, hlong⟩ := Bool.and_eq_true_iff.1 h
  have hpass : securityGate validate scope req.authorization req.path = pure none := by
    unfold Request.granted at hgrant
    unfold securityGate
    cases hb : req.authorization.bind bearerOf with
    | none =>
      rw [hb] at hgrant
      cases hgrant
    | some bearer =>
      rw [hb] at hgrant
      dsimp only at hgrant ⊢
      cases hv : validate bearer with
      | error err =>
        rw [hv] at hgrant
        cases hgrant
      | ok claim =>
        rw [hv] at hgrant
        dsimp only at hgrant ⊢
        rw [if_pos hgrant]
  have hshort : req.uriTooLong = false := by simpa using hlong
  unfold gated
  rw [hpass, pure_bind]
  dsimp only
  rw [hshort]
  rfl

/-- The member that a pair of the URL brings to the query. -/
def carriedParam (pair : List Char) : Option (String × Json) :=
  match splitPair pair with
  | none => none
  | some (name, value) =>
    (engineKeyFor (String.ofList name)).map fun key =>
      let decoded := String.ofList (Json.cutAtNul (percentDecode value))
      (key, (Json.parseText decoded).getD (.string decoded))

/-- The query that the URL carries. -/
def carriedQuery (raw : Option String) : Json :=
  .object (((raw.getD "").toList.splitOn '&').filterMap carriedParam)

theorem yields_addPairs (pairs : List (List Char)) (ms : List (String × Json)) :
    Yields (addPairs (.object ms) pairs)
      (some (.object (ms ++ pairs.filterMap carriedParam))) := by
  induction pairs generalizing ms with
  | nil =>
    rw [List.filterMap_nil, List.append_nil]
    exact yields_pure _
  | cons pair pairs ih =>
    unfold addPairs
    rw [List.filterMap_cons, carriedParam]
    cases splitPair pair with
    | none => exact ih ms
    | some p =>
      obtain ⟨name, value⟩ := p
      dsimp only
      cases engineKeyFor (String.ofList name) with
      | none => exact ih ms
      | some key =>
        let decoded := String.ofList (Json.cutAtNul (percentDecode value))
        let member := (key, (Json.parseText decoded).getD (.string decoded))
        have hparse : Yields (Json.parse decoded) (Json.parseText decoded) :=
          Yields.bind yields_alloc (yields_pure _)
        have hparam : Yields (addParam (.object ms) key value)
            (some (.object (ms ++ [member]))) := by
          refine Yields.bind (yields_allocated decoded) (Yields.bind hparse ?_)
          dsimp only [member]
          cases Json.parseText decoded with
          | none => exact Yields.bind (Yields.bind yields_alloc (yields_pure _)) (yields_pure _)
          | some parsed =>
            exact Yields.bind (Yields.bind yields_alloc (yields_pure _)) (yields_pure _)
        have hrest := ih (ms ++ [member])
        rw [List.append_assoc] at hrest
        exact Yields.bind hparam hrest

theorem yields_buildEngineQuery (raw : Option String) :
    Yields (buildEngineQuery raw) (some (carriedQuery raw)) :=
  Yields.bind (yields_allocated _) (yields_addPairs _ [])

/-- The text of a failed selection tells its status. -/
theorem answerSelection_failed (req : Request) (s : Stores) (err : String) (e : Env) :
    ∃ answer e', answerSelection req s (.failed err) e = .ok ((answer, s), e') ∧
      answer.status = if isInternalError err then 500 else 404 := by
  have hrefused (cause : ProblemCause) : ∃ answer e',
      refuseWith req s cause (errDetail err) e = .ok ((answer, s), e') ∧
        answer.status = cause.metadata.status := by
    obtain ⟨answer, e', hrun, hstatus, -⟩ := (gives_problem cause (errDetail err) req.path).ok e
    exact ⟨answer, e', Prog.bind_of_ok hrun, hstatus⟩
  by_cases hinternal : isInternalError err = true
  · have heq : answerSelection req s (.failed err) =
        refuseWith req s .internalServerError (errDetail err) := if_pos hinternal
    rw [heq, if_pos hinternal]
    exact hrefused .internalServerError
  · have heq : answerSelection req s (.failed err) =
        refuseWith req s .notFoundNoAvailability (errDetail err) := if_neg hinternal
    rw [heq, if_neg hinternal]
    exact hrefused .notFoundNoAvailability

/-- A failed selection is answered with 404 or 500, any other one with 200. -/
theorem answerSelection_status (req : Request) (s : Stores) {e : Env} (sel : Selection)
    (he : ∀ info result, sel = .selected info result → e.AllocOk) :
    ∃ answer e', answerSelection req s sel e = .ok ((answer, s), e') ∧
      (answer.status = 200 ↔ ∃ info result, sel = .selected info result) := by
  cases sel with
  | failed err =>
    obtain ⟨answer, e', hrun, hstatus⟩ := answerSelection_failed req s err e
    refine ⟨answer, e', hrun, ?_⟩
    rw [hstatus]
    refine iff_of_false ?_ (by simp)
    split_ifs <;> omega
  | selected info result =>
    obtain ⟨e', hprint, -⟩ := yields_allocated (Json.printText info) e (he info result rfl)
    refine ⟨⟨200, some jsonContentType, some (Json.printText info), "", ""⟩, e', ?_, ?_⟩
    · exact Prog.bind_of_ok hprint
    · exact iff_of_true rfl ⟨info, result, rfl⟩

/-- The request is answered as its outcome asks for, unless everything it requests is refused.
The query is the one that the handler builds, and the selection the one it makes. -/
theorem selection_status_iff {e : Env} (he : e.AllocOk)
    (hadm : req.admitted validate scopeNsselection = true) (raw : Option String) :
    ∃ query e₁, buildEngineQuery raw e = .ok (some query, e₁) ∧
      ∀ sel e₂, select seams s.repo (some query) e₁ = .ok (sel, e₂) →
        ∃ answer e', nsselectionGetHandle validate req s seams raw e = .ok ((answer, s), e') ∧
          (sel.StatusLaw answer.status ↔ ¬AllRefused seams s.repo query) := by
  obtain ⟨e₁, hquery, hd⟩ := yields_buildEngineQuery raw e he
  refine ⟨carriedQuery raw, e₁, hquery, fun sel e₂ hsel => ?_⟩
  have hcases := select_ok (hd.allocOk he) rfl hsel
  have he₂ : ∀ info result, sel = .selected info result → e₂.AllocOk := by
    intro info result h
    rcases hcases with ⟨⟨err, herr⟩, -⟩ | ⟨v, p, tai, plmn, set, info, -, -, he₂⟩
    · rw [herr] at h
      cases h
    · exact he₂
  obtain ⟨answer, e', hanswer, hstatus⟩ := answerSelection_status req s sel he₂
  have hrun : nsselectionGetHandle validate req s seams raw e = .ok ((answer, s), e') := by
    unfold nsselectionGetHandle
    rw [gated_of_admitted hadm, Prog.bind_of_ok hquery]
    dsimp only
    rw [Prog.bind_of_ok hsel]
    exact hanswer
  refine ⟨answer, e', hrun, ?_⟩
  unfold Selection.StatusLaw
  rw [hstatus]
  rcases hcases with ⟨⟨err, herr⟩, hno⟩ | ⟨v, p, tai, plmn, set, info, hserved, hout, -⟩
  · refine iff_of_true ?_ fun hall => ?_
    · rw [herr]
      simp
    · obtain ⟨v, p, tai, plmn, set, hserved, -⟩ := hall
      exact hno v p tai plmn set hserved
  · have hall : AllRefused seams s.repo (carriedQuery raw) ↔
        outcome seams s.repo v p tai plmn set = .fullReject := by
      unfold outcome
      rw [selectResult_fullReject_iff]
      constructor
      · intro h
        obtain ⟨v', p', tai', plmn', set', hserved', hreq⟩ := h
        have hv := hserved.variant.symm.trans hserved'.variant
        cases hv
        have ht := hserved.area.symm.trans hserved'.area
        cases ht
        have hpl := hserved.serving.symm.trans hserved'.serving
        cases hpl
        have hset := hserved.source.symm.trans hserved'.source
        cases hset
        exact hreq
      · intro h
        exact ⟨v, p, tai, plmn, set, hserved, h⟩
    rw [hall, hout]
    by_cases hreject : outcome seams s.repo v p tai plmn set = .fullReject
    · refine iff_of_false ?_ fun h => h hreject
      intro h
      have h200 : answer.status = 200 := hstatus.2 ⟨_, _, hout⟩
      rw [hreject] at h
      obtain ⟨_, hlt⟩ := h.2 info rfl
      omega
    · refine iff_of_true ⟨?_, ?_⟩ hreject
      · exact iff_of_true ⟨_, _, rfl⟩ ⟨_, _, rfl, hreject⟩
      · intro info' h
        exact absurd (Selection.selected.inj h).2 hreject

end handler

/-- A registration that requests slice 2 and names no subscribed slice. -/
def refusedQuery : String :=
  "slice-info-for-registration=%7B%22requestedNssai%22:[%7B%22sst%22:2%7D]%7D" ++
    "&tai=%7B%22plmnId%22:%7B%22mcc%22:%22001%22%7D%7D"

def selectionGet : Request :=
  sampleRequest "GET" ("/network-slice-information?" ++ refusedQuery) "" ""

theorem selection_status_iff_refused :
    Env.quiet.AllocOk ∧ selectionGet.admitted openDeps.validate scopeNsselection = true ∧
      ∃ query e₁, buildEngineQuery (some refusedQuery) Env.quiet = .ok (some query, e₁) ∧
        ∀ sel e₂, select {} (Stores.start (notificationDispatcherNew none)).repo (some query) e₁ =
          .ok (sel, e₂) →
            ∃ answer e', nsselectionGetHandle openDeps.validate selectionGet
                (.start (notificationDispatcherNew none)) {} (some refusedQuery) Env.quiet =
                  .ok ((answer, .start (notificationDispatcherNew none)), e') ∧
              (sel.StatusLaw answer.status ↔
                ¬AllRefused {} (Stores.start (notificationDispatcherNew none)).repo query) := by
  have hadm : selectionGet.admitted openDeps.validate scopeNsselection = true := by
    decide
  exact ⟨Env.allocOk_quiet, hadm, selection_status_iff Env.allocOk_quiet hadm _⟩

/-- The answer to that request over an empty repository is 200, and its one slice is rejected. -/
theorem refused_selection_answered_ok :
    ¬∀ query e₁ sel e₂ answer s e',
      buildEngineQuery (some refusedQuery) Env.quiet = .ok (some query, e₁) →
      select {} (Stores.start (notificationDispatcherNew none)).repo (some query) e₁ =
        .ok (sel, e₂) →
      nsselectionGetHandle openDeps.validate selectionGet
        (.start (notificationDispatcherNew none)) {} (some refusedQuery) Env.quiet =
          .ok ((answer, s), e') →
      sel.StatusLaw answer.status := by
  intro hall
  have hselect : (Prog.result? (buildEngineQuery (some refusedQuery) >>= select {} ⟨[]⟩)
      Env.quiet).map (fun sel => decide (∃ info ∈ [Json.object [("rejectedNssaiInTa",
        .array [sampleSnssai 2])]], sel = .selected info .fullReject)) = some true := by
    decide +kernel
  have hstatus : (Prog.result? (nsselectionGetHandle openDeps.validate selectionGet
      (.start (notificationDispatcherNew none)) {} (some refusedQuery)) Env.quiet).map
        (fun r => r.1.status) = some 200 := by
    decide +kernel
  obtain ⟨sel, hsel, hreject⟩ := Option.map_eq_some_iff.1 hselect
  obtain ⟨info, -, rfl⟩ := of_decide_eq_true hreject
  obtain ⟨e₂, hrun⟩ := Prog.exists_of_result? hsel
  obtain ⟨query, e₁, hquery, hrun⟩ := Prog.bind_eq_ok.1 hrun
  obtain ⟨⟨answer, s⟩, hanswer, h200⟩ := Option.map_eq_some_iff.1 hstatus
  obtain ⟨e', hget⟩ := Prog.exists_of_result? hanswer
  cases query with
  | none => cases hrun
  | some query =>
    have hlaw := hall query e₁ _ e₂ answer s e' hquery hrun hget
    obtain ⟨hle, -⟩ := hlaw.2 info rfl
    have h : answer.status = 200 := h200
    omega

end Nssf
