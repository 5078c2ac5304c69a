import Nssf.Server.Outcome

/-! Which side a failed selection is blamed on. The engine fails with a text, and the handler
looks for two words in it: each text is tied here to the step that writes it. -/

namespace Nssf

open Base Run NsSelectionQuery

/-- The request brought the failure about: nothing can be selected for what was read of it, nor
for what it carries. -/
def RequestAtFault (raw : Option String) (query : Json) : Prop :=
  ¬WellAsked query ∧ ¬WellAsked (carriedQuery raw)

/-- An error of the server answers a failure that the request did not bring about, and 404 one
that it did. -/
def BlamesRightly (status : ℕ) (raw : Option String) (query : Json) : Prop :=
  ((500 ≤ status ∧ status < 600) ↔ ¬RequestAtFault raw query) ∧
    (status = 404 ↔ RequestAtFault raw query)

/-- Once it has what is requested, the selection gets the subscribed slices and the records of
the tracking area. -/
def ReadsAnswer (seams : SelectionSeams) (r : AvailabilityRepo) (query variantBody : Json)
    (isPdu : Bool) (tai plmn : Json) (e : Env) : Prop :=
  ∀ requests e₁, collectRequested variantBody isPdu e = .ok (some requests, e₁) →
    ∃ set e₂ slices e₃, resolveSubscribed seams query variantBody e₁ = .ok (some set, e₂) ∧
      collectAvailability r plmn tai e₂ = .ok (some slices, e₃)

section texts

theorem isInternalError_asked : ∀ err ∈ askedErrors, isInternalError err = false := by
  decide

/-- The texts that name an allocation. -/
def oomErrors : List String :=
  ["selection_engine: OOM collecting requested NSSAI",
    "selection_engine: OOM building result",
    "selection_engine: OOM classifying NSSAI",
    "selection_engine: OOM building AuthorizedNetworkSliceInfo",
    "selection_engine: OOM building allowedNssai",
    "selection_engine: OOM building allowedNssaiList"]

theorem isInternalError_oom : ∀ err ∈ oomErrors, isInternalError err = true := by
  decide

/-- Neither text of a failed read has one of the words. -/
theorem isInternalError_reads : ∀ err ∈ ["selection_engine: subscribed-NSSAI seam failure",
    "selection_engine: availability read failed"], isInternalError err = false := by
  decide

end texts

section engine

variable {seams : SelectionSeams} {query : Json} {err : String} {e e' : Env}

theorem addAllowed_error {authorized : Json} {allowed : List Json}
    (h : addAllowed authorized allowed e = .ok (.error err, e')) : err ∈ oomErrors := by
  unfold addAllowed at h
  split_ifs at h with hempty
  · cases h
  · obtain ⟨o, e₁, -, h⟩ := Prog.bind_eq_ok.1 h
    cases o with
    | none =>
      cases h
      simp [oomErrors]
    | some list =>
      obtain ⟨list, e₂, -, h⟩ := Prog.bind_eq_ok.1 h
      obtain ⟨list, e₃, -, h⟩ := Prog.bind_eq_ok.1 h
      obtain ⟨o, e₄, -, h⟩ := Prog.bind_eq_ok.1 h
      cases o with
      | none =>
        cases h
        simp [oomErrors]
      | some groups =>
        obtain ⟨info, e₅, -, h⟩ := Prog.bind_eq_ok.1 h
        cases h

theorem buildAuthorized_failed {count : ℕ} {allowed rejected : List Json}
    (h : buildAuthorized seams query count allowed rejected e = .ok (.failed err, e')) :
    err ∈ oomErrors := by
  obtain ⟨o, e₁, -, h⟩ := Prog.bind_eq_ok.1 h
  cases o with
  | none =>
    cases h
    simp [oomErrors]
  | some authorized =>
    obtain ⟨added, e₂, hadded, h⟩ := Prog.bind_eq_ok.1 h
    cases added with
    | error text =>
      cases h
      exact addAllowed_error hadded
    | ok authorized =>
      obtain ⟨info, e₃, -, h⟩ := Prog.bind_eq_ok.1 h
      obtain ⟨info, e₄, -, h⟩ := Prog.bind_eq_ok.1 h
      cases h

theorem selectFrom_failed {requests slices : List Json} {set : Json}
    (h : selectFrom seams query requests set slices e = .ok (.failed err, e')) :
    err ∈ oomErrors := by
  obtain ⟨allowed, e₁, -, h⟩ := Prog.bind_eq_ok.1 h
  obtain ⟨rejected, e₂, -, h⟩ := Prog.bind_eq_ok.1 h
  cases allowed with
  | none =>
    cases h
    simp [oomErrors]
  | some allowed =>
    cases rejected with
    | none =>
      cases h
      simp [oomErrors]
    | some rejected =>
      obtain ⟨split, e₃, -, h⟩ := Prog.bind_eq_ok.1 h
      cases split with
      | none =>
        cases h
        simp [oomErrors]
      | some split => exact buildAuthorized_failed h

/-- A failure behind the checks is one of an allocation just when the reads went through. -/
theorem selectVariant_failed {r : AvailabilityRepo} {variantBody tai plmn : Json} {isPdu : Bool}
    (h : selectVariant seams r query variantBody isPdu tai plmn e = .ok (.failed err, e')) :
    isInternalError err = true ↔ ReadsAnswer seams r query variantBody isPdu tai plmn e := by
  obtain ⟨requests, e₁, hrequests, h⟩ := Prog.bind_eq_ok.1 h
  cases requests with
  | none =>
    cases h
    refine iff_of_true (isInternalError_oom _ List.mem_cons_self) ?_
    intro requests e₂ hsome
    rw [hrequests] at hsome
    cases hsome
  | some requests =>
    obtain ⟨set, e₂, hset, h⟩ := Prog.bind_eq_ok.1 h
    have hnot {err : String} (hmem : err ∈ ["selection_engine: subscribed-NSSAI seam failure",
          "selection_engine: availability read failed"])
        (hno : ¬ReadsAnswer seams r query variantBody isPdu tai plmn e) :
        isInternalError err = true ↔ ReadsAnswer seams r query variantBody isPdu tai plmn e := by
      refine iff_of_false ?_ hno
      rw [isInternalError_reads err hmem]
      exact Bool.false_ne_true
    cases set with
    | none =>
      cases h
      refine hnot List.mem_cons_self fun hreads => ?_
      obtain ⟨set, e₃, slices, e₄, hset', -⟩ := hreads requests e₁ hrequests
      rw [hset] at hset'
      cases hset'
    | some set =>
      obtain ⟨slices, e₃, hslices, h⟩ := Prog.bind_eq_ok.1 h
      cases slices with
      | none =>
        cases h
        refine hnot (List.mem_cons_of_mem _ List.mem_cons_self) fun hreads => ?_
        obtain ⟨set', e₄, slices, e₅, hset', hslices'⟩ := hreads requests e₁ hrequests
        rw [hset] at hset'
        cases hset'
        rw [hslices] at hslices'
        cases hslices'
      | some slices =>
        refine iff_of_true (isInternalError_oom _ (selectFrom_failed h)) ?_
        intro requests' e₄ hsome
        rw [hrequests] at hsome
        cases hsome
        exact ⟨set, e₂, slices, e₃, hset, hslices⟩

end engine

section handler

variable {validate : BearerValidator} {req : Request} {s : Stores} {seams : SelectionSeams}

/-- A failed selection is blamed on the right side just when the engine could read what it needs
to serve the query, and the query lost nothing that it needs of what the request carries. -/
theorem failed_selection_blame_iff (hadm : req.admitted validate scopeNsselection = true)
    {raw : Option String} {query : Json} {err : String} {e e₁ e₂ : Env}
    (hquery : buildEngineQuery raw e = .ok (some query, e₁))
    (hsel : select seams s.repo (some query) e₁ = .ok (.failed err, e₂)) :
    ∃ answer e', nsselectionGetHandle validate req s seams raw e = .ok ((answer, s), e') ∧
      (BlamesRightly answer.status raw query ↔
        (∀ variantBody isPdu tai plmn, Asked query variantBody isPdu tai plmn →
          ReadsAnswer seams s.repo query variantBody isPdu tai plmn e₁) ∧
        (WellAsked (carriedQuery raw) → WellAsked query)) := by
  obtain ⟨answer, e', hanswer, hstatus⟩ := answerSelection_failed req s err e₂
  have hrun : nsselectionGetHandle validate req s seams raw e = .ok ((answer, s), e') := by
    unfold nsselectionGetHandle
    rw [gated_of_admitted hadm, Prog.bind_of_ok hquery]
    dsimp only
    rw [Prog.bind_of_ok hsel]
    exact hanswer
  refine ⟨answer, e', hrun, ?_⟩
  have hobject : query.isObject = true :=
    ((gives_buildEngineQuery (F := fun _ => True) raw).of_ok hquery).1 query rfl
  unfold BlamesRightly RequestAtFault
  rw [hstatus]
  rcases select_cases seams s.repo hobject with
    ⟨hno, text, htext, heq⟩ | ⟨v, p, tai, plmn, hasked, heq⟩
  · rw [heq] at hsel
    cases hsel
    rw [isInternalError_asked _ htext]
    have hvacuous : ∀ variantBody isPdu tai plmn, Asked query variantBody isPdu tai plmn →
        ReadsAnswer seams s.repo query variantBody isPdu tai plmn e₁ :=
      fun v p tai plmn hasked => absurd ⟨v, p, tai, plmn, hasked⟩ hno
    by_cases hcarried : WellAsked (carriedQuery raw)
    · refine iff_of_false ?_ ?_
      · intro h
        have hfault := h.2.1 (by simp)
        exact hfault.2 hcarried
      · intro h
        exact hno (h.2 hcarried)
    · refine iff_of_true ?_ ⟨hvacuous, fun h => absurd h hcarried⟩
      simp [hno, hcarried]
  · have hwell : WellAsked query := ⟨v, p, tai, plmn, hasked⟩
    rw [heq] at hsel
    have hreads := selectVariant_failed hsel
    have hall : (∀ variantBody isPdu tai plmn, Asked query variantBody isPdu tai plmn →
        ReadsAnswer seams s.repo query variantBody isPdu tai plmn e₁) ↔
        ReadsAnswer seams s.repo query v p tai plmn e₁ := by
      constructor
      · intro h
        exact h v p tai plmn hasked
      · intro h v' p' tai' plmn' hasked'
        have hv := hasked.variant.symm.trans hasked'.variant
        cases hv
        have ht := hasked.area.symm.trans hasked'.area
        cases ht
        have hp := hasked.serving.symm.trans hasked'.serving
        cases hp
        exact h
    rw [hall, ← hreads]
    cases hinternal : isInternalError err with
    | true => simp [hwell]
    | false => simp [hwell]

end handler

/-- The URL of `refusedQuery` as the engine gets it. -/
def refusedAsked : Json :=
  .object [("sliceInfoForRegistration",
      .object [("requestedNssai", .array [sampleSnssai 2])]),
    ("tai", .object [("plmnId", .object [("mcc", .string "001")])])]

theorem carriedQuery_refused : carriedQuery (some refusedQuery) = refusedAsked := by
  decide +kernel

theorem asked_refused : WellAsked refusedAsked :=
  ⟨_, _, _, _, rfl, rfl, rfl, rfl, rfl⟩

/-- A lookup of subscribed slices that always fails. -/
def failingSeams : SelectionSeams := { subscribedNssai := some fun _ => none }

def freshStores : Stores := .start (notificationDispatcherNew none)

theorem failed_selection_blame_iff_unasked : ∃ answer e',
    nsselectionGetHandle openDeps.validate selectionGet freshStores {} none Env.quiet =
        .ok ((answer, freshStores), e') ∧
      BlamesRightly answer.status none (carriedQuery none) := by
  have hadm : selectionGet.admitted openDeps.validate scopeNsselection = true := by
    decide
  have hcarried : carriedQuery none = .object [] := by
    decide
  have hno : ¬WellAsked (carriedQuery none) := by
    rw [hcarried]
    intro h
    obtain ⟨v, p, tai, plmn, h⟩ := h
    cases h.area
  obtain ⟨e₁, hquery, -⟩ := yields_buildEngineQuery none Env.quiet Env.allocOk_quiet
  have hobject : (carriedQuery none).isObject = true := rfl
  rcases select_cases {} freshStores.repo hobject with
    ⟨-, err, -, hsel⟩ | ⟨v, p, tai, plmn, hasked, -⟩
  · have hfailed : select {} freshStores.repo (some (carriedQuery none)) e₁ =
        .ok (.failed err, e₁) := by
      rw [hsel]
      rfl
    obtain ⟨answer, e', hrun, hblame⟩ := failed_selection_blame_iff hadm hquery hfailed
    refine ⟨answer, e', hrun, hblame.2 ⟨?_, fun h => h⟩⟩
    intro v p tai plmn hasked
    exact absurd ⟨v, p, tai, plmn, hasked⟩ hno
  · exact absurd ⟨v, p, tai, plmn, hasked⟩ hno

/-- The failing lookup is answered with 404, though the request asks for all it has to. -/
theorem failed_lookup_blamed_on_request :
    ¬∀ query e₁ err e₂ answer s e',
      buildEngineQuery (some refusedQuery) Env.quiet = .ok (some query, e₁) →
      select failingSeams freshStores.repo (some query) e₁ = .ok (.failed err, e₂) →
      nsselectionGetHandle openDeps.validate selectionGet freshStores failingSeams
        (some refusedQuery) Env.quiet = .ok ((answer, s), e') →
      BlamesRightly answer.status (some refusedQuery) query := by
  intro hall
  obtain ⟨e₁, hquery, hd⟩ :=
    yields_buildEngineQuery (some refusedQuery) Env.quiet Env.allocOk_quiet
  have hselect : (Prog.result? (buildEngineQuery (some refusedQuery) >>= fun query =>
      select failingSeams freshStores.repo query) Env.quiet) =
        some (.failed "selection_engine: subscribed-NSSAI seam failure") := by
    decide +kernel
  obtain ⟨e₂, hrun⟩ := Prog.exists_of_result? hselect
  rw [Prog.bind_of_ok hquery] at hrun
  have hstatus : (Prog.result? (nsselectionGetHandle openDeps.validate selectionGet freshStores
      failingSeams (some refusedQuery)) Env.quiet).map (fun r => r.1.status) = some 404 := by
    decide +kernel
  obtain ⟨⟨answer, s⟩, hanswer, h404⟩ := Option.map_eq_some_iff.1 hstatus
  obtain ⟨e', hget⟩ := Prog.exists_of_result? hanswer
  have hfault := (hall _ e₁ _ e₂ answer s e' hquery hrun hget).2.1 h404
  have hasked : WellAsked (carriedQuery (some refusedQuery)) := by
    rw [carriedQuery_refused]
    exact asked_refused
  exact hfault.2 hasked

end Nssf
