import Mathlib.Data.List.Induction
import Nssf.Availability.Committed
import Nssf.Base.Transition
import Nssf.Selection.Allowed

/-! Availability from end to end: what the NFs last declared, against what a selection allows
in a tracking area. Each NF stands for the body of its last replace; the repository keeps one
record for it, under the tracking area of the first entry of that body. -/

namespace Nssf

open Base Run NssaiAvailabilityInfo NsSelectionQuery

/-- The bodies that the NFs last declared and did not delete. -/
abbrev Declared := String → Option Json

inductive Declaration where
  | replace (nfId : String) (info : Json)
  | delete (nfId : String)

namespace Declaration

variable {τ : Type}

def apply (d : Declared) : Declaration → Declared
  | .replace nfId info => Function.update d nfId (some info)
  | .delete nfId => Function.update d nfId none

def after (ds : List Declaration) : Declared := ds.foldl apply fun _ => none

def call (wanted : Bool) : Declaration → EngineCall
  | .replace nfId info => .replace (some nfId) (some info) wanted
  | .delete nfId => .delete (some nfId)

/-- A call of the engine that was answered with success. -/
def Succeeds (seam : PublishSeam τ) (s : AvailabilityRepo × τ) (d : Declaration)
    (s' : AvailabilityRepo × τ) : Prop :=
  ∃ (wanted : Bool) (e e' : Env) (reply : AvailabilityReply),
    (d.call wanted).run seam s.1 s.2 e = .ok ((reply, s'), e') ∧ reply.result.committed = true

end Declaration

/-- Two tracking areas are the same for the repository. -/
def sameArea (t t' : Json) : Bool :=
  Json.sameText (t.member? "plmnId") (t'.member? "plmnId") && Json.sameText (some t) (some t')

/-- The body lists the slice in an entry for the tracking area. -/
def Supports (info tai req : Json) : Prop :=
  ∃ entry ∈ entries info, ∃ t, tai? entry = some t ∧ sameArea t tai = true ∧
    ∃ s ∈ listed entry, sameSnssai s req = true

/-- Each entry names a tracking area with a PLMN. -/
def Located (info : Json) : Prop :=
  ∀ entry ∈ entries info, ∃ t plmn, tai? entry = some t ∧ t.member? "plmnId" = some plmn ∧
    plmn.isObject = true

/-- No entry lists a slice for another tracking area than the first entry has. -/
def OneArea (info : Json) : Prop :=
  ∀ entry ∈ entries info, ∀ s ∈ listed entry, (snssaiKey s).isSome = true →
    ∀ t first, tai? entry = some t → firstTai? info = some first → sameArea t first = true

/-- The record that stands for a declared body. -/
def Stands (nfId : String) : Option Json → Option AvailabilityRecord → Prop
  | none, row => row = none
  | some info, row => ∃ tai plmnId, firstTai? info = some tai ∧
      tai.member? "plmnId" = some plmnId ∧ row = some (replacementRecord nfId plmnId tai
        (slices info) (info.member? "amfSetReallocationInd"))

/-- The repository holds the declared bodies, one record for each. -/
structure Refines (r : AvailabilityRepo) (d : Declared) : Prop where
  keyed : r.Keyed
  rows : ∀ nfId, Stands nfId (d nfId) (r.row? nfId)

section refinement

variable {τ : Type} {seam : PublishSeam τ} {r : AvailabilityRepo} {d : Declared}

theorem refines_newInmemory : Refines .newInmemory fun _ => none where
  keyed := List.nodup_nil
  rows := fun _ => rfl

theorem Refines.succeeds {t : τ} {s' : AvailabilityRepo × τ} {x : Declaration}
    (h : Refines r d) (hs : x.Succeeds seam (r, t) s') : Refines s'.1 (x.apply d) := by
  obtain ⟨wanted, e, e', reply, hrun, hc⟩ := hs
  obtain ⟨r', t'⟩ := s'
  cases x with
  | replace nfId info =>
    change availabilityReplace seam r t (some nfId) (some info) wanted e = _ at hrun
    rcases replace_cases hrun with ⟨hn, -, -⟩ | ⟨nf, body, tai, plmnId, before, hcases⟩
    · rw [hn] at hc
      cases hc
    obtain ⟨hnf, hbody, hvalid, htai, hplmn, rfl, -, -⟩ := hcases
    cases hnf
    cases hbody
    refine ⟨h.keyed.put _, ?_⟩
    intro m
    change Stands m (Function.update d nfId (some info) m) _
    rw [AvailabilityRepo.row?_put, replacementRecord_id hvalid]
    by_cases hm : m = nfId
    · subst hm
      rw [Function.update_self, if_pos rfl]
      exact ⟨tai, plmnId, htai, hplmn, rfl⟩
    · rw [Function.update_of_ne hm, if_neg hm]
      exact h.rows m
  | delete nfId =>
    change availabilityDelete seam r t (some nfId) e = _ at hrun
    rcases delete_cases h.keyed hrun with ⟨hn, -, -⟩ | ⟨nf, y, hnf, -, hk, hrows, -⟩
    · rw [hn] at hc
      cases hc
    cases hnf
    refine ⟨hk, ?_⟩
    intro m
    change Stands m (Function.update d nfId none m) _
    rw [hrows]
    by_cases hm : m = nfId
    · subst hm
      rw [Function.update_self, if_pos rfl]
      rfl
    · rw [Function.update_of_ne hm, if_neg hm]
      exact h.rows m

theorem refines_after {t₀ : τ} {ds : List Declaration} {s : AvailabilityRepo × τ}
    (h : Trace (Declaration.Succeeds seam) (.newInmemory, t₀) ds s) :
    Refines s.1 (Declaration.after ds) := by
  induction h with
  | nil => exact refines_newInmemory
  | snoc _ hstep ih =>
    unfold Declaration.after
    rw [List.foldl_append]
    exact ih.succeeds hstep

end refinement

section supports

variable {info tai req : Json}

theorem isObject_of_sameSnssai {s : Json} (h : sameSnssai s req = true) : s.isObject = true := by
  obtain ⟨k, hk, -⟩ := sameSnssai_iff.1 h
  by_contra hn
  have hnone : snssaiKey s = none := by
    unfold snssaiKey
    rw [member?_of_not_isObject hn]
  rw [hnone] at hk
  cases hk

theorem any_slices_iff : (slices info).any (sameSnssai · req) = true ↔
    ∃ entry ∈ entries info, ∃ s ∈ listed entry, sameSnssai s req = true := by
  unfold slices
  rw [any_unionSnssais]
  constructor
  · intro h
    rcases h with h | ⟨s, hs, -, hsame⟩
    · cases h
    · obtain ⟨entry, hentry, hs⟩ := List.mem_flatMap.1 hs
      exact ⟨entry, hentry, s, hs, hsame⟩
  · intro h
    obtain ⟨entry, hentry, s, hs, hsame⟩ := h
    exact Or.inr ⟨s, List.mem_flatMap.2 ⟨entry, hentry, hs⟩, isObject_of_sameSnssai hsame, hsame⟩

theorem sameArea_comm (t t' : Json) : sameArea t t' = sameArea t' t := by
  unfold sameArea
  rw [Json.sameText_comm, Json.sameText_comm (some t)]

theorem sameArea_trans {t t' t'' : Json} (h : sameArea t t' = true)
    (h' : sameArea t' t'' = true) : sameArea t t'' = true := by
  unfold sameArea at h h' ⊢
  rw [Bool.and_eq_true] at h h' ⊢
  exact ⟨Json.sameText_trans h.1 h'.1, Json.sameText_trans h.2 h'.2⟩

/-- Flattening a body loses nothing when it speaks of one tracking area. -/
theorem supports_iff (hloc : Located info) (hone : OneArea info) {first : Json}
    (hfirst : firstTai? info = some first) :
    Supports info tai req ↔
      sameArea first tai = true ∧ (slices info).any (sameSnssai · req) = true := by
  rw [any_slices_iff]
  constructor
  · intro h
    obtain ⟨entry, hentry, t, ht, harea, s, hs, hsame⟩ := h
    obtain ⟨k, hk, -⟩ := sameSnssai_iff.1 hsame
    have hkey : (snssaiKey s).isSome = true := by rw [hk]; rfl
    have hst := hone entry hentry s hs hkey t first ht hfirst
    rw [sameArea_comm] at hst
    exact ⟨sameArea_trans hst harea, entry, hentry, s, hs, hsame⟩
  · intro h
    obtain ⟨harea, entry, hentry, s, hs, hsame⟩ := h
    obtain ⟨t, plmn, ht, -, -⟩ := hloc entry hentry
    obtain ⟨k, hk, -⟩ := sameSnssai_iff.1 hsame
    have hkey : (snssaiKey s).isSome = true := by rw [hk]; rfl
    have hst := hone entry hentry s hs hkey t first ht hfirst
    exact ⟨entry, hentry, t, ht, sameArea_trans hst harea, s, hs, hsame⟩

/-- What is available in a tracking area is what the declared bodies list for it. -/
theorem Refines.any_available_iff {r : AvailabilityRepo} {d : Declared} (h : Refines r d)
    (hloc : ∀ nf info, d nf = some info → Located info)
    (hone : ∀ nf info, d nf = some info → OneArea info) {plmn : Json}
    (hplmn : tai.member? "plmnId" = some plmn) (req : Json) :
    (available r plmn tai).any (sameSnssai · req) = true ↔
      ∃ nf info, d nf = some info ∧ Supports info tai req := by
  unfold available
  rw [any_unionSnssais]
  constructor
  · intro hany
    rcases hany with hany | ⟨s, hs, -, hsame⟩
    · cases hany
    obtain ⟨x, hx, hsx⟩ := List.mem_flatMap.1 hs
    obtain ⟨hmem, hat⟩ := List.mem_filter.1 hx
    have hrow := (AvailabilityRepo.mem_items_iff h.keyed).1 hmem
    have hstands := h.rows x.id
    rw [hrow] at hstands
    cases hd : d x.id with
    | none =>
      rw [hd] at hstands
      cases hstands
    | some info =>
      rw [hd] at hstands
      obtain ⟨first, plmnId, hfirst, hfp, hrec⟩ := hstands
      refine ⟨x.id, info, hd, ?_⟩
      rw [supports_iff (hloc _ _ hd) (hone _ _ hd) hfirst]
      have hxrec := Option.some.inj hrec
      unfold AvailabilityRepo.At at hat
      rw [hxrec, Bool.and_eq_true] at hat
      rw [hxrec] at hsx
      refine ⟨?_, List.any_eq_true.2 ⟨s, hsx, hsame⟩⟩
      unfold sameArea
      rw [hfp, hplmn, Bool.and_eq_true]
      exact hat
  · intro hex
    obtain ⟨nf, info, hd, hsup⟩ := hex
    have hstands := h.rows nf
    rw [hd] at hstands
    obtain ⟨first, plmnId, hfirst, hfp, hrec⟩ := hstands
    rw [supports_iff (hloc _ _ hd) (hone _ _ hd) hfirst] at hsup
    obtain ⟨harea, hslices⟩ := hsup
    obtain ⟨s, hs, hsame⟩ := List.any_eq_true.1 hslices
    refine Or.inr ⟨s, ?_, isObject_of_sameSnssai hsame, hsame⟩
    refine List.mem_flatMap.2 ⟨_, List.mem_filter.2 ⟨List.mem_of_find?_eq_some hrec, ?_⟩, hs⟩
    unfold sameArea at harea
    rw [hfp, hplmn] at harea
    exact harea

theorem replace_mem_of_after {ds : List Declaration} {nf : String}
    (h : Declaration.after ds nf = some info) : Declaration.replace nf info ∈ ds := by
  induction ds using List.reverseRecOn with
  | nil => cases h
  | append_singleton ds x ih =>
    unfold Declaration.after at ih h
    rw [List.foldl_append] at h
    cases x with
    | replace nfId body =>
      change Function.update (ds.foldl Declaration.apply fun _ => none) nfId (some body) nf =
        some info at h
      by_cases hnf : nf = nfId
      · subst hnf
        rw [Function.update_self] at h
        cases h
        exact List.mem_append_right ds List.mem_cons_self
      · rw [Function.update_of_ne hnf] at h
        exact List.mem_append_left _ (ih h)
    | delete nfId =>
      change Function.update (ds.foldl Declaration.apply fun _ => none) nfId none nf =
        some info at h
      by_cases hnf : nf = nfId
      · subst hnf
        rw [Function.update_self] at h
        cases h
      · rw [Function.update_of_ne hnf] at h
        exact List.mem_append_left _ (ih h)

end supports

/-- After any successful replaces and deletes whose bodies each speak of one tracking area, a
selection allows a slice exactly where some NF supports it. -/
theorem selected_iff_supported {τ : Type} {seam : PublishSeam τ} {t₀ t : τ}
    {ds : List Declaration} {r : AvailabilityRepo}
    (hrun : Trace (Declaration.Succeeds seam) (.newInmemory, t₀) ds (r, t))
    (hloc : ∀ nf info, .replace nf info ∈ ds → Located info)
    (hone : ∀ nf info, .replace nf info ∈ ds → OneArea info)
    {seams : SelectionSeams} {query variantBody tai plmn set : Json} {isPdu : Bool}
    (hq : Served seams query variantBody isPdu tai plmn set)
    (hl : Lookable seams variantBody isPdu set) {e : Env} (ha : e.AllocOk) :
    ∃ info result e', select seams r (some query) e = .ok (.selected info result, e') ∧
      ∀ req ∈ requested variantBody isPdu, snssaiIn (some set) req = true →
        permits seams.plmnPolicyAllowList req = true →
        (req ∈ allowedSnssais info ↔
          ∃ nf body, Declaration.after ds nf = some body ∧ Supports body tai req) := by
  have href := refines_after hrun
  obtain ⟨info, result, hselect, hallowed⟩ := yields_select hq hl r
  obtain ⟨e', hok, -⟩ := hselect e ha
  refine ⟨info, result, e', hok, ?_⟩
  intro req hreq hsub hpol
  have hloc' : ∀ nf body, Declaration.after ds nf = some body → Located body :=
    fun nf body h => hloc nf body (replace_mem_of_after h)
  have hone' : ∀ nf body, Declaration.after ds nf = some body → OneArea body :=
    fun nf body h => hone nf body (replace_mem_of_after h)
  have havail := href.any_available_iff hloc' hone' hq.serving req
  rw [hallowed, List.mem_filter, ← havail]
  unfold gates
  rw [hsub, hpol, Bool.true_and, Bool.and_true]
  exact and_iff_right hreq

section sample

def sampleQuery (tac : String) (sst : ℕ) : Json :=
  .object [("sliceInfoForRegistration", .object [("requestedNssai", .array [sampleSnssai sst]),
    ("subscribedNssai", .array [.object [("subscribedSnssai", sampleSnssai sst)]])]),
    ("tai", sampleTai tac)]

def sampleVariant (sst : ℕ) : Json :=
  .object [("requestedNssai", .array [sampleSnssai sst]),
    ("subscribedNssai", .array [.object [("subscribedSnssai", sampleSnssai sst)]])]

theorem sampleQuery_served (tac : String) (sst : ℕ) :
    Served {} (sampleQuery tac sst) (sampleVariant sst) false (sampleTai tac)
      (.object [("mcc", .string "001"), ("mnc", .string "01")]) (.array [sampleSnssai sst]) where
  object := rfl
  variant := rfl
  area := rfl
  areaObject := rfl
  serving := rfl
  servingObject := rfl
  source := rfl

theorem sampleQuery_lookable (sst : ℕ) :
    Lookable {} (sampleVariant sst) false (.array [sampleSnssai sst]) where
  wanted := by
    intro x hx
    rw [List.mem_singleton.1 hx]
    trivial
  entries := by
    intro _ x hx
    rw [List.mem_singleton.1 hx]
    trivial
  source := by
    intro items h x hx
    cases h
    rw [List.mem_singleton.1 hx]
    trivial
  policy := by
    intro items h
    cases h

theorem located_sampleInfo (es : List (String × ℕ)) :
    Located (sampleInfo (es.map fun p => sampleEntry p.1 p.2)) := by
  intro entry hentry
  obtain ⟨p, -, rfl⟩ := List.mem_map.1 hentry
  exact ⟨sampleTai p.1, .object [("mcc", .string "001"), ("mnc", .string "01")], rfl, rfl, rfl⟩

def sampleRow (info : Json) : AvailabilityRecord :=
  replacementRecord "nf-1" (.object [("mcc", .string "001"), ("mnc", .string "01")])
    (sampleTai "000001") (slices info) none

def oneAreaInfo : Json := sampleInfo [sampleEntry "000001" 1]

def twoAreaInfo : Json := sampleInfo [sampleEntry "000001" 1, sampleEntry "000002" 2]

theorem sample_trace (info : Json)
    (h : (availabilityReplace (none : PublishSeam Unit) .newInmemory () (some "nf-1") (some info)
      false).result? .quiet = some (⟨.ok, none, ""⟩, ⟨[sampleRow info]⟩, ())) :
    Trace (Declaration.Succeeds (none : PublishSeam Unit)) (.newInmemory, ())
      [.replace "nf-1" info] (⟨[sampleRow info]⟩, ()) := by
  obtain ⟨e', hrun⟩ := Prog.exists_of_result? h
  exact Trace.snoc (Trace.nil _) ⟨false, .quiet, e', _, hrun, rfl⟩

theorem selected_iff_supported_oneArea :
    ∃ info result e', select {} ⟨[sampleRow oneAreaInfo]⟩ (some (sampleQuery "000001" 1)) .quiet =
        .ok (.selected info result, e') ∧ sampleSnssai 1 ∈ allowedSnssais info := by
  have htrace := sample_trace oneAreaInfo (by decide +kernel)
  have hloc : ∀ nf info, Declaration.replace nf info ∈
      [Declaration.replace "nf-1" oneAreaInfo] → Located info := by
    intro nf info hmem
    cases List.mem_singleton.1 hmem
    exact located_sampleInfo [("000001", 1)]
  have hone : ∀ nf info, Declaration.replace nf info ∈
      [Declaration.replace "nf-1" oneAreaInfo] → OneArea info := by
    intro nf info hmem
    cases List.mem_singleton.1 hmem
    intro entry hentry s hs hkey t first ht hfirst
    rw [List.mem_singleton.1 hentry] at ht
    cases ht
    cases hfirst
    decide
  obtain ⟨info, result, e', hsel, hiff⟩ := selected_iff_supported htrace hloc hone
    (sampleQuery_served "000001" 1) (sampleQuery_lookable 1) Env.allocOk_quiet
  refine ⟨info, result, e', hsel, ?_⟩
  apply (hiff (sampleSnssai 1) List.mem_cons_self (by decide +kernel) rfl).2
  refine ⟨"nf-1", oneAreaInfo, rfl, sampleEntry "000001" 1, List.mem_cons_self,
    sampleTai "000001", rfl, by decide, sampleSnssai 1, List.mem_cons_self, ?_⟩
  decide +kernel

/-- A slice listed only for the second tracking area of a body is allowed in the first. -/
theorem selected_iff_supported_not : ¬∀ (ds : List Declaration) (r : AvailabilityRepo)
    (seams : SelectionSeams) (query variantBody tai plmn set : Json) (isPdu : Bool) (e : Env),
    Trace (Declaration.Succeeds (none : PublishSeam Unit)) (.newInmemory, ()) ds (r, ()) →
    (∀ nf info, .replace nf info ∈ ds → Located info) →
    Served seams query variantBody isPdu tai plmn set →
    Lookable seams variantBody isPdu set → e.AllocOk →
    ∃ info result e', select seams r (some query) e = .ok (.selected info result, e') ∧
      ∀ req ∈ requested variantBody isPdu, snssaiIn (some set) req = true →
        permits seams.plmnPolicyAllowList req = true →
        (req ∈ allowedSnssais info ↔
          ∃ nf body, Declaration.after ds nf = some body ∧ Supports body tai req) := by
  intro hall
  have htrace := sample_trace twoAreaInfo (by decide +kernel)
  have hloc : ∀ nf info, Declaration.replace nf info ∈
      [Declaration.replace "nf-1" twoAreaInfo] → Located info := by
    intro nf info hmem
    cases List.mem_singleton.1 hmem
    exact located_sampleInfo [("000001", 1), ("000002", 2)]
  obtain ⟨info, result, e', hsel, hiff⟩ := hall _ _ _ _ _ _ _ _ _ _ htrace hloc
    (sampleQuery_served "000001" 2) (sampleQuery_lookable 2) Env.allocOk_quiet
  have hresult : ((select {} ⟨[sampleRow twoAreaInfo]⟩ (some (sampleQuery "000001" 2))).result?
      .quiet).map (fun x => match x with
        | .selected info _ => decide (sampleSnssai 2 ∈ allowedSnssais info)
        | .failed _ => false) = some true := by
    decide +kernel
  unfold Prog.result? at hresult
  rw [hsel] at hresult
  have hmem : sampleSnssai 2 ∈ allowedSnssais info :=
    of_decide_eq_true (Option.some.inj hresult)
  obtain ⟨nf, body, hafter, entry, hentry, t, ht, harea, s, hs, hsame⟩ :=
    (hiff (sampleSnssai 2) List.mem_cons_self (by decide +kernel) rfl).1 hmem
  have hbody := List.mem_singleton.1 (replace_mem_of_after hafter)
  cases hbody
  rcases List.mem_cons.1 hentry with rfl | hentry
  · rw [List.mem_singleton.1 hs] at hsame
    exact absurd hsame (by decide +kernel)
  · rw [List.mem_singleton.1 hentry] at ht
    cases ht
    exact absurd harea (by decide)

end sample

end Nssf
