import Nssf.Availability.Committed

/-! Whether the event of a committed change tells what changed. The engine reads the slices
from before a replace by the key of the new body, although records belong to NFs, and a
delete reads nothing. -/

namespace Nssf

open Base Run NssaiAvailabilityInfo

/-- A seam that keeps the events it is given, oldest first. -/
def recording : PublishSeam (List ChangeEvent) := some fun ev evs => pure (evs ++ [ev])

/-- The event tells the slices stored for the NF before and after, and the tracking area of
the record the change is about. -/
structure ChangeEvent.Faithful (nf : String) (r r' : AvailabilityRepo) (ev : ChangeEvent) :
    Prop where
  nfId : ev.nfId = some nf
  before : ev.before = (r.row? nf).bind AvailabilityRecord.snssais
  after : ev.after = (r'.row? nf).bind AvailabilityRecord.snssais
  tai : Json.sameText ev.tai
    (((r'.row? nf).or (r.row? nf)).bind AvailabilityRecord.tai) = true

/-- The calls whose event can be right: a replace of an NF that is new or stays where it is
stored, and every patch. -/
def EngineCall.StaysPut (r : AvailabilityRepo) : EngineCall → Prop
  | .replace nfId info _ => ∀ nf body x tai, nfId = some nf → info = some body →
      r.row? nf = some x → firstTai? body = some tai →
        AvailabilityRepo.At (tai.member? "plmnId") (some tai) x = true
  | .patch _ _ _ _ _ => True
  | .delete _ => False

section fidelity

variable {r r' : AvailabilityRepo} {evs evs' : List ChangeEvent} {e : Env} {ev : ChangeEvent}

theorem recorded (h : Published recording e evs ev evs') : evs' = evs ++ [ev] := by
  obtain ⟨e₁, e₂, -, h⟩ := h
  cases h
  rfl

theorem AvailabilityRepo.Sound.slices_eq (hr : r.Sound) {nf : String} {x : AvailabilityRecord}
    (hx : r.row? nf = some x) : x.snssais = some x.slices := by
  obtain ⟨items, hitems⟩ := hr.slices nf x hx
  rw [AvailabilityRecord.slices, hitems]

/-- The slices that a replace reports as the ones from before are right when the record was
stored under the key of the new body, or when there was none. -/
theorem before_eq_iff (hr : r.Sound) (nf : String) (plmnId tai : Json) :
    (r.rowAt nf plmnId tai).map AvailabilityRecord.slices =
        (r.row? nf).bind AvailabilityRecord.snssais ↔
      ∀ x, r.row? nf = some x → AvailabilityRepo.At (some plmnId) (some tai) x = true := by
  unfold AvailabilityRepo.rowAt
  cases hx : r.row? nf with
  | none => simp
  | some x =>
    rw [Option.bind_some, hr.slices_eq hx]
    by_cases hat : AvailabilityRepo.At (some plmnId) (some tai) x = true
    · simp [Option.filter, hat]
    · simp [Option.filter, hat]

theorem replace_faithful_iff (hr : r.Sound) (ha : e.AllocOk) {nfId : Option String}
    {info : Option Json} {wanted : Bool} {reply : AvailabilityReply} {e' : Env}
    (h : availabilityReplace recording r evs nfId info wanted e = .ok ((reply, r', evs'), e'))
    (hc : reply.result.committed = true) :
    (∃ nf ev, nfId = some nf ∧ evs' = evs ++ [ev] ∧ ev.Faithful nf r r') ↔
      (EngineCall.replace nfId info wanted).StaysPut r := by
  rcases replace_cases h with ⟨hn, -, -⟩ | ⟨nf, body, tai, plmnId, before, hcases⟩
  · rw [hn] at hc
    cases hc
  obtain ⟨rfl, rfl, hvalid, htai, hplmn, rfl, hpub, hbefore⟩ := hcases
  have hev := recorded hpub
  have hb := hbefore hr.keyed ha
  have hiff := before_eq_iff hr nf plmnId tai
  have hrow : (r.put (replacementRecord nf plmnId tai (slices body)
      (body.member? "amfSetReallocationInd"))).row? nf = some (replacementRecord nf plmnId tai
        (slices body) (body.member? "amfSetReallocationInd")) := by
    rw [AvailabilityRepo.row?_put, replacementRecord_id hvalid, if_pos rfl]
  constructor
  · intro hf nf' body' x tai' hnf hbody hx htai'
    obtain ⟨nf'', ev, hnf', hevs, hfaith⟩ := hf
    cases hnf
    cases hnf'
    cases hbody
    rw [htai] at htai'
    cases htai'
    have hsame : ev = ⟨some nf, some tai, .replaced, before, some (.array (slices body))⟩ := by
      rw [hev] at hevs
      simpa using (List.append_cancel_left hevs).symm
    have hbf := hfaith.before
    rw [hsame] at hbf
    rw [hplmn]
    exact hiff.1 (hb.symm.trans hbf) x hx
  · intro hput
    refine ⟨nf, _, rfl, hev, rfl, ?_, ?_, ?_⟩
    · rw [hb]
      apply hiff.2
      intro x hx
      have hat := hput nf body x tai rfl rfl hx htai
      rwa [hplmn] at hat
    · rw [hrow]
      rfl
    · rw [hrow]
      exact Json.sameText_refl _

theorem patch_faithful (hr : r.Sound) (ha : e.AllocOk) {nfId contentType : Option String}
    {tai patch : Option Json} {wanted : Bool} {reply : AvailabilityReply} {e' : Env}
    (h : availabilityPatch recording r evs nfId contentType tai patch wanted e =
      .ok ((reply, r', evs'), e'))
    (hc : reply.result.committed = true) :
    ∃ nf ev, nfId = some nf ∧ evs' = evs ++ [ev] ∧ ev.Faithful nf r r' := by
  rcases patch_cases hr.keyed h with ⟨hn, -, -⟩ | ⟨nf, area, plmnId, before, patched, hcases⟩
  · rw [hn] at hc
    cases hc
  obtain ⟨rfl, rfl, -, rfl, hpub, hbefore⟩ := hcases
  obtain ⟨x, hat, hb⟩ := hbefore ha
  obtain ⟨hx, hkey⟩ := Option.filter_eq_some_iff.1 hat
  have hrow : (r.withSlices nf (.array patched)).row? nf =
      some { x with snssais := some (.array patched) } := by
    rw [AvailabilityRepo.row?_withSlices, if_pos rfl, hx]
    rfl
  refine ⟨nf, _, rfl, recorded hpub, rfl, ?_, ?_, ?_⟩
  · rw [hx, Option.bind_some, hr.slices_eq hx, hb]
  · rw [hrow]
    rfl
  · rw [hrow]
    change Json.sameText (some area) x.tai = true
    rw [Json.sameText_comm]
    exact (Bool.and_eq_true_iff.1 hkey).2

theorem delete_not_faithful (hr : r.Sound) {nfId : Option String} {reply : AvailabilityReply}
    {e' : Env} (h : availabilityDelete recording r evs nfId e = .ok ((reply, r', evs'), e'))
    (hc : reply.result.committed = true) :
    ¬∃ nf ev, nfId = some nf ∧ evs' = evs ++ [ev] ∧ ev.Faithful nf r r' := by
  rcases delete_cases hr.keyed h with ⟨hn, -, -⟩ | ⟨nf, x, rfl, hx, -, -, hpub⟩
  · rw [hn] at hc
    cases hc
  intro hf
  obtain ⟨nf', ev, hnf, hevs, hfaith⟩ := hf
  cases hnf
  have hsame : ev = ⟨some nf, none, .deleted, none, none⟩ := by
    rw [recorded hpub] at hevs
    simpa using (List.append_cancel_left hevs).symm
  have hbf := hfaith.before
  rw [hsame, hx, Option.bind_some, hr.slices_eq hx] at hbf
  cases hbf

/-- A committed call publishes one event, and the event is right exactly when the call leaves
the NF in its tracking area. -/
theorem committed_event_faithful_iff {c : EngineCall} {e' : Env} {reply : AvailabilityReply}
    (hreach : Runs (EngineCall.Step recording) (AvailabilityRepo.newInmemory, []) (r, evs))
    (ha : e.AllocOk) (h : c.run recording r evs e = .ok ((reply, r', evs'), e'))
    (hc : reply.result.committed = true) :
    (∃ nf ev, c.nfId = some nf ∧ evs' = evs ++ [ev] ∧ ev.Faithful nf r r') ↔ c.StaysPut r := by
  have hr : r.Sound := EngineCall.runs_sound hreach EngineCall.sound_newInmemory
  cases c with
  | replace nfId info wanted => exact replace_faithful_iff hr ha h hc
  | patch nfId contentType tai patch wanted =>
    exact iff_of_true (patch_faithful hr ha h hc) trivial
  | delete nfId => exact iff_of_false (delete_not_faithful hr h hc) id

end fidelity

section sample

def firstReplace : EngineCall :=
  .replace (some "nf-1") (some (sampleInfo [sampleEntry "000001" 1])) false

def firstRepo : AvailabilityRepo :=
  ⟨[replacementRecord "nf-1" (.object [("mcc", .string "001"), ("mnc", .string "01")])
    (sampleTai "000001") [sampleSnssai 1] none]⟩

theorem firstReplace_run : ∃ evs e', firstReplace.run recording .newInmemory [] .quiet =
    .ok ((⟨.ok, none, ""⟩, firstRepo, evs), e') := by
  have hresult : (firstReplace.run recording .newInmemory []).result? .quiet =
      some (⟨.ok, none, ""⟩, firstRepo, [⟨some "nf-1", some (sampleTai "000001"), .replaced,
        none, some (.array [sampleSnssai 1])⟩]) := by
    decide +kernel
  exact ⟨_, Prog.exists_of_result? hresult⟩

theorem committed_event_faithful_first : ∃ evs e',
    firstReplace.run recording .newInmemory [] .quiet =
      .ok ((⟨.ok, none, ""⟩, firstRepo, evs), e') ∧
    ∃ nf ev, firstReplace.nfId = some nf ∧ evs = [] ++ [ev] ∧
      ev.Faithful nf .newInmemory firstRepo := by
  obtain ⟨evs, e', h⟩ := firstReplace_run
  refine ⟨evs, e', h, ?_⟩
  apply (committed_event_faithful_iff .refl Env.allocOk_quiet h rfl).2
  intro nf body x tai _ _ hx
  cases hx

/-- The delete of the only NF tells neither its slices nor its tracking area. -/
theorem committed_event_not_faithful : ¬∀ (c : EngineCall) (r r' : AvailabilityRepo)
    (evs evs' : List ChangeEvent) (e e' : Env) (reply : AvailabilityReply),
    Runs (EngineCall.Step recording) (.newInmemory, []) (r, evs) → e.AllocOk →
    c.run recording r evs e = .ok ((reply, r', evs'), e') → reply.result.committed = true →
    ∃ nf ev, c.nfId = some nf ∧ evs' = evs ++ [ev] ∧ ev.Faithful nf r r' := by
  intro hall
  obtain ⟨evs, e', hfirst⟩ := firstReplace_run
  have hreach : Runs (EngineCall.Step recording) (.newInmemory, []) (firstRepo, evs) :=
    Relation.ReflTransGen.single ⟨firstReplace, .quiet, e', _, hfirst⟩
  have hsound : firstRepo.Sound := EngineCall.runs_sound hreach EngineCall.sound_newInmemory
  have hdelete : availabilityDelete recording firstRepo evs (some "nf-1") .quiet =
      .ok ((⟨.noContent, none, ""⟩, ⟨[]⟩,
        evs ++ [⟨some "nf-1", none, .deleted, none, none⟩]), .quiet) := rfl
  exact delete_not_faithful hsound hdelete rfl
    (hall (.delete (some "nf-1")) _ _ _ _ _ _ _ hreach Env.allocOk_quiet hdelete rfl)

end sample

end Nssf
