import Nssf.Availability.Engine
import Nssf.Base.Transition

/-! What each call of the engine can leave behind: either it refuses and nothing changed, or
the repository holds the new content and the seam was called once, with the event below. -/

namespace Nssf

open Base Run

namespace NssaiAvailabilityInfo

def entries (info : Json) : List Json :=
  match info.member? "supportedNssaiAvailabilityData" with
  | some (.array es) => es
  | _ => []

def tai? (entry : Json) : Option Json := (entry.member? "tai").filter Json.isObject

def listed (entry : Json) : List Json :=
  match entry.member? "supportedSnssaiList" with
  | some (.array items) => items
  | _ => []

/-- The one tracking area that the engine keeps for the whole body. -/
def firstTai? (info : Json) : Option Json := (entries info).findSome? tai?

def slices (info : Json) : List Json := unionSnssais [] ((entries info).flatMap listed)

end NssaiAvailabilityInfo

open NssaiAvailabilityInfo

theorem unionSnssais_append (out xs ys : List Json) :
    unionSnssais out (xs ++ ys) = unionSnssais (unionSnssais out xs) ys :=
  List.foldl_append

theorem member?_of_not_isObject {j : Json} (h : ¬j.isObject = true) (name : String) :
    j.member? name = none := by
  cases j with
  | object ms => exact absurd rfl h
  | _ => rfl

theorem firstTai_eq {entry : Json} (h : entry.isObject = true) (tai : Option Json) :
    firstTai tai entry = pure (tai.or (tai? entry)) := by
  cases tai with
  | some tai => rfl
  | none =>
    unfold firstTai
    rw [Json.getObjectItem_of_lookable (Json.lookable_of_isObject h)]
    rfl

theorem makes_collectEntries (tai : Option Json) {out : List Json}
    (ho : ∀ x ∈ out, x.isObject = true) (es : List Json) :
    Makes (collectEntries tai out es)
      (unionSnssais out (es.flatMap listed), tai.or (es.findSome? tai?)) := by
  induction es generalizing tai out with
  | nil =>
    rw [List.findSome?_nil, Option.or_none]
    exact makes_pure _
  | cons entry es ih =>
    rw [List.flatMap_cons, unionSnssais_append]
    unfold collectEntries
    by_cases h : entry.isObject = true
    · rw [if_pos h, firstTai_eq h, pure_bind,
        Json.getObjectItem_of_lookable (Json.lookable_of_isObject h), pure_bind]
      have htai : tai.or ((entry :: es).findSome? tai?) =
          (tai.or (tai? entry)).or (es.findSome? tai?) := by
        rw [List.findSome?_cons, Option.or_assoc]
        cases tai? entry <;> rfl
      rw [htai, listed]
      cases entry.member? "supportedSnssaiList" with
      | none => exact ih _ ho
      | some list =>
        cases list with
        | array items =>
          exact Makes.bind (makes_addSnssais ho items) rfl (ih _ (isObject_of_mem_union ho))
        | _ => exact ih _ ho
    · have hlist : listed entry = [] := by
        unfold listed
        rw [member?_of_not_isObject h]
      have htai : tai? entry = none := by
        unfold tai?
        rw [member?_of_not_isObject h]
        rfl
      rw [if_neg h, hlist, List.findSome?_cons, htai]
      exact ih tai ho

theorem makes_collectSnssais {info : Json} (h : info.isObject = true) :
    Makes (collectSnssais info) (slices info, firstTai? info) := by
  refine Makes.bind (makes_allocated _) rfl ?_
  change Makes (Json.getObjectItem (some info) _ >>= _) _
  rw [Json.getObjectItem_of_lookable (Json.lookable_of_isObject h), pure_bind]
  unfold slices firstTai? entries
  cases info.member? "supportedNssaiAvailabilityData" with
  | none => exact makes_pure _
  | some data =>
    cases data with
    | array es => exact makes_collectEntries none (fun _ h => absurd h List.not_mem_nil) es
    | _ => exact makes_pure _

/-- The slices that a snapshot of the record shows. -/
def AvailabilityRecord.slices (x : AvailabilityRecord) : Json :=
  match x.snssais with
  | some (.array items) => .array items
  | _ => .array []

theorem yields_snapshotOf (nfId : String) (xs : List AvailabilityRecord) :
    Yields (snapshotOf nfId xs)
      ⟨(findKey AvailabilityRecord.id nfId xs).map AvailabilityRecord.slices,
        (findKey AvailabilityRecord.id nfId xs).isSome, false⟩ := by
  induction xs with
  | nil => exact yields_pure _
  | cons x xs ih =>
    unfold snapshotOf findKey
    by_cases hx : x.id = nfId
    · have hvalue : Yields (snapshotValue x.snssais) (some x.slices) := by
        unfold snapshotValue AvailabilityRecord.slices
        cases x.snssais with
        | none => exact yields_allocated _
        | some snssais => cases snssais <;> exact yields_allocated _
      rw [if_pos hx, List.find?_cons_of_pos (by simpa using hx)]
      exact Yields.bind hvalue (yields_pure _)
    · rw [if_neg hx, List.find?_cons_of_neg (by simpa using hx)]
      exact ih

/-- The record of the NF as a read for the given key sees it. -/
def AvailabilityRepo.rowAt (r : AvailabilityRepo) (nfId : String) (plmnId tai : Json) :
    Option AvailabilityRecord :=
  (r.row? nfId).filter (AvailabilityRepo.At (some plmnId) (some tai))

theorem yields_readSnapshot {r : AvailabilityRepo} (hr : r.Keyed) (nfId : String)
    (plmnId tai : Json) :
    Yields (readSnapshot r nfId plmnId tai)
      ⟨(r.rowAt nfId plmnId tai).map AvailabilityRecord.slices,
        (r.rowAt nfId plmnId tai).isSome, false⟩ := by
  have hfind : r.rowAt nfId plmnId tai = findKey AvailabilityRecord.id nfId
      (r.items.filter (AvailabilityRepo.At (some plmnId) (some tai))) :=
    (findKey_filter hr _ nfId).symm
  rw [hfind]
  exact Yields.bind (r.yields_memFindForPlmnTai _ _) (yields_snapshotOf nfId _)

theorem gives_snapshotValue {F : Fault → Prop} (x : AvailabilityRecord) :
    Gives F (fun o => o = none ∨ o = some x.slices) (snapshotValue x.snssais) := by
  unfold snapshotValue AvailabilityRecord.slices
  cases x.snssais with
  | none => exact gives_allocated _
  | some snssais => cases snssais <;> exact gives_allocated _

theorem gives_snapshotOf {F : Fault → Prop} (nfId : String) (xs : List AvailabilityRecord) :
    Gives F (fun s => s.found = true → s.err = false →
      ∃ x ∈ xs, x.id = nfId ∧ s.value = some x.slices) (snapshotOf nfId xs) := by
  induction xs with
  | nil => exact gives_pure (by simp)
  | cons x xs ih =>
    unfold snapshotOf
    split_ifs with hx
    · refine Gives.bind (gives_snapshotValue x) fun o ho => gives_pure ?_
      rcases ho with rfl | rfl
      · simp
      · intro _ _
        exact ⟨x, List.mem_cons_self, hx, rfl⟩
    · refine ih.mono (fun s hs hfound herr => ?_) fun _ h => h
      obtain ⟨y, hy, hid, hvalue⟩ := hs hfound herr
      exact ⟨y, List.mem_cons_of_mem x hy, hid, hvalue⟩

/-- Even with allocations refused, a snapshot that was found shows the record of the NF. -/
theorem gives_readSnapshot (r : AvailabilityRepo) (nfId : String) (plmnId tai : Json) :
    Gives (fun x => x = .outOfBounds)
      (fun s => s.found = true → s.err = false → r.Keyed → nfIdValid nfId = true →
        ∃ x, r.row? nfId = some x ∧ s.value = some x.slices)
      (readSnapshot r nfId plmnId tai) := by
  refine Gives.bind (r.gives_memFindForPlmnTai _ _) fun o ho => ?_
  cases o with
  | none => exact gives_pure (by simp)
  | some records =>
    refine (gives_snapshotOf nfId records).mono (fun s hs hfound herr hr hvalid => ?_) fun _ h => h
    obtain ⟨x, hx, hid, hvalue⟩ := hs hfound herr
    rcases ho records rfl x hx with hmem | rfl
    · exact ⟨x, (findKey_eq_some_iff hr).2 ⟨hmem, hid⟩, hvalue⟩
    · rw [← hid] at hvalid
      cases hvalid

theorem replacementRecord_id {nf : String} (h : nfIdValid nf = true) (plmnId tai : Json)
    (snssais : List Json) (ind : Option Json) :
    (replacementRecord nf plmnId tai snssais ind).id = nf := by
  have hlen : nf.toList.length ≤ 36 := by
    simp only [nfIdValid, Bool.and_eq_true, decide_eq_true_eq] at h
    have hl := h.2
    rw [← String.length_toList] at hl
    omega
  change String.ofList (nf.toList.take 36) = nf
  rw [List.take_of_length_le hlen, String.ofList_toList]

def AvailabilityResult.committed : AvailabilityResult → Bool
  | .ok => true
  | .noContent => true
  | _ => false

section cases

variable {τ : Type} {seam : PublishSeam τ} {r r' : AvailabilityRepo} {t t' : τ}
  {reply : AvailabilityReply} {e e' : Env}

/-- The seam took the event and left `t'`; before it only allocations were made. -/
def Published (seam : PublishSeam τ) (e : Env) (t : τ) (ev : ChangeEvent) (t' : τ) : Prop :=
  ∃ e₁ e₂, e.Draws e₁ ∧ publishChange seam ev t e₁ = .ok (t', e₂)

theorem Published.of_draws {e₀ : Env} {ev : ChangeEvent} (hd : e₀.Draws e)
    (h : Published seam e t ev t') : Published seam e₀ t ev t' := by
  obtain ⟨e₁, e₂, hd', hp⟩ := h
  exact ⟨e₁, e₂, hd.trans hd', hp⟩

theorem commitReplace_cases {nfId : String} {body : Json} (hb : body.isObject = true)
    {wanted : Bool} {snssais : List Json} {tai plmnId : Json}
    (h : commitReplace seam r t nfId body wanted snssais tai plmnId e =
      .ok ((reply, r', t'), e')) :
    (reply.result.committed = false ∧ r' = r ∧ t' = t) ∨
      (r' = r.put (replacementRecord nfId plmnId tai snssais
          (body.member? "amfSetReallocationInd")) ∧
        ∃ before,
          Published seam e t ⟨some nfId, some tai, .replaced, before, some (.array snssais)⟩ t' ∧
          (r.Keyed → e.AllocOk →
            before = (r.rowAt nfId plmnId tai).map AvailabilityRecord.slices)) := by
  unfold commitReplace at h
  have hlook := Json.lookable_of_isObject hb
  simp only [Json.getObjectItem_of_lookable hlook, pure_bind] at h
  obtain ⟨before, e₁, hbefore, h⟩ := Prog.bind_eq_ok.1 h
  obtain ⟨⟨ok, r₁⟩, e₂, hupsert, h⟩ := Prog.bind_eq_ok.1 h
  have hd₁ := ((gives_readSnapshot r nfId plmnId tai).of_ok hbefore).2
  obtain ⟨hr₁, hd₂⟩ := (r.gives_memUpsert (F := fun _ => True) _).of_ok hupsert
  rcases hr₁ with hr₁ | hr₁
  · cases hr₁
    cases h
    exact Or.inl ⟨rfl, rfl, rfl⟩
  · cases hr₁
    obtain ⟨t₁, e₃, hpublish, h⟩ := Prog.bind_eq_ok.1 h
    obtain ⟨reply₁, e₄, -, h⟩ := Prog.bind_eq_ok.1 h
    cases h
    refine Or.inr ⟨rfl, before.value, ⟨e₂, e₃, hd₁.trans hd₂, hpublish⟩, ?_⟩
    intro hr ha
    rw [((yields_readSnapshot hr nfId plmnId tai).eq_of_ok ha hbefore).1]

theorem replaceInfo_cases {nfId : String} {body : Json} (hb : body.isObject = true)
    {wanted : Bool}
    (h : replaceInfo seam r t nfId body wanted e = .ok ((reply, r', t'), e')) :
    (reply.result.committed = false ∧ r' = r ∧ t' = t) ∨
      ∃ tai plmnId before, firstTai? body = some tai ∧ tai.member? "plmnId" = some plmnId ∧
        r' = r.put (replacementRecord nfId plmnId tai (slices body)
          (body.member? "amfSetReallocationInd")) ∧
        Published seam e t
          ⟨some nfId, some tai, .replaced, before, some (.array (slices body))⟩ t' ∧
        (r.Keyed → e.AllocOk →
          before = (r.rowAt nfId plmnId tai).map AvailabilityRecord.slices) := by
  unfold replaceInfo at h
  obtain ⟨o, e₁, hcollect, h⟩ := Prog.bind_eq_ok.1 h
  obtain ⟨ho, hd⟩ := (makes_collectSnssais hb).any.of_ok hcollect
  rcases ho with rfl | rfl
  · cases h
    exact Or.inl ⟨rfl, rfl, rfl⟩
  cases htai : firstTai? body with
  | none =>
    rw [htai] at h
    cases h
    exact Or.inl ⟨rfl, rfl, rfl⟩
  | some tai =>
    have htaiObject : tai.isObject = true := by
      obtain ⟨entry, -, hentry⟩ := List.exists_of_findSome?_eq_some htai
      exact (Option.filter_eq_some_iff.1 hentry).2
    rw [htai] at h
    change (Json.getObjectItem (some tai) "plmnId" >>= _) e₁ = _ at h
    rw [Json.getObjectItem_of_lookable (Json.lookable_of_isObject htaiObject), pure_bind] at h
    cases hplmn : tai.member? "plmnId" with
    | none =>
      rw [hplmn] at h
      cases h
      exact Or.inl ⟨rfl, rfl, rfl⟩
    | some plmnId =>
      rw [hplmn] at h
      cases plmnId with
      | object members =>
        rcases commitReplace_cases hb h with hc | ⟨hr', before, hpub, hbefore⟩
        · exact Or.inl hc
        · refine Or.inr ⟨tai, .object members, before, rfl, hplmn, hr', hpub.of_draws hd, ?_⟩
          intro hr ha
          exact hbefore hr (hd.allocOk ha)
      | _ =>
        cases h
        exact Or.inl ⟨rfl, rfl, rfl⟩

theorem replace_cases {nfId : Option String} {info : Option Json} {wanted : Bool}
    (h : availabilityReplace seam r t nfId info wanted e = .ok ((reply, r', t'), e')) :
    (reply.result.committed = false ∧ r' = r ∧ t' = t) ∨
      ∃ nf body tai plmnId before, nfId = some nf ∧ info = some body ∧ nfIdValid nf = true ∧
        firstTai? body = some tai ∧ tai.member? "plmnId" = some plmnId ∧
        r' = r.put (replacementRecord nf plmnId tai (slices body)
          (body.member? "amfSetReallocationInd")) ∧
        Published seam e t
          ⟨some nf, some tai, .replaced, before, some (.array (slices body))⟩ t' ∧
        (r.Keyed → e.AllocOk →
          before = (r.rowAt nf plmnId tai).map AvailabilityRecord.slices) := by
  unfold availabilityReplace at h
  cases info with
  | none =>
    cases h
    exact Or.inl ⟨rfl, rfl, rfl⟩
  | some body =>
    cases hnf : nfId.filter nfIdValid with
    | none =>
      rw [hnf] at h
      cases h
      exact Or.inl ⟨rfl, rfl, rfl⟩
    | some nf =>
      rw [hnf] at h
      obtain ⟨hid, hvalid⟩ := Option.filter_eq_some_iff.1 hnf
      by_cases hb : body.isObject = true
      · simp only [hb, if_true] at h
        rcases replaceInfo_cases hb h with hc | ⟨tai, plmnId, before, hc⟩
        · exact Or.inl hc
        · exact Or.inr ⟨nf, body, tai, plmnId, before, hid, rfl, hvalid, hc⟩
      · simp only [hb] at h
        cases h
        exact Or.inl ⟨rfl, rfl, rfl⟩

theorem delete_cases {nfId : Option String} (hr : r.Keyed)
    (h : availabilityDelete seam r t nfId e = .ok ((reply, r', t'), e')) :
    (reply.result.committed = false ∧ r' = r ∧ t' = t) ∨
      ∃ nf x, nfId = some nf ∧ r.row? nf = some x ∧ r'.Keyed ∧
        (∀ m, r'.row? m = if m = nf then none else r.row? m) ∧
        Published seam e t ⟨some nf, none, .deleted, none, none⟩ t' := by
  unfold availabilityDelete at h
  cases hnf : nfId.filter nfIdValid with
  | none =>
    rw [hnf] at h
    cases h
    exact Or.inl ⟨rfl, rfl, rfl⟩
  | some nf =>
    rw [hnf] at h
    obtain ⟨hid, -⟩ := Option.filter_eq_some_iff.1 hnf
    rcases r.memDelete_cases hr nf with ⟨hdel, -⟩ | ⟨r₁, x, hdel, hx, hk, hrows⟩
    · simp only [hdel] at h
      cases h
      exact Or.inl ⟨rfl, rfl, rfl⟩
    · simp only [hdel] at h
      obtain ⟨t₁, e₁, hpublish, h⟩ := Prog.bind_eq_ok.1 h
      cases h
      exact Or.inr ⟨nf, x, hid, hx, hk, hrows, e, e', .refl e, hpublish⟩

theorem gives_patchOpValid {F : Fault → Prop} (op : Json) :
    Gives F (fun _ => True) (patchOpValid op) := by
  unfold patchOpValid
  split_ifs with h
  · simp only [Json.getObjectItem_of_lookable (Json.lookable_of_isObject h), pure_bind]
    split
    · split_ifs <;> exact gives_pure trivial
    · exact gives_pure trivial
  · exact gives_pure trivial

theorem gives_patchOpsValid {F : Fault → Prop} (ops : List Json) :
    Gives F (fun _ => True) (patchOpsValid ops) := by
  induction ops with
  | nil => exact gives_pure trivial
  | cons op ops ih =>
    refine Gives.bind (gives_patchOpValid op) fun b _ => ?_
    cases b with
    | true => exact ih
    | false => exact gives_pure trivial

/-- What one operation makes of the list, when it applies. -/
def editOnce (target : List Json) (op : Json) : Option (List Json) :=
  match op.member? "op", op.member? "path" with
  | some (.string "add"), some (.string path) => do
    let i ← parseArrayIndex path target.length true
    let value ← op.member? "value"
    return target.insertIdx i value
  | some (.string "remove"), some (.string path) => do
    let i ← parseArrayIndex path target.length false
    return target.eraseIdx i
  | some (.string "replace"), some (.string path) => do
    let i ← parseArrayIndex path target.length false
    let value ← op.member? "value"
    return target.set i value
  | some (.string "test"), some (.string path) => do
    let i ← parseArrayIndex path target.length false
    let item ← target[i]?
    let value ← op.member? "value"
    if item.compare value then some target else none
  | _, _ => none

/-- What the operations of a patch make of the list, one after the other. -/
def edits (target ops : List Json) : Option (List Json) := ops.foldlM editOnce target

theorem gives_availabilityApplyOneOp (target : List Json) (op : Json) :
    Gives (fun _ => True) (fun o => o = none ∨ o = editOnce target op)
      (availabilityApplyOneOp target op) := by
  refine Gives.bind (gives_getObjectItem _ _) fun opName hname => ?_
  refine Gives.bind (gives_getObjectItem _ _) fun opPath hpath => ?_
  refine Gives.bind (gives_getObjectItem _ _) fun value hvalue => ?_
  replace hname := (hname op rfl).symm
  replace hpath := (hpath op rfl).symm
  replace hvalue := (hvalue op rfl).symm
  have hcopy (f : Json → List Json) {k : Option Json → Run (Option (List Json))}
      (hnone : k none = pure none) (hsome : ∀ copy, k (some copy) = pure (some (f copy))) :
      Gives (fun _ => True) (fun o => o = none ∨ o = value >>= fun v => some (f v))
        (Json.duplicate value >>= k) := by
    refine Gives.bind (gives_duplicate value) fun o ho => ?_
    cases o with
    | none =>
      rw [hnone]
      exact gives_pure (Or.inl rfl)
    | some copy =>
      rcases ho with ho | ho
      · cases ho
      · rw [← ho, hsome]
        exact gives_pure (Or.inr rfl)
  split
  · rename_i path
    cases hi : parseArrayIndex path target.length true with
    | none => exact gives_pure (Or.inl rfl)
    | some i =>
      have hedit : editOnce target op = value >>= fun v => some (target.insertIdx i v) := by
        simp only [editOnce, hname, hpath, hvalue, hi]
        rfl
      rw [hedit]
      exact hcopy _ rfl fun _ => rfl
  · rename_i path
    cases hi : parseArrayIndex path target.length false with
    | none => exact gives_pure (Or.inl rfl)
    | some i =>
      refine gives_pure (Or.inr ?_)
      simp only [editOnce, hname, hpath, hi]
      rfl
  · rename_i path
    cases hi : parseArrayIndex path target.length false with
    | none => exact gives_pure (Or.inl rfl)
    | some i =>
      have hedit : editOnce target op = value >>= fun v => some (target.set i v) := by
        simp only [editOnce, hname, hpath, hvalue, hi]
        rfl
      rw [hedit]
      exact hcopy _ rfl fun _ => rfl
  · rename_i path
    cases hi : parseArrayIndex path target.length false with
    | none => exact gives_pure (Or.inl rfl)
    | some i =>
      dsimp only
      split
      · rename_i item v hitem
        refine gives_pure (Or.inr ?_)
        simp only [editOnce, hname, hpath, hvalue, hi, Option.bind_eq_bind, Option.bind_some,
          hitem]
      · exact gives_pure (Or.inl rfl)
  · exact gives_pure (Or.inl rfl)
  · exact gives_throw trivial

theorem gives_applyOps (target ops : List Json) :
    Gives (fun _ => True) (fun o => o = none ∨ o = edits target ops) (applyOps target ops) := by
  induction ops generalizing target with
  | nil => exact gives_pure (Or.inr rfl)
  | cons op ops ih =>
    refine Gives.bind (gives_availabilityApplyOneOp target op) fun o ho => ?_
    cases o with
    | none => exact gives_pure (Or.inl rfl)
    | some next =>
      rcases ho with ho | ho
      · cases ho
      · unfold edits
        rw [List.foldlM_cons, ← ho]
        exact ih next

theorem commitPatch_cases (hr : r.Keyed) {nfId : String} {tai before : Json} {wanted : Bool}
    {working : List Json}
    (h : commitPatch seam r t nfId tai wanted before working e = .ok ((reply, r', t'), e')) :
    (reply.result.committed = false ∧ r' = r ∧ t' = t) ∨
      (r' = r.withSlices nfId (.array working) ∧ Published seam e t
        ⟨some nfId, some tai, .patched, some before, some (.array working)⟩ t') := by
  unfold commitPatch at h
  obtain ⟨⟨code, r₁⟩, e₁, hpatch, h⟩ := Prog.bind_eq_ok.1 h
  obtain ⟨hcode, hd⟩ :=
    (r.gives_memPatch_slices (F := fun _ => True) hr nfId (.array working)).of_ok hpatch
  rcases hcode with ⟨hr₁, hne⟩ | hdone
  · have hr₂ : r₁ = r := hr₁
    rw [hr₂] at h
    cases code with
    | done => exact absurd rfl hne
    | noRow =>
      cases h
      exact Or.inl ⟨rfl, rfl, rfl⟩
    | failed =>
      cases h
      exact Or.inl ⟨rfl, rfl, rfl⟩
  · cases hdone
    obtain ⟨t₁, e₂, hpublish, h⟩ := Prog.bind_eq_ok.1 h
    obtain ⟨reply₁, e₃, -, h⟩ := Prog.bind_eq_ok.1 h
    cases h
    exact Or.inr ⟨rfl, e₁, e₂, hd, hpublish⟩

theorem patchSnapshot_cases (hr : r.Keyed) {nfId : String} {tai : Json} {ops : List Json}
    {wanted : Bool} {before : Snapshot}
    (h : patchSnapshot seam r t nfId tai ops wanted before e = .ok ((reply, r', t'), e')) :
    (reply.result.committed = false ∧ r' = r ∧ t' = t) ∨
      ∃ items patched, before.found = true ∧ before.value = some (.array items) ∧
        r' = r.withSlices nfId (.array patched) ∧ Published seam e t
          ⟨some nfId, some tai, .patched, some (.array items), some (.array patched)⟩ t' := by
  unfold patchSnapshot at h
  split_ifs at h with herr hfound
  · cases h
    exact Or.inl ⟨rfl, rfl, rfl⟩
  · cases h
    exact Or.inl ⟨rfl, rfl, rfl⟩
  · obtain ⟨copy, e₁, hcopy, h⟩ := Prog.bind_eq_ok.1 h
    obtain ⟨hv, hd₁⟩ := (gives_duplicate (F := fun _ => True) before.value).of_ok hcopy
    split at h
    · rename_i items
      obtain ⟨o, e₂, happly, h⟩ := Prog.bind_eq_ok.1 h
      have hd₂ := ((gives_applyOps items ops).of_ok happly).2
      cases o with
      | none =>
        cases h
        exact Or.inl ⟨rfl, rfl, rfl⟩
      | some patched =>
        have hvalue : before.value = some (.array items) := by
          rcases hv with hv | hv
          · cases hv
          · exact hv.symm
        rcases commitPatch_cases hr h with hc | ⟨hr', hpub⟩
        · exact Or.inl hc
        · refine Or.inr ⟨items, patched, by simpa using hfound, hvalue, hr', ?_⟩
          exact hpub.of_draws (hd₁.trans hd₂)
    · cases h
      exact Or.inl ⟨rfl, rfl, rfl⟩

theorem patchOps_cases (hr : r.Keyed) {nfId : String} {plmnId tai : Json} {ops : List Json}
    {wanted : Bool}
    (h : patchOps seam r t nfId plmnId tai ops wanted e = .ok ((reply, r', t'), e')) :
    (reply.result.committed = false ∧ r' = r ∧ t' = t) ∨
      ∃ before patched, r' = r.withSlices nfId (.array patched) ∧
        Published seam e t
          ⟨some nfId, some tai, .patched, some before, some (.array patched)⟩ t' ∧
        (e.AllocOk → ∃ x, r.rowAt nfId plmnId tai = some x ∧ before = x.slices) := by
  obtain ⟨valid, e₁, hvalid, h⟩ := Prog.bind_eq_ok.1 h
  have hd₁ := ((gives_patchOpsValid (F := fun _ => True) ops).of_ok hvalid).2
  cases valid with
  | false =>
    cases h
    exact Or.inl ⟨rfl, rfl, rfl⟩
  | true =>
    obtain ⟨before, e₂, hbefore, h⟩ := Prog.bind_eq_ok.1 h
    have hd₂ := ((gives_readSnapshot r nfId plmnId tai).of_ok hbefore).2
    rcases patchSnapshot_cases hr h with hc | ⟨items, patched, hfound, hval, hr', hp⟩
    · exact Or.inl hc
    · refine Or.inr ⟨.array items, patched, hr', hp.of_draws (hd₁.trans hd₂), ?_⟩
      intro ha
      have hsnap := ((yields_readSnapshot hr nfId plmnId tai).eq_of_ok
        (hd₁.allocOk ha) hbefore).1
      rw [hsnap] at hfound hval
      obtain ⟨x, hx⟩ := Option.isSome_iff_exists.1 hfound
      rw [hx] at hval
      exact ⟨x, hx, (Option.some.inj hval).symm⟩

theorem patch_cases (hr : r.Keyed) {nfId contentType : Option String} {tai patch : Option Json}
    {wanted : Bool}
    (h : availabilityPatch seam r t nfId contentType tai patch wanted e =
      .ok ((reply, r', t'), e')) :
    (reply.result.committed = false ∧ r' = r ∧ t' = t) ∨
      ∃ nf area plmnId before patched, nfId = some nf ∧ tai = some area ∧
        area.member? "plmnId" = some plmnId ∧ r' = r.withSlices nf (.array patched) ∧
        Published seam e t
          ⟨some nf, some area, .patched, some before, some (.array patched)⟩ t' ∧
        (e.AllocOk → ∃ x, r.rowAt nf plmnId area = some x ∧ before = x.slices) := by
  unfold availabilityPatch at h
  split_ifs at h with hct
  · cases h
    exact Or.inl ⟨rfl, rfl, rfl⟩
  cases hnf : nfId.filter nfIdValid with
  | none =>
    rw [hnf] at h
    cases h
    exact Or.inl ⟨rfl, rfl, rfl⟩
  | some nf =>
    cases harea : tai.filter Json.isObject with
    | none =>
      rw [hnf, harea] at h
      cases h
      exact Or.inl ⟨rfl, rfl, rfl⟩
    | some area =>
      obtain ⟨hid, -⟩ := Option.filter_eq_some_iff.1 hnf
      obtain ⟨htai, hobject⟩ := Option.filter_eq_some_iff.1 harea
      rw [hnf, harea] at h
      change (Json.getObjectItem (some area) "plmnId" >>= _) e = _ at h
      rw [Json.getObjectItem_of_lookable (Json.lookable_of_isObject hobject), pure_bind] at h
      cases hplmn : area.member? "plmnId" with
      | none =>
        rw [hplmn] at h
        cases h
        exact Or.inl ⟨rfl, rfl, rfl⟩
      | some plmnId =>
        rw [hplmn] at h
        cases plmnId with
        | object members =>
          cases patch with
          | none =>
            cases h
            exact Or.inl ⟨rfl, rfl, rfl⟩
          | some patch =>
            cases patch with
            | array ops =>
              rcases patchOps_cases hr h with hc | ⟨before, patched, hr', hp, hx⟩
              · exact Or.inl hc
              · exact Or.inr ⟨nf, area, .object members, before, patched, hid, htai, hplmn, hr',
                  hp, hx⟩
            | _ =>
              cases h
              exact Or.inl ⟨rfl, rfl, rfl⟩
        | _ =>
          cases h
          exact Or.inl ⟨rfl, rfl, rfl⟩

end cases

section sample

def sampleTai (tac : String) : Json :=
  .object [("plmnId", .object [("mcc", .string "001"), ("mnc", .string "01")]),
    ("tac", .string tac)]

def sampleSnssai (sst : ℕ) : Json := .object [("sst", .number (Binary64.ofNat sst))]

def sampleEntry (tac : String) (sst : ℕ) : Json :=
  .object [("tai", sampleTai tac), ("supportedSnssaiList", .array [sampleSnssai sst])]

/-- The body of a replace with the given entries and nothing else. -/
def sampleInfo (entries : List Json) : Json :=
  .object [("supportedNssaiAvailabilityData", .array entries)]

end sample

inductive EngineCall where
  | replace (nfId : Option String) (info : Option Json) (wanted : Bool)
  | patch (nfId contentType : Option String) (tai patch : Option Json) (wanted : Bool)
  | delete (nfId : Option String)

namespace EngineCall

variable {τ : Type}

def nfId : EngineCall → Option String
  | .replace id _ _ => id
  | .patch id _ _ _ _ => id
  | .delete id => id

def run (seam : PublishSeam τ) (c : EngineCall) (r : AvailabilityRepo) (t : τ) :
    Run (AvailabilityReply × AvailabilityRepo × τ) :=
  match c with
  | .replace id info wanted => availabilityReplace seam r t id info wanted
  | .patch id contentType tai ops wanted =>
    availabilityPatch seam r t id contentType tai ops wanted
  | .delete id => availabilityDelete seam r t id

/-- One call of an engine over a repository and the state behind its seam. -/
def Step (seam : PublishSeam τ) (s s' : AvailabilityRepo × τ) : Prop :=
  ∃ (c : EngineCall) (e e' : Env) (reply : AvailabilityReply),
    c.run seam s.1 s.2 e = .ok ((reply, s'), e')

end EngineCall

/-- What every call keeps: ids are unique, and each record has an array of slices. -/
structure AvailabilityRepo.Sound (r : AvailabilityRepo) : Prop where
  keyed : r.Keyed
  slices : ∀ id x, r.row? id = some x → ∃ items, x.snssais = some (.array items)

namespace EngineCall

variable {τ : Type} {seam : PublishSeam τ}

theorem sound_newInmemory : AvailabilityRepo.newInmemory.Sound where
  keyed := List.nodup_nil
  slices := by
    intro id x h
    cases h

theorem step_sound {s s' : AvailabilityRepo × τ} (hs : s.1.Sound) (h : Step seam s s') :
    s'.1.Sound := by
  obtain ⟨c, e, e', reply, h⟩ := h
  obtain ⟨r', t'⟩ := s'
  cases c with
  | replace nfId info wanted =>
    rcases replace_cases h with ⟨-, rfl, -⟩ | ⟨nf, body, tai, plmnId, before, hc⟩
    · exact hs
    · obtain ⟨-, -, -, -, -, rfl, -⟩ := hc
      refine ⟨hs.keyed.put _, ?_⟩
      intro id x hx
      rw [AvailabilityRepo.row?_put] at hx
      split_ifs at hx with hid
      · cases hx
        exact ⟨_, rfl⟩
      · exact hs.slices id x hx
  | patch nfId contentType tai patch wanted =>
    rcases patch_cases hs.keyed h with ⟨-, rfl, -⟩ | ⟨nf, area, plmnId, before, patched, hc⟩
    · exact hs
    · obtain ⟨-, -, -, rfl, -⟩ := hc
      refine ⟨hs.keyed.withSlices nf _, ?_⟩
      intro id x hx
      rw [AvailabilityRepo.row?_withSlices] at hx
      split_ifs at hx with hid
      · obtain ⟨y, -, rfl⟩ := Option.map_eq_some_iff.1 hx
        exact ⟨patched, rfl⟩
      · exact hs.slices id x hx
  | delete nfId =>
    rcases delete_cases hs.keyed h with ⟨-, rfl, -⟩ | ⟨nf, x, -, -, hk, hrows, -⟩
    · exact hs
    · refine ⟨hk, ?_⟩
      intro id y hy
      rw [hrows] at hy
      split_ifs at hy with hid
      exact hs.slices id y hy

theorem runs_sound {s s' : AvailabilityRepo × τ} (hr : Runs (Step seam) s s')
    (hs : s.1.Sound) : s'.1.Sound :=
  Runs.invariant (I := fun s => s.1.Sound) hr hs fun _ _ h hstep => step_sound h hstep

end EngineCall

end Nssf
