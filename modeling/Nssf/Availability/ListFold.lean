import Nssf.Availability.Committed

/-! A patch of a record as a fold over its list of slices. Each operation names a place in the
list that the operations before it left, and one that does not apply leaves nothing of them. -/

namespace Nssf

open Base Run

/-- The number that the digits write behind the number `v`. -/
def readDigits (v : ℕ) (cs : List Char) : ℕ :=
  cs.foldl (fun v c => v * 10 + (c.toNat - '0'.toNat)) v

/-- The place that a pointer names in a list of the given length; `-` is behind the last one. -/
def listPosition (path : String) (len : ℕ) : Option ℕ :=
  match path.toList with
  | '/' :: tail =>
    if tail = ['-'] then some len
    else if tail ≠ [] ∧ tail.all Char.isDigit = true then some (readDigits 0 tail)
    else none
  | _ => none

/-- What an operation makes of the list, cut in two at the place that it names. -/
def editAt (name : String) (value : Option Json) (before after : List Json) :
    Option (List Json) :=
  if name = "add" then value.map fun v => before ++ v :: after
  else
    match after with
    | [] => none
    | item :: after =>
      if name = "remove" then some (before ++ after)
      else if name = "replace" then value.map fun v => before ++ v :: after
      else if name = "test" then
        if value.any item.compare then some (before ++ item :: after) else none
      else none

def listEdit (items : List Json) (op : Json) : Option (List Json) :=
  match op.member? "op", op.member? "path" with
  | some (.string name), some (.string path) =>
    (listPosition path items.length).bind fun i =>
      if i ≤ items.length then
        editAt name (op.member? "value") (items.take i) (items.drop i)
      else none
  | _, _ => none

section position

theorem readDigits_cons (v : ℕ) (c : Char) (cs : List Char) :
    readDigits v (c :: cs) = readDigits (v * 10 + (c.toNat - '0'.toNat)) cs :=
  List.foldl_cons

theorem le_readDigits (v : ℕ) (cs : List Char) : v ≤ readDigits v cs := by
  induction cs generalizing v with
  | nil => exact le_rfl
  | cons c cs ih =>
    have hstep := ih (v * 10 + (c.toNat - '0'.toNat))
    rw [readDigits_cons]
    omega

/-- The digits that are left unread cannot bring the number back into the list. -/
theorem parseDigits_within (len v : ℕ) (cs : List Char) :
    (parseDigits len v cs).filter (fun i => decide (i ≤ len)) =
      if cs.all Char.isDigit = true ∧ readDigits v cs ≤ len then some (readDigits v cs)
      else none := by
  induction cs generalizing v with
  | nil =>
    by_cases hv : v ≤ len
    · simp [parseDigits, readDigits, Option.filter_some, hv]
    · simp [parseDigits, readDigits, Option.filter_some]
  | cons c cs ih =>
    have hge := le_readDigits (v * 10 + (c.toNat - '0'.toNat)) cs
    by_cases hc : c.isDigit = true
    · by_cases hlen : len < v * 10 + (c.toNat - '0'.toNat)
      · have hout : ¬v * 10 + (c.toNat - '0'.toNat) ≤ len := by omega
        have hread : ¬readDigits v (c :: cs) ≤ len := by
          rw [readDigits_cons]
          omega
        rw [if_neg fun h => hread h.2]
        simp only [parseDigits, hc, hlen, if_true, Option.filter_some, decide_eq_true_eq, hout,
          if_false]
      · simp only [parseDigits, hc, hlen, if_true, if_false, ih, List.all_cons, Bool.true_and,
          readDigits_cons]
    · simp [parseDigits, hc]

/-- An index is read as the place that the pointer names, when an operation may use it. -/
theorem parseArrayIndex_eq (path : String) (len : ℕ) (append : Bool) :
    parseArrayIndex path len append = (listPosition path len).filter fun i =>
      decide (i ≤ len) && (append || decide (i < len)) := by
  unfold parseArrayIndex listPosition
  cases path.toList with
  | nil => rfl
  | cons c tail =>
    by_cases hc : c = '/'
    · subst hc
      by_cases hdash : tail = ['-']
      · subst hdash
        cases append <;> simp [parseDigits, Option.filter_some]
      · by_cases hnil : tail = []
        · subst hnil
          simp
        · have hwithin := congrArg (Option.filter fun i => append || decide (i < len))
            (parseDigits_within len 0 tail)
          rw [Option.filter_filter] at hwithin
          have hcond : (append && tail == ['-']) = false := by simp [hdash]
          simp only [hcond, Bool.false_eq_true, hdash, hnil, ne_eq, not_false_eq_true, true_and,
            if_false]
          rw [hwithin]
          by_cases hall : tail.all Char.isDigit = true
          · by_cases hle : readDigits 0 tail ≤ len
            · simp [hall, hle, Option.filter_some]
            · simp [hall, hle, Option.filter_some]
          · simp [hall]
    · simp [hc]

end position

section operations

theorem take_drop_insertIdx {items : List Json} {i : ℕ} (h : i ≤ items.length) (v : Json) :
    items.take i ++ v :: items.drop i = items.insertIdx i v := by
  induction items generalizing i with
  | nil =>
    have hi : i = 0 := by simpa using h
    subst hi
    rfl
  | cons item items ih =>
    cases i with
    | zero => rfl
    | succ i =>
      rw [List.take_succ_cons, List.drop_succ_cons, List.insertIdx_succ_cons, List.cons_append,
        ih (by simpa using h)]

/-- The operations but `add` need an item at the place that they name. -/
theorem editAt_item {name : String} (hadd : name ≠ "add") (value : Option Json)
    (items : List Json) (o : Option ℕ) :
    (o.bind fun i =>
      if i ≤ items.length then editAt name value (items.take i) (items.drop i) else none) =
      (o.filter fun i => decide (i ≤ items.length) && (false || decide (i < items.length))).bind
        fun i => editAt name value (items.take i) (items.drop i) := by
  cases o with
  | none => rfl
  | some i =>
    by_cases hi : i < items.length
    · have hle : i ≤ items.length := by omega
      simp [hi, hle, Option.filter_some]
    · have hdrop : items.drop i = [] := List.drop_eq_nil_of_le (by omega)
      simp [hi, hdrop, editAt, hadd, Option.filter_some]

theorem lt_of_listed {len i : ℕ} {o : Option ℕ}
    (h : (o.filter fun i => decide (i ≤ len) && (false || decide (i < len))) = some i) :
    i < len := by
  have hi := (Option.filter_eq_some_iff.1 h).2
  simp only [Bool.false_or, Bool.and_eq_true, decide_eq_true_eq] at hi
  exact hi.2

/-- The code's step on a list is the edit at the place that the operation names. -/
theorem editOnce_eq (items : List Json) (op : Json) : editOnce items op = listEdit items op := by
  unfold editOnce listEdit
  split
  · rename_i path hname hpath
    simp only [hname, hpath, parseArrayIndex_eq]
    cases listPosition path items.length with
    | none => rfl
    | some i =>
      by_cases hi : i ≤ items.length
      · cases op.member? "value" with
        | none => simp [hi, editAt, Option.filter_some]
        | some v => simp [hi, editAt, take_drop_insertIdx hi, Option.filter_some]
      · simp [hi]
  · rename_i path hname hpath
    simp only [hname, hpath, parseArrayIndex_eq]
    rw [editAt_item (by decide)]
    cases hi : (listPosition path items.length).filter _ with
    | none => rfl
    | some i =>
      have hlt := lt_of_listed hi
      simp only [Option.bind_eq_bind, Option.bind_some, List.drop_eq_getElem_cons hlt]
      rw [List.eraseIdx_eq_take_drop_succ]
      rfl
  · rename_i path hname hpath
    simp only [hname, hpath, parseArrayIndex_eq]
    rw [editAt_item (by decide)]
    cases hi : (listPosition path items.length).filter _ with
    | none => rfl
    | some i =>
      have hlt := lt_of_listed hi
      simp only [Option.bind_eq_bind, Option.bind_some, List.drop_eq_getElem_cons hlt]
      cases op.member? "value" with
      | none => rfl
      | some v =>
        rw [Option.bind_some, List.set_eq_take_append_cons_drop, if_pos hlt]
        rfl
  · rename_i path hname hpath
    simp only [hname, hpath, parseArrayIndex_eq]
    rw [editAt_item (by decide)]
    cases hi : (listPosition path items.length).filter _ with
    | none => rfl
    | some i =>
      have hlt := lt_of_listed hi
      simp only [Option.bind_eq_bind, Option.bind_some, List.drop_eq_getElem_cons hlt,
        List.getElem?_eq_getElem hlt]
      cases op.member? "value" with
      | none => rfl
      | some v =>
        rw [Option.bind_some]
        simp [editAt]
  · rename_i hadd hremove hreplace htest
    cases hname : op.member? "op" with
    | none => rfl
    | some opName =>
      cases opName with
      | string name =>
        cases hpath : op.member? "path" with
        | none => rfl
        | some opPath =>
          cases opPath with
          | string path =>
            have hn (known : String) (h : ∀ path, op.member? "op" = some (.string known) →
                op.member? "path" = some (.string path) → False) : name ≠ known := by
              intro he
              rw [he] at hname
              exact h path hname hpath
            have hedit (value : Option Json) (before after : List Json) :
                editAt name value before after = none := by
              simp only [editAt, hn "add" hadd, hn "remove" hremove, hn "replace" hreplace,
                hn "test" htest, if_false]
              cases after <;> rfl
            simp only [hedit]
            cases listPosition path items.length <;> simp
          | _ => rfl
      | _ => rfl

end operations

section runs

theorem yields_duplicate (v : Json) : Yields (Json.duplicate (some v)) (some v) :=
  yields_allocated v

/-- What the check of a patch asks of one operation. -/
def opWellFormed (op : Json) : Bool :=
  match op.member? "op", op.member? "path" with
  | some (.string name), some (.string _) =>
    if name = "add" ∨ name = "replace" ∨ name = "test" then (op.member? "value").isSome
    else if name = "move" ∨ name = "copy" then
      ((op.member? "from").bind Json.string?).isSome
    else name == "remove"
  | _, _ => false

theorem patchOpValid_eq (op : Json) : patchOpValid op = pure (opWellFormed op) := by
  unfold patchOpValid opWellFormed
  by_cases h : op.isObject = true
  · simp only [if_pos h, Json.getObjectItem_of_lookable (Json.lookable_of_isObject h), pure_bind]
    cases op.member? "op" with
    | none => rfl
    | some opName =>
      cases opName with
      | string name =>
        cases op.member? "path" with
        | none => rfl
        | some path =>
          cases path with
          | string path =>
            dsimp only
            split_ifs <;> rfl
          | _ => rfl
      | _ => rfl
  · simp only [if_neg h, member?_of_not_isObject h]

theorem patchOpsValid_eq (ops : List Json) : patchOpsValid ops = pure (ops.all opWellFormed) := by
  induction ops with
  | nil => rfl
  | cons op ops ih =>
    unfold patchOpsValid
    rw [patchOpValid_eq, pure_bind, List.all_cons]
    cases opWellFormed op with
    | true => exact ih
    | false => rfl

theorem editAt_name {name : String} {value : Option Json} {before after items : List Json}
    (h : editAt name value before after = some items) :
    name = "remove" ∨ (name = "add" ∨ name = "replace" ∨ name = "test") ∧ value.isSome = true := by
  unfold editAt at h
  cases value with
  | none =>
    cases after with
    | nil => simp at h
    | cons item after =>
      by_cases hremove : name = "remove"
      · exact Or.inl hremove
      · simp [hremove] at h
  | some v =>
    by_cases hadd : name = "add"
    · exact Or.inr ⟨Or.inl hadd, rfl⟩
    · cases after with
      | nil => simp [hadd] at h
      | cons item after =>
        simp only [hadd, if_false] at h
        split_ifs at h with hremove hreplace htest
        · exact Or.inl hremove
        · exact Or.inr ⟨Or.inr (Or.inl hreplace), rfl⟩
        · exact Or.inr ⟨Or.inr (Or.inr htest), rfl⟩

/-- An operation that edits a list passed the check before. -/
theorem opWellFormed_of_edits {items items' : List Json} {op : Json}
    (h : listEdit items op = some items') : opWellFormed op = true := by
  unfold listEdit at h
  unfold opWellFormed
  split at h
  · rename_i name path hname hpath
    obtain ⟨i, -, h⟩ := Option.bind_eq_some_iff.1 h
    split_ifs at h with hi
    rcases editAt_name h with rfl | ⟨hedits, hvalue⟩
    · simp
    · simp only [hedits, hvalue, if_true]
  · cases h

theorem yields_availabilityApplyOneOp (items : List Json) {op : Json}
    (h : opWellFormed op = true) :
    Yields (availabilityApplyOneOp items op) (listEdit items op) := by
  have hobject : op.isObject = true := by
    by_contra hobject
    simp only [opWellFormed, member?_of_not_isObject hobject] at h
    cases h
  rw [← editOnce_eq]
  unfold availabilityApplyOneOp editOnce
  simp only [Json.getObjectItem_of_lookable (Json.lookable_of_isObject hobject), pure_bind]
  split
  · rename_i path hname hpath
    simp only [hname, hpath]
    cases parseArrayIndex path items.length true with
    | none => exact yields_pure none
    | some i =>
      cases hvalue : op.member? "value" with
      | none =>
        exact yields_pure none
      | some v =>
        exact Yields.bind (yields_duplicate v) (yields_pure _)
  · rename_i path hname hpath
    simp only [hname, hpath]
    cases parseArrayIndex path items.length false with
    | none => exact yields_pure none
    | some i => exact yields_pure _
  · rename_i path hname hpath
    simp only [hname, hpath]
    cases parseArrayIndex path items.length false with
    | none => exact yields_pure none
    | some i =>
      cases hvalue : op.member? "value" with
      | none => exact yields_pure none
      | some v => exact Yields.bind (yields_duplicate v) (yields_pure _)
  · rename_i path hname hpath
    simp only [hname, hpath]
    cases parseArrayIndex path items.length false with
    | none => exact yields_pure none
    | some i =>
      simp only [Option.bind_eq_bind, Option.bind_some]
      cases hitem : items[i]? with
      | none => exact yields_pure none
      | some item =>
        cases hvalue : op.member? "value" with
        | none => exact yields_pure none
        | some v => exact yields_pure _
  · rename_i name path hadd hremove hreplace htest hname hpath
    have hclash {known path' : String} (hno : ∀ p, name = known → path = .string p → False)
        (hop : op.member? "op" = some (.string known))
        (hp : op.member? "path" = some (.string path')) : False := by
      rw [hname] at hop
      rw [hpath] at hp
      cases hop
      cases hp
      exact hno _ rfl rfl
    split
    · rename_i hop hp
      exact (hclash hadd hop hp).elim
    · rename_i hop hp
      exact (hclash hremove hop hp).elim
    · rename_i hop hp
      exact (hclash hreplace hop hp).elim
    · rename_i hop hp
      exact (hclash htest hop hp).elim
    · exact yields_pure none
  · rename_i hnone
    exfalso
    unfold opWellFormed at h
    split at h
    · rename_i name path hname hpath
      exact hnone _ _ hname hpath
    · cases h

theorem yields_applyOps (items : List Json) {ops : List Json}
    (h : ops.all opWellFormed = true) :
    Yields (applyOps items ops) (ops.foldlM listEdit items) := by
  induction ops generalizing items with
  | nil => exact yields_pure _
  | cons op ops ih =>
    rw [List.all_cons, Bool.and_eq_true] at h
    refine Yields.bind (yields_availabilityApplyOneOp items h.1) ?_
    rw [List.foldlM_cons]
    cases listEdit items op with
    | none => exact yields_pure none
    | some next => exact ih next h.2

theorem wellFormed_of_fold {items items' : List Json} {ops : List Json}
    (h : ops.foldlM listEdit items = some items') : ops.all opWellFormed = true := by
  induction ops generalizing items with
  | nil => rfl
  | cons op ops ih =>
    rw [List.foldlM_cons] at h
    obtain ⟨next, hnext, h⟩ := Option.bind_eq_some_iff.1 h
    rw [List.all_cons, opWellFormed_of_edits hnext, ih h]
    rfl

theorem yields_memPatch_slices {r : AvailabilityRepo} (hr : r.Keyed) {id : String}
    {x : AvailabilityRecord} (hx : r.row? id = some x) (snssais : Json) :
    Yields (r.memPatch id none none (some snssais) none false false)
      (.done, r.withSlices id snssais) := by
  unfold AvailabilityRepo.memPatch
  cases h : r.indexOf id with
  | none => exact absurd hx (by simp [AvailabilityRepo.row?, findKey_eq_none_iff.2
      (AvailabilityRepo.indexOf_eq_none h)])
  | some i =>
    obtain ⟨y, hy, hid⟩ := AvailabilityRepo.indexOf_getElem h
    have hmod := modify_eq_updateKey hr hy fun y => { y with snssais := some snssais }
    rw [hid] at hmod
    refine Yields.bind (makes_recordCopy _).granted ?_
    rw [AvailabilityRepo.withSlices, ← hmod]
    exact yields_pure _

theorem yields_addItemToObject (obj : Json) (name : String) (v : Json) :
    Yields (obj.addItemToObject name (some v)) (obj.addItem name v) :=
  Yields.bind yields_alloc (yields_pure _)

theorem yields_makeAuthorizedInfo (snssais tai : Json) :
    Yields (makeAuthorizedInfo snssais (some tai) none)
      (some (.object [("authorizedNssaiAvailabilityData",
        .array [.object [("tai", tai), ("supportedSnssaiList", snssais)]])])) := by
  unfold makeAuthorizedInfo Json.createObject Json.createArray
  refine Yields.bind (yields_allocated _) (Yields.bind (yields_allocated _) ?_)
  refine Yields.bind yields_alloc (Yields.bind (yields_allocated _) ?_)
  have htai : Yields (addTai (.object []) (some tai)) (some (.object [("tai", tai)])) :=
    Yields.bind (yields_allocated tai) (Yields.bind (yields_addItemToObject _ _ _) (yields_pure _))
  refine Yields.bind htai (Yields.bind (yields_allocated snssais) ?_)
  exact Yields.bind (yields_addItemToObject _ _ _) (yields_pure _)

theorem yields_committedReply (wanted : Bool) (snssais : List Json) (tai : Json) :
    ∃ reply, reply.result = (if snssais = [] then .noContent else .ok) ∧
      Yields (committedReply wanted snssais tai none) reply := by
  unfold committedReply
  by_cases hempty : snssais = []
  · simp only [if_pos hempty]
    exact ⟨_, rfl, yields_pure _⟩
  · simp only [if_neg hempty]
    cases wanted with
    | false => exact ⟨_, rfl, yields_pure _⟩
    | true =>
      have hinfo := yields_makeAuthorizedInfo (.array snssais) tai
      exact ⟨⟨.ok, some _, ""⟩, rfl, Yields.bind hinfo (yields_pure _)⟩

end runs

section patch

variable {τ : Type}

/-- What a call relies on from the subscriber of the changes: it returns, and it leaves the
allocations of the caller alone. -/
def SeamReturns (seam : PublishSeam τ) : Prop :=
  ∀ ev t e, e.AllocOk → ∃ t' e', publishChange seam ev t e = .ok (t', e') ∧ e'.AllocOk

variable {seam : PublishSeam τ}

theorem commitPatch_done (hseam : SeamReturns seam) {r : AvailabilityRepo} (hr : r.Keyed)
    {nf : String} {x : AvailabilityRecord} (hx : r.row? nf = some x) (t : τ) (tai before : Json)
    (wanted : Bool) (items : List Json) {e : Env} (he : e.AllocOk) :
    ∃ reply t' e', commitPatch seam r t nf tai wanted before items e =
        .ok ((reply, r.withSlices nf (.array items), t'), e') ∧
      reply.result = if items = [] then .noContent else .ok := by
  obtain ⟨e₁, hpatch, hd₁⟩ := yields_memPatch_slices hr hx (.array items) e he
  obtain ⟨t', e₂, hpublish, he₂⟩ := hseam
    ⟨some nf, some tai, .patched, some before, some (.array items)⟩ t e₁ (hd₁.allocOk he)
  obtain ⟨reply, hresult, hreply⟩ := yields_committedReply wanted items tai
  obtain ⟨e₃, hreply, -⟩ := hreply e₂ he₂
  refine ⟨reply, t', e₃, ?_, hresult⟩
  unfold commitPatch
  rw [Prog.bind_of_ok hpatch]
  dsimp only
  rw [Prog.bind_of_ok hpublish, Prog.bind_of_ok hreply]
  rfl

/-- A patch commits the fold of its operations over the list of the record, or nothing. -/
theorem patch_folds_list (hseam : SeamReturns seam) {r : AvailabilityRepo} (hr : r.Keyed)
    {nf : String} (hnf : nfIdValid nf = true) {tai plmnId : Json} (htai : tai.isObject = true)
    (hplmn : tai.member? "plmnId" = some plmnId) (hobject : plmnId.isObject = true)
    {x : AvailabilityRecord} (hx : r.rowAt nf plmnId tai = some x) {items : List Json}
    (hitems : x.snssais = some (.array items)) (t : τ) (ops : List Json) (wanted : Bool)
    {e : Env} (he : e.AllocOk) :
    ∃ reply r' t' e',
      availabilityPatch seam r t (some nf) (some "application/json-patch+json") (some tai)
          (some (.array ops)) wanted e = .ok ((reply, r', t'), e') ∧
        (∀ items', ops.foldlM listEdit items = some items' →
          reply.result = (if items' = [] then .noContent else .ok) ∧
            r'.items = r.items.map fun y =>
              if y.id = nf then { y with snssais := some (.array items') } else y) ∧
        (ops.foldlM listEdit items = none → reply.result = .badRequest ∧ r' = r ∧ t' = t) := by
  have hrow : r.row? nf = some x := (Option.filter_eq_some_iff.1 hx).1
  have hcall : availabilityPatch seam r t (some nf) (some "application/json-patch+json") (some tai)
      (some (.array ops)) wanted = patchOps seam r t nf plmnId tai ops wanted := by
    unfold availabilityPatch
    simp only [Option.filter_some, hnf, htai, if_true, ne_eq, not_true_eq_false, if_false,
      Json.getObjectItem_of_lookable (Json.lookable_of_isObject htai), pure_bind, hplmn]
    cases plmnId with
    | object members => rfl
    | _ => cases hobject
  rw [hcall]
  unfold patchOps
  rw [patchOpsValid_eq, pure_bind]
  by_cases hvalid : ops.all opWellFormed = true
  · have hsnap := yields_readSnapshot hr nf plmnId tai
    rw [hx] at hsnap
    have hslices : x.slices = .array items := by
      unfold AvailabilityRecord.slices
      rw [hitems]
    obtain ⟨e₁, hsnap, hd₁⟩ := hsnap e he
    obtain ⟨e₂, hcopy, hd₂⟩ := yields_duplicate (.array items) e₁ (hd₁.allocOk he)
    obtain ⟨e₃, hedit, hd₃⟩ := yields_applyOps items hvalid e₂ (hd₂.allocOk (hd₁.allocOk he))
    have he₃ := hd₃.allocOk (hd₂.allocOk (hd₁.allocOk he))
    rw [if_pos hvalid, Prog.bind_of_ok hsnap]
    unfold patchSnapshot
    simp only [Option.map_some, Option.isSome_some, hslices, Bool.not_true, Bool.false_eq_true,
      if_false]
    rw [Prog.bind_of_ok hcopy]
    dsimp only
    rw [Prog.bind_of_ok hedit]
    cases ops.foldlM listEdit items with
    | none =>
      refine ⟨_, r, t, e₃, rfl, ?_, fun _ => ⟨rfl, rfl, rfl⟩⟩
      intro items' h
      cases h
    | some items' =>
      obtain ⟨reply, t', e', hcommit, hresult⟩ :=
        commitPatch_done hseam hr hrow t tai (.array items) wanted items' he₃
      refine ⟨reply, _, t', e', hcommit, ?_, fun h => by cases h⟩
      intro items'' h
      cases h
      exact ⟨hresult, rfl⟩
  · rw [if_neg hvalid]
    have hfold : ops.foldlM listEdit items = none := by
      cases hf : ops.foldlM listEdit items with
      | none => rfl
      | some items' => exact absurd (wellFormed_of_fold hf) hvalid
    refine ⟨_, r, t, e, rfl, ?_, fun _ => ⟨rfl, rfl, rfl⟩⟩
    intro items' h
    rw [hfold] at h
    cases h

def slicedRecord (ssts : List ℕ) : AvailabilityRecord :=
  replacementRecord "amf-1" (.object [("mcc", .string "001"), ("mnc", .string "01")])
    (sampleTai "000001") (ssts.map sampleSnssai) none

def sampleOp (name path : String) (sst : ℕ) : Json :=
  .object [("op", .string name), ("path", .string path), ("value", sampleSnssai sst)]

/-- The second and the third index count the item that the first operation put in front. -/
def shiftingOps : List Json :=
  [sampleOp "add" "/0" 3, sampleOp "remove" "/2" 0, sampleOp "test" "/1" 1]

theorem patch_folds_list_shifting : ∃ reply r' t' e',
    availabilityPatch (some fun ev evs => pure (ev :: evs)) ⟨[slicedRecord [1, 2]]⟩ []
        (some "amf-1") (some "application/json-patch+json") (some (sampleTai "000001"))
        (some (.array shiftingOps)) true Env.quiet = .ok ((reply, r', t'), e') ∧
      reply.result = .ok ∧ r'.items = [slicedRecord [3, 1]] := by
  have hseam : SeamReturns (τ := List ChangeEvent) (some fun ev evs => pure (ev :: evs)) :=
    fun ev evs e he => ⟨ev :: evs, e, rfl, he⟩
  have hfold : shiftingOps.foldlM listEdit ([1, 2].map sampleSnssai) =
      some ([3, 1].map sampleSnssai) := by decide +kernel
  have hrow : AvailabilityRepo.rowAt ⟨[slicedRecord [1, 2]]⟩ "amf-1"
      (.object [("mcc", .string "001"), ("mnc", .string "01")]) (sampleTai "000001") =
      some (slicedRecord [1, 2]) := by
    decide +kernel
  have hkeyed : AvailabilityRepo.Keyed ⟨[slicedRecord [1, 2]]⟩ := List.nodup_singleton _
  obtain ⟨reply, r', t', e', hrun, h⟩ := patch_folds_list hseam hkeyed
    (by decide) rfl rfl rfl hrow rfl [] shiftingOps true Env.allocOk_quiet
  obtain ⟨hresult, hitems⟩ := h.1 _ hfold
  exact ⟨reply, r', t', e', hrun, hresult, hitems⟩

end patch

end Nssf
