import Nssf.Base.KeyedList
import Nssf.Json.Print
import Nssf.Runtime.Allocating

/-! The in-memory repository of the slices each NF supports, one record for an NF. Rows are
written by the id of the NF and read by the PLMN and tracking area they were written for. -/

namespace Nssf

open Base Run

/-- The zeroed record that an array cleared by `calloc` starts with is the default one. -/
structure AvailabilityRecord where
  id : String := ""
  plmnId : Option Json := none
  tai : Option Json := none
  snssais : Option Json := none
  amfSetId : Option String := none
  reallocationIndication : Bool := false
  deriving DecidableEq, Inhabited

structure AvailabilityRepo where
  items : List AvailabilityRecord
  deriving DecidableEq

inductive RepoCode where
  | done
  | noRow
  | failed
  deriving DecidableEq, Repr

def recordCopy (src : AvailabilityRecord) : Run (Option AvailabilityRecord) := do
  match ← copyField src.plmnId with
  | none => return none
  | some plmnId =>
    match ← copyField src.tai with
    | none => return none
    | some tai =>
      match ← copyField src.snssais with
      | none => return none
      | some snssais =>
        match ← copyField src.amfSetId with
        | none => return none
        | some amfSetId =>
          return some ⟨src.id, plmnId, tai, snssais, amfSetId, src.reallocationIndication⟩

/-- Two trees are the same when they print the same text. -/
def Json.sameText : Option Json → Option Json → Bool
  | none, none => true
  | some a, some b => Json.printText a == Json.printText b
  | _, _ => false

def sameTexts : Option String → Option String → Bool
  | some a, some b => a == b
  | _, _ => false

/-- A text that cannot be allocated makes the trees unequal. -/
def jsonEqual (a b : Option Json) : Run Bool :=
  match a, b with
  | some a, some b => do
    let sa ← a.print
    let sb ← b.print
    return sameTexts sa sb
  | none, none => pure true
  | _, _ => pure false

namespace AvailabilityRepo

def newInmemory : AvailabilityRepo := ⟨[]⟩

def indexOf (r : AvailabilityRepo) (id : String) : Option ℕ :=
  r.items.findIdx? fun x => x.id == id

def isAt (plmnId tai : Option Json) (x : AvailabilityRecord) : Run Bool := do
  if ← jsonEqual x.plmnId plmnId then jsonEqual x.tai tai else return false

def countMatches (plmnId tai : Option Json) : List AvailabilityRecord → Run ℕ
  | [] => pure 0
  | x :: xs => do
    let hit ← isAt plmnId tai x
    let n ← countMatches plmnId tai xs
    return if hit then n + 1 else n

/-- The second pass compares again. It writes behind the array when it sees more matches
than the first pass did, and leaves zeroed records when it sees fewer. -/
def copyMatches (plmnId tai : Option Json) :
    ℕ → List AvailabilityRecord → Run (Option (List AvailabilityRecord))
  | room, [] => pure (some (List.replicate room {}))
  | room, x :: xs => do
    if ← isAt plmnId tai x then
      match room with
      | 0 => throw .outOfBounds
      | room + 1 =>
        match ← recordCopy x with
        | none => return none
        | some copy =>
          match ← copyMatches plmnId tai room xs with
          | none => return none
          | some copies => return some (copy :: copies)
    else copyMatches plmnId tai room xs

def memFindForPlmnTai (r : AvailabilityRepo) (plmnId tai : Option Json) :
    Run (Option (List AvailabilityRecord)) := do
  match ← countMatches plmnId tai r.items with
  | 0 => return some []
  | n + 1 => if ← alloc then copyMatches plmnId tai (n + 1) r.items else return none

def memUpsert (r : AvailabilityRepo) (x : AvailabilityRecord) :
    Run (Bool × AvailabilityRepo) := do
  match ← recordCopy x with
  | none => return (false, r)
  | some copy =>
    match r.indexOf x.id with
    | some i => return (true, ⟨r.items.set i copy⟩)
    | none => if ← alloc then return (true, ⟨r.items ++ [copy]⟩) else return (false, r)

/-- The copies are all made before the first field is written. -/
def memPatch (r : AvailabilityRepo) (id : String) (plmnId tai snssais : Option Json)
    (amfSetId : Option String) (setReallocation reallocationIndication : Bool) :
    Run (RepoCode × AvailabilityRepo) :=
  match r.indexOf id with
  | none => pure (.noRow, r)
  | some i => do
    match ← recordCopy ⟨id, plmnId, tai, snssais, amfSetId, reallocationIndication⟩ with
    | none => return (.failed, r)
    | some new =>
      return (.done, ⟨r.items.modify i fun cur =>
        { cur with
          plmnId := new.plmnId <|> cur.plmnId
          tai := new.tai <|> cur.tai
          snssais := new.snssais <|> cur.snssais
          amfSetId := new.amfSetId <|> cur.amfSetId
          reallocationIndication :=
            if setReallocation then reallocationIndication else cur.reallocationIndication }⟩)

/-- The last record moves into the hole. -/
def memDelete (r : AvailabilityRepo) (id : String) : RepoCode × AvailabilityRepo :=
  match r.indexOf id with
  | none => (.noRow, r)
  | some i => (.done, ⟨swapRemove r.items i⟩)

end AvailabilityRepo

theorem makes_recordCopy (x : AvailabilityRecord) : Makes (recordCopy x) x := by
  refine Makes.bind (makes_copyField x.plmnId) rfl ?_
  refine Makes.bind (makes_copyField x.tai) rfl ?_
  refine Makes.bind (makes_copyField x.snssais) rfl ?_
  exact Makes.bind (makes_copyField x.amfSetId) rfl (makes_pure x)

theorem yields_jsonEqual (a b : Option Json) : Yields (jsonEqual a b) (Json.sameText a b) := by
  match a, b with
  | none, none => exact yields_pure true
  | none, some _ => exact yields_pure false
  | some _, none => exact yields_pure false
  | some a, some b =>
    refine Yields.bind (yields_allocated (Json.printText a)) ?_
    refine Yields.bind (yields_allocated (Json.printText b)) ?_
    exact yields_pure _

theorem gives_jsonEqual {F : Fault → Prop} (a b : Option Json) :
    Gives F (fun _ => True) (jsonEqual a b) := by
  match a, b with
  | none, none => exact gives_pure trivial
  | none, some _ => exact gives_pure trivial
  | some _, none => exact gives_pure trivial
  | some a, some b =>
    refine Gives.bind (gives_allocated (Json.printText a)) fun sa _ => ?_
    refine Gives.bind (gives_allocated (Json.printText b)) fun sb _ => ?_
    exact gives_pure trivial

theorem Json.sameText_refl (a : Option Json) : Json.sameText a a = true := by
  cases a with
  | none => rfl
  | some a => exact beq_self_eq_true _

theorem Json.sameText_comm (a b : Option Json) : Json.sameText a b = Json.sameText b a := by
  cases a with
  | none => cases b <;> rfl
  | some a =>
    cases b with
    | none => rfl
    | some b => exact Bool.beq_comm

theorem Json.sameText_trans {a b c : Option Json} (h : Json.sameText a b = true)
    (h' : Json.sameText b c = true) : Json.sameText a c = true := by
  match a, b, c with
  | none, none, none => rfl
  | some a, some b, some c =>
    simp only [Json.sameText, beq_iff_eq] at h h' ⊢
    exact h.trans h'

namespace AvailabilityRepo

/-- The key a read compares. -/
def At (plmnId tai : Option Json) (x : AvailabilityRecord) : Bool :=
  Json.sameText x.plmnId plmnId && Json.sameText x.tai tai

def row? (r : AvailabilityRepo) (id : String) : Option AvailabilityRecord :=
  findKey AvailabilityRecord.id id r.items

/-- No two records have the same id. -/
def Keyed (r : AvailabilityRepo) : Prop := (r.items.map AvailabilityRecord.id).Nodup

/-- What a committed upsert leaves. -/
def put (r : AvailabilityRepo) (x : AvailabilityRecord) : AvailabilityRepo :=
  match r.indexOf x.id with
  | some i => ⟨r.items.set i x⟩
  | none => ⟨r.items ++ [x]⟩

/-- What a committed patch of the slices leaves. -/
def withSlices (r : AvailabilityRepo) (id : String) (snssais : Json) : AvailabilityRepo :=
  ⟨updateKey AvailabilityRecord.id id (fun x => { x with snssais := some snssais }) r.items⟩

theorem yields_isAt (plmnId tai : Option Json) (x : AvailabilityRecord) :
    Yields (isAt plmnId tai x) (At plmnId tai x) := by
  refine Yields.bind (yields_jsonEqual x.plmnId plmnId) ?_
  unfold At
  cases Json.sameText x.plmnId plmnId with
  | true => exact yields_jsonEqual x.tai tai
  | false => exact yields_pure false

theorem gives_isAt {F : Fault → Prop} (plmnId tai : Option Json) (x : AvailabilityRecord) :
    Gives F (fun _ => True) (isAt plmnId tai x) := by
  refine Gives.bind (gives_jsonEqual x.plmnId plmnId) fun b _ => ?_
  cases b with
  | true => exact gives_jsonEqual x.tai tai
  | false => exact gives_pure trivial

theorem yields_countMatches (plmnId tai : Option Json) (xs : List AvailabilityRecord) :
    Yields (countMatches plmnId tai xs) (xs.filter (At plmnId tai)).length := by
  induction xs with
  | nil => exact yields_pure 0
  | cons x xs ih =>
    refine Yields.bind (yields_isAt plmnId tai x) (Yields.bind ih ?_)
    rw [List.filter_cons]
    cases At plmnId tai x with
    | true => exact yields_pure _
    | false => exact yields_pure _

theorem gives_countMatches {F : Fault → Prop} (plmnId tai : Option Json)
    (xs : List AvailabilityRecord) : Gives F (fun _ => True) (countMatches plmnId tai xs) := by
  induction xs with
  | nil => exact gives_pure trivial
  | cons x xs ih =>
    refine Gives.bind (gives_isAt plmnId tai x) fun b _ => ?_
    exact Gives.bind ih fun n _ => gives_pure trivial

theorem yields_copyMatches (plmnId tai : Option Json) (xs : List AvailabilityRecord) :
    Yields (copyMatches plmnId tai (xs.filter (At plmnId tai)).length xs)
      (some (xs.filter (At plmnId tai))) := by
  induction xs with
  | nil => exact yields_pure _
  | cons x xs ih =>
    unfold copyMatches
    refine Yields.bind (yields_isAt plmnId tai x) ?_
    cases hx : At plmnId tai x with
    | true =>
      rw [List.filter_cons_of_pos hx]
      refine Yields.bind (makes_recordCopy x).granted ?_
      exact Yields.bind ih (yields_pure _)
    | false =>
      rw [List.filter_cons_of_neg (by rw [hx]; exact Bool.false_ne_true)]
      exact ih

/-- Every record that a read hands out is a stored one or one that was never filled in. -/
def Copied (xs : List AvailabilityRecord) (o : Option (List AvailabilityRecord)) : Prop :=
  ∀ ys, o = some ys → ∀ y ∈ ys, y ∈ xs ∨ y = {}

theorem copied_none (xs : List AvailabilityRecord) : Copied xs none := by
  intro ys h
  cases h

theorem gives_copyMatches (plmnId tai : Option Json) (xs : List AvailabilityRecord) (n : ℕ) :
    Gives (fun x => x = .outOfBounds) (Copied xs) (copyMatches plmnId tai n xs) := by
  induction xs generalizing n with
  | nil =>
    refine gives_pure fun ys h y hy => Or.inr ?_
    cases h
    exact List.eq_of_mem_replicate hy
  | cons x xs ih =>
    unfold copyMatches
    refine Gives.bind (gives_isAt plmnId tai x) fun b _ => ?_
    have hmore {o : Option (List AvailabilityRecord)} (h : Copied xs o) : Copied (x :: xs) o :=
      fun ys hys y hy => (h ys hys y hy).imp_left (List.mem_cons_of_mem x)
    cases b with
    | false => exact (ih n).mono (fun _ => hmore) fun _ h => h
    | true =>
      cases n with
      | zero => exact gives_throw rfl
      | succ n =>
        refine Gives.bind ((makes_recordCopy x).gives _) fun o ho => ?_
        rcases ho with rfl | rfl
        · exact gives_pure (copied_none _)
        · refine Gives.bind (ih n) fun o ho => ?_
          cases o with
          | none => exact gives_pure (copied_none _)
          | some copies =>
            refine gives_pure fun ys h y hy => ?_
            cases h
            rcases List.mem_cons.1 hy with rfl | hy
            · exact Or.inl List.mem_cons_self
            · exact hmore ho copies rfl y hy

theorem yields_memFindForPlmnTai (r : AvailabilityRepo) (plmnId tai : Option Json) :
    Yields (r.memFindForPlmnTai plmnId tai) (some (r.items.filter (At plmnId tai))) := by
  refine Yields.bind (yields_countMatches plmnId tai r.items) ?_
  have hcopy := yields_copyMatches plmnId tai r.items
  cases hl : (r.items.filter (At plmnId tai)).length with
  | zero =>
    rw [List.length_eq_zero_iff] at hl
    rw [hl]
    exact yields_pure _
  | succ n =>
    rw [hl] at hcopy
    exact Yields.bind yields_alloc hcopy

theorem gives_memFindForPlmnTai (r : AvailabilityRepo) (plmnId tai : Option Json) :
    Gives (fun x => x = .outOfBounds) (Copied r.items) (r.memFindForPlmnTai plmnId tai) := by
  refine Gives.bind (gives_countMatches plmnId tai r.items) fun n _ => ?_
  cases n with
  | zero =>
    refine gives_pure fun ys h y hy => ?_
    cases h
    cases hy
  | succ n =>
    refine Gives.bind gives_alloc fun b _ => ?_
    cases b with
    | false => exact gives_pure (copied_none _)
    | true => exact gives_copyMatches plmnId tai r.items (n + 1)

theorem gives_memUpsert {F : Fault → Prop} (r : AvailabilityRepo) (x : AvailabilityRecord) :
    Gives F (fun o => o = (false, r) ∨ o = (true, r.put x)) (r.memUpsert x) := by
  refine Gives.bind ((makes_recordCopy x).gives _) fun o ho => ?_
  rcases ho with rfl | rfl
  · exact gives_pure (Or.inl rfl)
  · unfold put
    cases r.indexOf x.id with
    | some i => exact gives_pure (Or.inr rfl)
    | none =>
      refine Gives.bind gives_alloc fun b _ => ?_
      cases b with
      | false => exact gives_pure (Or.inl rfl)
      | true => exact gives_pure (Or.inr rfl)

theorem yields_memUpsert (r : AvailabilityRepo) (x : AvailabilityRecord) :
    Yields (r.memUpsert x) (true, r.put x) := by
  refine Yields.bind (makes_recordCopy x).granted ?_
  unfold put
  cases r.indexOf x.id with
  | some i => exact yields_pure _
  | none => exact Yields.bind yields_alloc (yields_pure _)

theorem indexOf_getElem {r : AvailabilityRepo} {id : String} {i : ℕ}
    (h : r.indexOf id = some i) : ∃ x, r.items[i]? = some x ∧ x.id = id := by
  unfold indexOf at h
  rw [List.findIdx?_eq_some_iff_getElem] at h
  obtain ⟨hi, hx, -⟩ := h
  exact ⟨r.items[i], List.getElem?_eq_getElem hi, by simpa using hx⟩

theorem indexOf_eq_none {r : AvailabilityRepo} {id : String} (h : r.indexOf id = none) :
    ∀ x ∈ r.items, x.id ≠ id := by
  unfold indexOf at h
  rw [List.findIdx?_eq_none_iff] at h
  intro x hx
  simpa using h x hx

theorem row?_put (r : AvailabilityRepo) (x : AvailabilityRecord) (id : String) :
    (r.put x).row? id = if id = x.id then some x else r.row? id := by
  unfold put row?
  cases h : r.indexOf x.id with
  | some i => exact findKey_set_findIdx rfl h
  | none => exact findKey_append_singleton (indexOf_eq_none h)

theorem Keyed.put {r : AvailabilityRepo} (hr : r.Keyed) (x : AvailabilityRecord) :
    (r.put x).Keyed := by
  unfold Keyed AvailabilityRepo.put
  cases h : r.indexOf x.id with
  | some i =>
    obtain ⟨y, hy, hid⟩ := indexOf_getElem h
    have hmap : (r.items.set i x).map AvailabilityRecord.id =
        r.items.map AvailabilityRecord.id := by
      apply map_key_set
      rw [hy, Option.map_some, hid]
    simp only [hmap]
    exact hr
  | none =>
    simp only [List.map_append, List.map_cons, List.map_nil]
    rw [List.nodup_append]
    refine ⟨hr, List.nodup_singleton _, ?_⟩
    intro a ha b hb hab
    rw [List.mem_singleton] at hb
    obtain ⟨y, hy, rfl⟩ := List.mem_map.1 ha
    exact indexOf_eq_none h y hy (hab.trans hb)

/-- A delete takes the one record of the id, whatever it moves. -/
theorem memDelete_cases (r : AvailabilityRepo) (hr : r.Keyed) (id : String) :
    (r.memDelete id = (.noRow, r) ∧ r.row? id = none) ∨
      ∃ r' x, r.memDelete id = (.done, r') ∧ r.row? id = some x ∧ r'.Keyed ∧
        ∀ m, r'.row? m = if m = id then none else r.row? m := by
  unfold memDelete
  cases h : r.indexOf id with
  | none =>
    refine Or.inl ⟨rfl, ?_⟩
    exact findKey_eq_none_iff.2 (indexOf_eq_none h)
  | some i =>
    obtain ⟨x, hx, hid⟩ := indexOf_getElem h
    refine Or.inr ⟨⟨swapRemove r.items i⟩, x, rfl, ?_, nodup_swapRemove hr hx, ?_⟩
    · exact (findKey_eq_some_iff hr).2 ⟨List.mem_of_getElem? hx, hid⟩
    · intro m
      rw [← hid]
      exact findKey_swapRemove hr hx

theorem gives_memPatch_slices {F : Fault → Prop} (r : AvailabilityRepo) (hr : r.Keyed)
    (id : String) (snssais : Json) :
    Gives F (fun o => o.2 = r ∧ o.1 ≠ .done ∨ o = (.done, r.withSlices id snssais))
      (r.memPatch id none none (some snssais) none false false) := by
  unfold memPatch
  cases h : r.indexOf id with
  | none => exact gives_pure (Or.inl ⟨rfl, by simp⟩)
  | some i =>
    refine Gives.bind ((makes_recordCopy _).gives _) fun o ho => ?_
    rcases ho with rfl | rfl
    · exact gives_pure (Or.inl ⟨rfl, by simp⟩)
    · obtain ⟨x, hx, hid⟩ := indexOf_getElem h
      have hmod := modify_eq_updateKey hr hx fun x => { x with snssais := some snssais }
      rw [hid] at hmod
      refine gives_pure (Or.inr ?_)
      rw [withSlices, ← hmod]
      rfl

theorem row?_withSlices (r : AvailabilityRepo) (id : String) (snssais : Json) (m : String) :
    (r.withSlices id snssais).row? m =
      if m = id then (r.row? m).map fun x => { x with snssais := some snssais }
      else r.row? m :=
  findKey_updateKey fun _ => rfl

theorem Keyed.withSlices {r : AvailabilityRepo} (hr : r.Keyed) (id : String) (snssais : Json) :
    (r.withSlices id snssais).Keyed := by
  have hmap : (r.withSlices id snssais).items.map AvailabilityRecord.id =
      r.items.map AvailabilityRecord.id :=
    map_key_updateKey fun _ => rfl
  unfold Keyed
  rw [hmap]
  exact hr

theorem mem_items_iff {r : AvailabilityRepo} (hr : r.Keyed) {x : AvailabilityRecord} :
    x ∈ r.items ↔ r.row? x.id = some x := by
  unfold row?
  rw [findKey_eq_some_iff hr]
  simp

end AvailabilityRepo

end Nssf
