import Nssf.Subscription.PatchCommit

/-! What the operations of a patch write to one member of the resource. An operation below a
member leaves an object there, so a value of another kind comes from an operation on the member
itself. -/

namespace Nssf

open Base Run

namespace Json

section free

variable {name : String} {Bad : Json → Prop} {j : Json}

/-- No member of the name at the top of the tree is bad. -/
def Free (name : String) (Bad : Json → Prop) (j : Json) : Prop :=
  ∀ ms, j = .object ms → ∀ v, (name, v) ∈ ms → ¬Bad v

theorem Free.member? (h : Free name Bad j) {v : Json} (hv : j.member? name = some v) :
    ¬Bad v := by
  cases j with
  | object ms =>
    obtain ⟨m, hm, rfl⟩ := Option.map_eq_some_iff.1 hv
    have hkey : m.1 = name := by simpa using List.find?_some hm
    have hmem := List.mem_of_find?_eq_some hm
    rw [← Prod.mk.eta (p := m), hkey] at hmem
    exact h ms rfl m.2 hmem
  | _ => cases hv

theorem Free.deleteItem (h : Free name Bad j) (key : String) :
    Free name Bad (j.deleteItem key) := by
  cases j with
  | object ms =>
    intro ns hns v hv
    cases hns
    exact h ms rfl v (List.mem_of_mem_eraseP hv)
  | _ => exact h

theorem Free.addItem (h : Free name Bad j) {key : String} {v : Json}
    (hv : key = name → ¬Bad v) : Free name Bad (j.addItem key v) := by
  cases j with
  | object ms =>
    intro ns hns w hw
    cases hns
    rcases List.mem_append.1 hw with hw | hw
    · exact h ms rfl w hw
    · cases List.mem_singleton.1 hw
      exact hv rfl
  | _ => exact h

theorem mem_updateMember {k l : String} {f : Json → Json} {ms : List (String × Json)} {v : Json}
    (h : (l, v) ∈ updateMember k f ms) : (l, v) ∈ ms ∨ ∃ w, (l, w) ∈ ms ∧ v = f w := by
  induction ms with
  | nil => cases h
  | cons m ms ih =>
    obtain ⟨key, u⟩ := m
    simp only [updateMember] at h
    split_ifs at h with hk
    · rcases List.mem_cons.1 h with h | h
      · cases h
        exact Or.inr ⟨u, List.mem_cons_self, rfl⟩
      · exact Or.inl (List.mem_cons_of_mem _ h)
    · rcases List.mem_cons.1 h with h | h
      · cases h
        exact Or.inl List.mem_cons_self
      · rcases ih h with h | ⟨w, hw, hv⟩
        · exact Or.inl (List.mem_cons_of_mem _ h)
        · exact Or.inr ⟨w, List.mem_cons_of_mem _ hw, hv⟩

/-- A change that leaves everything but objects alone. -/
def Shallow (f : Json → Json) : Prop := ∀ j, f j = j ∨ (f j).isObject = true

theorem shallow_deleteItem (key : String) : Shallow (·.deleteItem key) := by
  intro j
  cases j with
  | object ms => exact Or.inr rfl
  | _ => exact Or.inl rfl

theorem shallow_addItem (key : String) (v : Json) : Shallow (·.addItem key v) := by
  intro j
  cases j with
  | object ms => exact Or.inr rfl
  | _ => exact Or.inl rfl

theorem Shallow.modifyAt {f : Json → Json} (hf : Shallow f) (path : List String) :
    Shallow (Json.modifyAt f path) := by
  intro j
  cases path with
  | nil => exact hf j
  | cons k path =>
    cases j with
    | object ms => exact Or.inr rfl
    | _ => exact Or.inl rfl

/-- A change below a member. -/
theorem Free.modifyAt_cons (hBad : ∀ ms, ¬Bad (.object ms)) (h : Free name Bad j)
    {f : Json → Json} (hf : Shallow f) (k : String) (path : List String) :
    Free name Bad (Json.modifyAt f (k :: path) j) := by
  cases j with
  | object ms =>
    intro ns hns v hv
    cases hns
    rcases mem_updateMember hv with hv | ⟨w, hw, rfl⟩
    · exact h ms rfl v hv
    · rcases hf.modifyAt path w with heq | hobj
      · rw [heq]
        exact h ms rfl w hw
      · cases hm : Json.modifyAt f path w with
        | object ns => exact hBad ns
        | _ =>
          rw [hm] at hobj
          cases hobj
  | _ => exact h

end free

end Json

namespace Subscription

/-- The address that a pointer spells. -/
def pointerPath (pointer : String) : Option (List String) :=
  match pointer.toList with
  | '/' :: tail => some ((tail.splitOn '/').map fun seg => String.ofList (unescape seg))
  | _ => none

theorem walkPointer_path {walked : List String} {cur : Json} (segs : List (List Char)) {e e' : Env}
    {s : Slot} (h : walkPointer walked cur segs e = .ok (some s, e')) :
    s.path = walked ++ segs.map fun seg => String.ofList (unescape seg) := by
  induction segs generalizing walked cur e with
  | nil => cases h
  | cons seg segs ih =>
    obtain ⟨o, e₁, halloc, h⟩ := Prog.bind_eq_ok.1 h
    rcases ((gives_allocated (F := fun _ => False) _).of_ok halloc).1 with rfl | rfl
    · cases h
    · cases segs with
      | nil =>
        cases h
        rfl
      | cons seg' segs =>
        obtain ⟨o, e₂, -, h⟩ := Prog.bind_eq_ok.1 h
        split at h
        · rw [ih h, List.append_assoc]
          rfl
        · cases h

theorem resolvePointerParent_path {tree : Json} {pointer : String} {e e' : Env} {s : Slot}
    (h : resolvePointerParent tree pointer e = .ok (some s, e')) :
    pointerPath pointer = some s.path := by
  unfold resolvePointerParent at h
  unfold pointerPath
  generalize pointer.toList = cs at h ⊢
  split
  · rw [walkPointer_path _ h]
    rfl
  · rename_i hno
    split at h
    · exact (hno _ rfl).elim
    · cases h

/-- The value that an operation stores at its target: its own, or that of its source. -/
def writtenValue (tree op : Json) : Option Json :=
  match op.member? "op" with
  | some (.string name) =>
    if name = "add" ∨ name = "replace" then op.member? "value"
    else if name = "copy" ∨ name = "move" then
      match op.member? "from" with
      | some (.string pointer) => (pointerPath pointer).bind fun path => tree.atPath path
      | _ => none
    else none
  | _ => none

/-- The operation would store a bad value as the member of the name. -/
def Writes (name : String) (Bad : Json → Prop) (tree op : Json) : Prop :=
  ∃ pointer v, op.member? "path" = some (.string pointer) ∧ pointerPath pointer = some [name] ∧
    writtenValue tree op = some v ∧ Bad v

section free

variable {name : String} {Bad : Json → Prop} {tree op : Json} {e e' : Env}

theorem free_delete (hBad : ∀ ms, ¬Bad (.object ms)) (h : tree.Free name Bad) (s : Slot) :
    (tree.modifyAt (·.deleteItem s.key) s.container).Free name Bad := by
  cases hc : s.container with
  | nil => exact h.deleteItem s.key
  | cons k path => exact h.modifyAt_cons hBad (Json.shallow_deleteItem s.key) k path

theorem free_storeAt (hBad : ∀ ms, ¬Bad (.object ms)) (h : tree.Free name Bad) {s : Slot}
    {v : Json} (hv : s.path = [name] → ¬Bad v) {tree' : Json}
    (hrun : storeAt tree s v e = .ok (tree', e')) : tree'.Free name Bad := by
  obtain ⟨b, e₁, -, hrun⟩ := Prog.bind_eq_ok.1 hrun
  have hkept := free_delete hBad h s
  cases b with
  | false =>
    cases hrun
    exact hkept
  | true =>
    cases hrun
    cases hc : s.container with
    | nil =>
      rw [hc] at hkept
      refine hkept.addItem ?_
      intro hkey
      apply hv
      rw [Slot.path, hc, hkey]
      rfl
    | cons k path =>
      rw [hc] at hkept
      exact hkept.modifyAt_cons hBad (Json.shallow_addItem s.key v) k path

theorem free_copyFrom (hBad : ∀ ms, ¬Bad (.object ms)) (h : tree.Free name Bad)
    {source target : Slot} (hs : source.In tree)
    (hv : target.path = [name] → ∀ v, tree.atPath source.path = some v → ¬Bad v) {isMove : Bool}
    {tree' : Json} (hrun : copyFrom tree source target isMove e = .ok (some tree', e')) :
    tree'.Free name Bad := by
  unfold copyFrom at hrun
  rw [lookupSlot_eq hs, pure_bind] at hrun
  cases hsrc : tree.atPath source.path with
  | none =>
    rw [hsrc] at hrun
    cases hrun
  | some src =>
    rw [hsrc] at hrun
    obtain ⟨o, e₁, halloc, hrun⟩ := Prog.bind_eq_ok.1 hrun
    rcases ((gives_allocated (F := fun _ => False) src).of_ok halloc).1 with rfl | rfl
    · cases hrun
    obtain ⟨stored, e₂, hmove, hrun⟩ := Prog.bind_eq_ok.1 hrun
    cases hrun
    have hsrc' := fun hpath => hv hpath src hsrc
    unfold moveOrCopy at hmove
    split_ifs at hmove with hm hfree
    · cases hmove
    · exact free_storeAt hBad (free_delete hBad h source) hsrc' hmove
    · exact free_storeAt hBad h hsrc' hmove

theorem free_applyWrite (hBad : ∀ ms, ¬Bad (.object ms)) (h : tree.Free name Bad)
    (ho : op.Lookable) {target : Slot}
    (hv : target.path = [name] → ∀ v, op.member? "value" = some v → ¬Bad v) {mustExist : Bool}
    {tree' : Json} (hrun : applyWrite tree op target mustExist e = .ok (some tree', e')) :
    tree'.Free name Bad := by
  unfold applyWrite at hrun
  rw [Json.getObjectItem_of_lookable ho, pure_bind] at hrun
  cases hvalue : op.member? "value" with
  | none =>
    rw [hvalue] at hrun
    cases hrun
  | some value =>
    rw [hvalue] at hrun
    obtain ⟨there, e₁, -, hrun⟩ := Prog.bind_eq_ok.1 hrun
    cases there with
    | false => cases hrun
    | true =>
      obtain ⟨o, e₂, halloc, hrun⟩ := Prog.bind_eq_ok.1 hrun
      rcases ((gives_allocated (F := fun _ => False) value).of_ok halloc).1 with rfl | rfl
      · cases hrun
      obtain ⟨stored, e₃, hstore, hrun⟩ := Prog.bind_eq_ok.1 hrun
      cases hrun
      exact free_storeAt hBad h (fun hp => hv hp value hvalue) hstore

theorem free_applyRemove (hBad : ∀ ms, ¬Bad (.object ms)) (h : tree.Free name Bad)
    {target : Slot} {tree' : Json} (hrun : applyRemove tree target e = .ok (some tree', e')) :
    tree'.Free name Bad := by
  obtain ⟨o, e₁, -, hrun⟩ := Prog.bind_eq_ok.1 hrun
  cases o with
  | none => cases hrun
  | some old =>
    cases hrun
    exact free_delete hBad h target

theorem free_applyCopy (hBad : ∀ ms, ¬Bad (.object ms)) (hr : tree.isObject = true)
    (h : tree.Free name Bad) (ho : op.Lookable) {target : Slot}
    (hv : target.path = [name] → ∀ pointer path v, op.member? "from" = some (.string pointer) →
      pointerPath pointer = some path → tree.atPath path = some v → ¬Bad v) {isMove : Bool}
    {tree' : Json} (hrun : applyCopy tree op target isMove e = .ok (some tree', e')) :
    tree'.Free name Bad := by
  unfold applyCopy at hrun
  rw [Json.getObjectItem_of_lookable ho, pure_bind] at hrun
  cases hfrom : op.member? "from" with
  | none =>
    rw [hfrom] at hrun
    cases hrun
  | some v =>
    rw [hfrom] at hrun
    cases v with
    | string pointer =>
      obtain ⟨o, e₁, hresolve, hrun⟩ := Prog.bind_eq_ok.1 hrun
      cases o with
      | none => cases hrun
      | some source =>
        have hs := ((gives_resolvePointerParent (F := fun _ => False) hr pointer).of_ok
          hresolve).1 source rfl
        refine free_copyFrom hBad h hs (fun hp v hsrc => ?_) hrun
        exact hv hp pointer source.path v hfrom (resolvePointerParent_path hresolve) hsrc
    | _ => cases hrun

theorem applyTest_eq {target : Slot} {tree' : Json}
    (hrun : applyTest tree op target e = .ok (some tree', e')) : tree' = tree := by
  obtain ⟨value, e₁, -, hrun⟩ := Prog.bind_eq_ok.1 hrun
  obtain ⟨found, e₂, -, hrun⟩ := Prog.bind_eq_ok.1 hrun
  cases value with
  | none => cases hrun
  | some value =>
    cases found with
    | none => cases hrun
    | some found =>
      dsimp only at hrun
      split_ifs at hrun with hcmp
      · cases hrun
        rfl
      · cases hrun

theorem free_applyAt (hBad : ∀ ms, ¬Bad (.object ms)) (hr : tree.isObject = true)
    (h : tree.Free name Bad) (ho : op.Lookable) {action : String}
    (haction : op.member? "op" = some (.string action)) {target : Slot}
    (hv : target.path = [name] → ∀ v, writtenValue tree op = some v → ¬Bad v) {tree' : Json}
    (hrun : applyAt tree op action target e = .ok (some tree', e')) : tree'.Free name Bad := by
  unfold writtenValue at hv
  rw [haction] at hv
  unfold applyAt at hrun
  by_cases hwrite : action = "add" ∨ action = "replace"
  · simp only [hwrite, if_true] at hrun hv
    exact free_applyWrite hBad h ho hv hrun
  simp only [hwrite, if_false] at hrun hv
  by_cases hremove : action = "remove"
  · simp only [hremove, if_true] at hrun
    exact free_applyRemove hBad h hrun
  simp only [hremove, if_false] at hrun
  by_cases hcopy : action = "copy" ∨ action = "move"
  · simp only [hcopy, if_true] at hrun hv
    refine free_applyCopy hBad hr h ho (fun hp pointer path v hfrom hpath hsrc => ?_) hrun
    apply hv hp
    rw [hfrom]
    dsimp only
    rw [hpath]
    exact hsrc
  simp only [hcopy, if_false] at hrun
  split_ifs at hrun with htest
  · rw [applyTest_eq hrun]
    exact h
  · cases hrun

/-- An operation brings in a bad member only by writing one to the member itself. -/
theorem free_applyOneOp (hBad : ∀ ms, ¬Bad (.object ms)) (hr : tree.isObject = true)
    (h : tree.Free name Bad) (hw : ¬Writes name Bad tree op) {tree' : Json}
    (hrun : applyOneOp tree op e = .ok (some tree', e')) : tree'.Free name Bad := by
  have ho : op.Lookable := ((applyOneOp_returns_iff hr op).1 ⟨_, hrun⟩).1
  obtain hnone | ⟨action, pointer, haction, hpointer, heq⟩ := applyOneOp_cases tree ho
  · rw [hnone] at hrun
    cases hrun
  rw [heq] at hrun
  obtain ⟨o, e₁, hresolve, hrun⟩ := Prog.bind_eq_ok.1 hrun
  cases o with
  | none => cases hrun
  | some target =>
    refine free_applyAt hBad hr h ho haction (fun hp v hv hbad => hw ?_) hrun
    exact ⟨pointer, v, hpointer, by rw [resolvePointerParent_path hresolve, hp], hv, hbad⟩

theorem free_addOptionalString (h : tree.Free name Bad) {key : String} {value : Option String}
    (hv : key = name → ∀ text, value = some text → ¬Bad (.string text)) {tree' : Json}
    (hrun : addOptionalString tree key value e = .ok (tree', e')) : tree'.Free name Bad := by
  cases value with
  | none =>
    cases hrun
    exact h
  | some text =>
    obtain ⟨b, e₁, -, hrun⟩ := Prog.bind_eq_ok.1 hrun
    cases b with
    | false =>
      cases hrun
      exact h
    | true =>
      cases hrun
      exact h.addItem fun hk => hv hk text rfl

theorem free_addFilter (h : tree.Free name Bad) {filter : Option Json}
    (hv : "filter" = name → ∀ v, filter = some v → ¬Bad v) {tree' : Json}
    (hrun : addFilter tree filter e = .ok (some tree', e')) : tree'.Free name Bad := by
  cases filter with
  | none =>
    cases hrun
    exact h
  | some v =>
    obtain ⟨o, e₁, halloc, hrun⟩ := Prog.bind_eq_ok.1 hrun
    rcases ((gives_allocated (F := fun _ => False) v).of_ok halloc).1 with rfl | rfl
    · cases hrun
    obtain ⟨added, e₂, hadd, hrun⟩ := Prog.bind_eq_ok.1 hrun
    cases hrun
    obtain ⟨b, e₃, -, hadd⟩ := Prog.bind_eq_ok.1 hadd
    cases b with
    | false =>
      cases hadd
      exact h
    | true =>
      cases hadd
      exact h.addItem fun hk => hv hk v rfl

/-- The working tree starts without a bad member if the record has none. -/
theorem free_buildResource {x : SubscriptionRecord}
    (hcb : "callbackUri" = name → ∀ text, x.callbackUri = some text → ¬Bad (.string text))
    (hfl : "filter" = name → ∀ v, x.filter = some v → ¬Bad v)
    (hex : "expiry" = name → ∀ text, x.expiryAt = some text → ¬Bad (.string text))
    (hrun : buildResource x e = .ok (some tree, e')) : tree.Free name Bad := by
  have hempty : (Json.object []).Free name Bad := by
    intro ms hms v hv
    cases hms
    cases hv
  obtain ⟨o, e₁, halloc, hrun⟩ := Prog.bind_eq_ok.1 hrun
  rcases ((gives_allocated (F := fun _ => False) _).of_ok halloc).1 with rfl | rfl
  · cases hrun
  obtain ⟨t₁, e₂, h₁, hrun⟩ := Prog.bind_eq_ok.1 hrun
  obtain ⟨o, e₃, h₂, hrun⟩ := Prog.bind_eq_ok.1 hrun
  cases o with
  | none => cases hrun
  | some t₂ =>
    obtain ⟨t₃, e₄, h₃, hrun⟩ := Prog.bind_eq_ok.1 hrun
    cases hrun
    have hfree₁ := free_addOptionalString hempty hcb h₁
    have hfree₂ := free_addFilter hfree₁ hfl h₂
    exact free_addOptionalString hfree₂ hex h₃

end free

/-- Every operation that is reached satisfies `Q`, together with the tree it is applied to. -/
def OpsReach (Q : Json → Json → Prop) : Json → List Json → Prop
  | _, [] => True
  | tree, op :: ops => Q tree op ∧
      ∀ tree' e e', applyOneOp tree op e = .ok (some tree', e') → OpsReach Q tree' ops

section reach

variable {Q : Json → Json → Prop} {name : String} {Bad : Json → Prop} {tree : Json}

theorem free_applyAllOps (hBad : ∀ ms, ¬Bad (.object ms))
    (hQ : ∀ tree op, Q tree op → ¬Writes name Bad tree op) (ops : List Json)
    (hr : tree.isObject = true) (h : tree.Free name Bad) (hops : OpsReach Q tree ops)
    {e e' : Env} {tree' : Json} (hrun : applyAllOps tree ops e = .ok (some tree', e')) :
    tree'.Free name Bad := by
  induction ops generalizing tree e with
  | nil =>
    cases hrun
    exact h
  | cons op ops ih =>
    obtain ⟨o, e₁, hone, hrun⟩ := Prog.bind_eq_ok.1 hrun
    cases o with
    | none => cases hrun
    | some tree₁ =>
      have hobj := (applyOneOp_objectIfSome hr hone).1 tree₁ rfl
      have hfree := free_applyOneOp hBad hr h (hQ tree op hops.1) hone
      exact ih hobj hfree (hops.2 tree₁ e e₁ hone) hrun

/-- With operations that can be looked into a patch stops at a move below itself only. -/
theorem ends_applyAllOps (hQ : ∀ tree op, Q tree op → op.Lookable) (ops : List Json)
    (hr : tree.isObject = true) (hops : OpsReach Q tree ops) :
    Ends OtherFault ObjectIfSome (applyAllOps tree ops) := by
  induction ops generalizing tree with
  | nil => exact ends_pure (objectIfSome_some hr)
  | cons op ops ih =>
    have ho := hQ tree op hops.1
    have hone : Ends OtherFault (fun _ => True) (applyOneOp tree op) := by
      obtain hnone | ⟨action, pointer, -, -, heq⟩ := applyOneOp_cases tree ho
      · rw [hnone]
        exact ends_pure trivial
      · rw [heq]
        refine Ends.bind (gives_resolvePointerParent hr pointer).ends fun o hs => ?_
        cases o with
        | none => exact ends_pure trivial
        | some target =>
          refine ((gives_applyAt hr ho action (hs target rfl)).mono (fun _ _ => trivial)
            fun x hx => ?_).ends
          rw [hx.2]
          intro hn
          cases hn
    have hreach : Ends (fun _ => True) (fun o => ∀ tree', o = some tree' →
        tree'.isObject = true ∧ OpsReach Q tree' ops) (applyOneOp tree op) := by
      refine ends_of_ok fun e e' o hrun => ?_
      intro tree' ho'
      rw [ho'] at hrun
      exact ⟨(applyOneOp_objectIfSome hr hrun).1 tree' rfl, hops.2 tree' e e' hrun⟩
    refine Ends.bind (hone.and hreach) fun o ho' => ?_
    cases o with
    | none => exact ends_pure objectIfSome_none
    | some tree' =>
      obtain ⟨hobj, hrest⟩ := ho'.2 tree' rfl
      exact ih hobj hrest

end reach

end Subscription

namespace SubscriptionStore

open Subscription

variable {s s' : SubscriptionStore} {id : String} {contentType : Option String} {doc : Json}
  {Q : Json → Json → Prop} {name : String} {Bad : Json → Prop}

/-- Every operation that a patch of the live record reaches satisfies `Q`. -/
def PatchReach (Q : Json → Json → Prop) (s : SubscriptionStore) (id : String)
    (contentType : Option String) (doc : Json) : Prop :=
  ∀ ops i x tree e e', doc = .array ops → patchContentTypeOk contentType = true →
    s.live? id = some (i, x) → buildResource x e = .ok (some tree, e') → OpsReach Q tree ops

/-- What a patch commits comes from a tree without a bad member. -/
theorem PatchReach.commits (hpatch : s.PatchReach Q id contentType doc)
    (hBad : ∀ ms, ¬Bad (.object ms)) (hQ : ∀ tree op, Q tree op → ¬Writes name Bad tree op)
    (hbuild : ∀ i x tree e e', s.live? id = some (i, x) →
      buildResource x e = .ok (some tree, e') → tree.Free name Bad)
    {e e' : Env} {code : SubResult}
    (h : s.patch (some id) contentType (some doc) e = .ok ((code, s'), e')) :
    s' = s ∨ ∃ i x tree fields, s.live? id = some (i, x) ∧ tree.Free name Bad ∧
      FieldsOf tree fields ∧ s' = ⟨s.items.set i (x.withFields fields)⟩ := by
  have hct : patchContentTypeOk contentType = true ∨ s' = s := by
    by_cases hct : patchContentTypeOk contentType = true
    · exact Or.inl hct
    · unfold patch at h
      simp only [hct] at h
      cases h
      exact Or.inr rfl
  rcases hct with hct | hct
  · rcases (patch_cases h).2 with ⟨-, hs⟩ | ⟨-, k, ops, i, x, tree, fields, e₁, hk, hdoc, hlive,
      htree, hf, hs⟩
    · exact Or.inl hs
    · cases hk
      cases hdoc
      obtain ⟨g, e₂, hget, htree⟩ := Prog.bind_eq_ok.1 htree
      rcases ((gives_memGet (F := fun _ => False) hlive).of_ok hget).1 with rfl | rfl
      · cases htree
      obtain ⟨o, e₃, hres, hall⟩ := Prog.bind_eq_ok.1 htree
      cases o with
      | none => cases hall
      | some resource =>
        have hobj := ((gives_buildResource (F := fun _ => False) x).of_ok hres).1 resource rfl
        have hfree := hbuild i x resource e₂ e₃ hlive hres
        have hops := hpatch ops i x resource e₂ e₃ rfl hct hlive hres
        exact Or.inr ⟨i, x, tree, fields, hlive, free_applyAllOps hBad hQ ops hobj hfree hops hall,
          hf, hs⟩
  · exact Or.inl hct

theorem PatchReach.ends_applyPatchAtomic (hpatch : s.PatchReach Q id contentType doc)
    (hQ : ∀ tree op, Q tree op → op.Lookable) (hct : patchContentTypeOk contentType = true)
    {i : ℕ} {x : SubscriptionRecord} (hlive : s.live? id = some (i, x)) :
    Ends OtherFault (fun _ => True) (applyPatchAtomic x doc) := by
  cases doc with
  | array ops =>
    have hreach : Ends (fun _ => True) (fun o => ∀ tree, o = some tree → OpsReach Q tree ops)
        (buildResource x) := by
      refine ends_of_ok fun e e' o ho => ?_
      intro tree htree
      rw [htree] at ho
      exact hpatch ops i x tree e e' rfl hct hlive ho
    have htree : Ends OtherFault ObjectIfSome (patchedTree x ops) := by
      refine Ends.bind ((gives_buildResource x).ends.and hreach) fun o ho => ?_
      cases o with
      | none => exact ends_pure objectIfSome_none
      | some tree => exact ends_applyAllOps hQ ops (ho.1 tree rfl) (ho.2 tree rfl)
    refine Ends.bind htree fun o ho => ?_
    cases o with
    | none => exact ends_pure trivial
    | some tree => exact (gives_extractFields (ho tree rfl)).ends.mono fun _ _ => trivial
  | _ => exact ends_pure trivial

theorem PatchReach.ends (hpatch : s.PatchReach Q id contentType doc)
    (hQ : ∀ tree op, Q tree op → op.Lookable) :
    Ends OtherFault (fun _ => True) (s.patch (some id) contentType (some doc)) := by
  unfold patch
  dsimp only
  split_ifs with hct
  · cases hlive : s.live? id with
    | none =>
      unfold memGet
      rw [hlive]
      exact ends_pure trivial
    | some p =>
      obtain ⟨i, x⟩ := p
      refine Ends.bind (gives_memGet hlive).ends fun g hg => ?_
      rcases hg with rfl | rfl
      · exact ends_pure trivial
      refine Ends.bind (hpatch.ends_applyPatchAtomic hQ hct hlive) fun o _ => ?_
      cases o with
      | none => exact ends_pure trivial
      | some fields => exact (gives_replaceFields hlive fields).ends.mono fun _ _ => trivial
  · exact ends_pure trivial

end SubscriptionStore

end Nssf
