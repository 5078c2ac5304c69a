import Nssf.Subscription.PatchWrites

/-! What a patch leaves alone. A member that no operation names as its target, and no move as
its source, keeps its value, as long as there is nothing below it to address. -/

namespace Nssf

open Base Run

namespace Json

section kept

variable {name : String} {j : Json}

/-- There is nothing below a member of the name. -/
def Leaf (name : String) (j : Json) : Prop := ∀ v, j.member? name = some v → v.isObject = false

theorem member?_modifyAt_cons (h : j.Leaf name) {f : Json → Json}
    (hf : ∀ v, v.isObject = false → f v = v) (k : String) (path : List String) :
    (modifyAt f (k :: path) j).member? name = j.member? name := by
  cases j with
  | object ms =>
    simp only [modifyAt, member?, findMember_updateMember]
    split_ifs with hk
    · cases hv : findMember ms name with
      | none => rfl
      | some v =>
        have hleaf := h v hv
        rw [Option.map_some]
        cases path with
        | nil => rw [modifyAt, hf v hleaf]
        | cons l path =>
          cases v with
          | object ns => cases hleaf
          | _ => rfl
    · rfl
  | _ => rfl

theorem deleteItem_of_not_object (key : String) (v : Json) (h : v.isObject = false) :
    v.deleteItem key = v := by
  cases v with
  | object ms => cases h
  | _ => rfl

theorem addItem_of_not_object (key : String) (w v : Json) (h : v.isObject = false) :
    v.addItem key w = v := by
  cases v with
  | object ms => cases h
  | _ => rfl

end kept

end Json

namespace Subscription

/-- The operation has the member neither as its target nor, as a move, as its source. -/
structure Avoids (name : String) (op : Json) : Prop where
  path : ∀ pointer, op.member? "path" = some (.string pointer) →
    pointerPath pointer ≠ some [name]
  source : op.member? "op" = some (.string "move") →
    ∀ pointer, op.member? "from" = some (.string pointer) → pointerPath pointer ≠ some [name]

section pointers

theorem unescape_plain {cs out : List Char} (h : unescape cs = out)
    (hout : ∀ c ∈ out, c ≠ '~' ∧ c ≠ '/') : cs = out := by
  induction cs using unescape.induct generalizing out with
  | case1 =>
    rw [← h]
    rfl
  | case2 cs ih =>
    rw [unescape] at h
    exact absurd rfl (hout '/' (h ▸ List.mem_cons_self)).2
  | case3 cs ih =>
    rw [unescape] at h
    exact absurd rfl (hout '~' (h ▸ List.mem_cons_self)).1
  | case4 c cs hslash htilde ih =>
    rw [unescape] at h
    · cases out with
      | nil => cases h
      | cons d out =>
        obtain ⟨rfl, htail⟩ := List.cons.inj h
        rw [ih htail fun x hx => hout x (List.mem_cons_of_mem _ hx)]
    · exact hslash
    · exact htilde

/-- A member at the top is spelled in one way, unless its name holds a special character. -/
theorem pointer_of_path {pointer name : String} (h : pointerPath pointer = some [name])
    (hname : ∀ c ∈ name.toList, c ≠ '~' ∧ c ≠ '/') : pointer.toList = '/' :: name.toList := by
  simp only [pointerPath] at h
  split at h
  · rename_i tail htail
    have hsegs := Option.some.inj h
    have hjoin : ['/'].intercalate (tail.splitOn '/') = tail := List.intercalate_splitOn '/'
    cases hsplit : tail.splitOn '/' with
    | nil => simp [hsplit] at hsegs
    | cons seg segs =>
      rw [hsplit] at hsegs hjoin
      obtain ⟨hseg, hsegs⟩ := List.cons.inj hsegs
      obtain rfl := List.map_eq_nil_iff.1 hsegs
      have htext : unescape seg = name.toList := by
        rw [← hseg, String.toList_ofList]
      rw [htail, ← hjoin, unescape_plain htext hname]
      simp
  · cases h

end pointers

section kept

variable {name : String} {tree tree' op : Json} {e e' : Env}

theorem kept_delete (h : tree.Leaf name) {s : Slot} (hs : s.path ≠ [name]) :
    (tree.modifyAt (·.deleteItem s.key) s.container).member? name = tree.member? name := by
  cases hc : s.container with
  | nil =>
    apply Json.member?_deleteItem
    intro hkey
    apply hs
    rw [Slot.path, hc, hkey]
    rfl
  | cons k path =>
    exact Json.member?_modifyAt_cons h (Json.deleteItem_of_not_object s.key) k path

theorem kept_storeAt (h : tree.Leaf name) {s : Slot} (hs : s.path ≠ [name]) {v : Json}
    (hrun : storeAt tree s v e = .ok (tree', e')) : tree'.member? name = tree.member? name := by
  have hkept := kept_delete h hs
  obtain ⟨b, e₁, -, hrun⟩ := Prog.bind_eq_ok.1 hrun
  cases b with
  | false =>
    cases hrun
    exact hkept
  | true =>
    cases hrun
    cases hc : s.container with
    | nil =>
      rw [hc] at hkept
      refine Eq.trans (Json.member?_addItem ?_ v) hkept
      intro hkey
      apply hs
      rw [Slot.path, hc, hkey]
      rfl
    | cons k path =>
      rw [hc] at hkept
      have hleaf : (tree.modifyAt (·.deleteItem s.key) (k :: path)).Leaf name := by
        intro w hw
        exact h w (hkept ▸ hw)
      exact (Json.member?_modifyAt_cons hleaf (Json.addItem_of_not_object s.key v) k path).trans
        hkept

theorem kept_copyFrom (h : tree.Leaf name) {source target : Slot} (hs : source.In tree)
    (ht : target.path ≠ [name]) {isMove : Bool} (hsource : isMove = true → source.path ≠ [name])
    (hrun : copyFrom tree source target isMove e = .ok (some tree', e')) :
    tree'.member? name = tree.member? name := by
  simp only [copyFrom, lookupSlot_eq hs, pure_bind] at hrun
  cases hsrc : tree.atPath source.path with
  | none =>
    rw [hsrc] at hrun
    cases hrun
  | some src =>
    rw [hsrc] at hrun
    obtain ⟨o, e₁, halloc, hrun⟩ := Prog.bind_eq_ok.1 hrun
    rcases ((gives_allocated (F := fun _ => False) src).of_ok halloc).1 with rfl | rfl
    · cases hrun
    obtain ⟨stored, e₂, hmove, hrun⟩ := Prog.bind_eq_ok.1 hrun
    cases hrun
    simp only [moveOrCopy] at hmove
    split_ifs at hmove with hm hfree
    · cases hmove
    · have hdeleted := kept_delete h (hsource hm)
      have hleaf : (tree.modifyAt (·.deleteItem source.key) source.container).Leaf name := by
        intro w hw
        exact h w (hdeleted ▸ hw)
      exact (kept_storeAt hleaf ht hmove).trans hdeleted
    · exact kept_storeAt h ht hmove

theorem kept_applyWrite (h : tree.Leaf name) (ho : op.Lookable) {target : Slot}
    (ht : target.path ≠ [name]) {mustExist : Bool}
    (hrun : applyWrite tree op target mustExist e = .ok (some tree', e')) :
    tree'.member? name = tree.member? name := by
  simp only [applyWrite, Json.getObjectItem_of_lookable ho, pure_bind] at hrun
  cases hvalue : op.member? "value" with
  | none =>
    rw [hvalue] at hrun
    cases hrun
  | some value =>
    rw [hvalue] at hrun
    obtain ⟨there, e₁, -, hrun⟩ := Prog.bind_eq_ok.1 hrun
    cases there with
    | false => cases hrun
    | true =>
      obtain ⟨o, e₂, halloc, hrun⟩ := Prog.bind_eq_ok.1 hrun
      rcases ((gives_allocated (F := fun _ => False) value).of_ok halloc).1 with rfl | rfl
      · cases hrun
      obtain ⟨stored, e₃, hstore, hrun⟩ := Prog.bind_eq_ok.1 hrun
      cases hrun
      exact kept_storeAt h ht hstore

theorem kept_applyCopy (hr : tree.isObject = true) (h : tree.Leaf name) (ho : op.Lookable)
    {target : Slot} (ht : target.path ≠ [name]) {isMove : Bool}
    (hsource : isMove = true → ∀ pointer, op.member? "from" = some (.string pointer) →
      pointerPath pointer ≠ some [name])
    (hrun : applyCopy tree op target isMove e = .ok (some tree', e')) :
    tree'.member? name = tree.member? name := by
  simp only [applyCopy, Json.getObjectItem_of_lookable ho, pure_bind] at hrun
  cases hfrom : op.member? "from" with
  | none =>
    rw [hfrom] at hrun
    cases hrun
  | some v =>
    rw [hfrom] at hrun
    cases v with
    | string pointer =>
      obtain ⟨o, e₁, hresolve, hrun⟩ := Prog.bind_eq_ok.1 hrun
      cases o with
      | none => cases hrun
      | some source =>
        have hs := ((gives_resolvePointerParent (F := fun _ => False) hr pointer).of_ok
          hresolve).1 source rfl
        refine kept_copyFrom h hs ht (fun hm hpath => ?_) hrun
        apply hsource hm pointer hfrom
        rw [resolvePointerParent_path hresolve, hpath]
    | _ => cases hrun

theorem kept_applyAt (hr : tree.isObject = true) (h : tree.Leaf name) (ho : op.Lookable)
    {action : String} (haction : op.member? "op" = some (.string action)) {target : Slot}
    (ht : target.path ≠ [name]) (havoids : Avoids name op)
    (hrun : applyAt tree op action target e = .ok (some tree', e')) :
    tree'.member? name = tree.member? name := by
  simp only [applyAt] at hrun
  split_ifs at hrun with hwrite hremove hcopy htest
  · exact kept_applyWrite h ho ht hrun
  · obtain ⟨o, e₁, -, hrun⟩ := Prog.bind_eq_ok.1 hrun
    cases o with
    | none => cases hrun
    | some old =>
      cases hrun
      exact kept_delete h ht
  · refine kept_applyCopy hr h ho ht (fun hm => ?_) hrun
    apply havoids.source
    rw [haction, beq_iff_eq.1 hm]
  · rw [applyTest_eq hrun]
  · cases hrun

theorem kept_applyOneOp (hr : tree.isObject = true) (h : tree.Leaf name)
    (havoids : Avoids name op) (hrun : applyOneOp tree op e = .ok (some tree', e')) :
    tree'.member? name = tree.member? name := by
  have ho : op.Lookable := ((applyOneOp_returns_iff hr op).1 ⟨_, hrun⟩).1
  obtain hnone | ⟨action, pointer, haction, hpointer, heq⟩ := applyOneOp_cases tree ho
  · rw [hnone] at hrun
    cases hrun
  rw [heq] at hrun
  obtain ⟨o, e₁, hresolve, hrun⟩ := Prog.bind_eq_ok.1 hrun
  cases o with
  | none => cases hrun
  | some target =>
    refine kept_applyAt hr h ho haction (fun hpath => ?_) havoids hrun
    apply havoids.path pointer hpointer
    rw [resolvePointerParent_path hresolve, hpath]

/-- A run of operations that avoid the member leaves it as it was. -/
theorem kept_applyAllOps {ops : List Json} (hr : tree.isObject = true) (h : tree.Leaf name)
    (havoids : ∀ op ∈ ops, Avoids name op)
    (hrun : applyAllOps tree ops e = .ok (some tree', e')) :
    tree'.member? name = tree.member? name := by
  induction ops generalizing tree e with
  | nil =>
    cases hrun
    rfl
  | cons op ops ih =>
    obtain ⟨o, e₁, hop, hrun⟩ := Prog.bind_eq_ok.1 hrun
    cases o with
    | none => cases hrun
    | some next =>
      have hkept := kept_applyOneOp hr h (havoids op List.mem_cons_self) hop
      have hobj := (applyOneOp_objectIfSome hr hop).1 next rfl
      have hleaf : next.Leaf name := fun v hv => h v (hkept ▸ hv)
      have hrest := ih hobj hleaf (fun x hx => havoids x (List.mem_cons_of_mem _ hx)) hrun
      exact hrest.trans hkept

end kept

end Subscription

end Nssf
