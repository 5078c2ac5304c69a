import Nssf.Subscription.Store

/-! What a patch of a subscription can do, whatever the allocations answer: it touches the
three mutable fields of one live record, or nothing, unless it runs into one of two faults. -/

namespace Nssf

open Base Run

namespace Subscription

/-- The container of the slot is in the tree. -/
def Slot.In (resource : Json) (s : Slot) : Prop :=
  ∃ c, resource.atPath s.container = some c ∧ c.isObject = true

def ObjectIfSome (o : Option Json) : Prop := ∀ j, o = some j → j.isObject = true

theorem objectIfSome_none : ObjectIfSome none := by
  intro j h
  cases h

theorem objectIfSome_some {j : Json} (h : j.isObject = true) : ObjectIfSome (some j) := by
  intro k hk
  cases hk
  exact h

section operations

variable {F : Fault → Prop} {resource opItem : Json}

theorem gives_walkPointer {walked : List String} {cur : Json}
    (hw : resource.atPath walked = some cur) (hc : cur.isObject = true)
    (segs : List (List Char)) :
    Gives F (fun o => ∀ s, o = some s → s.In resource) (walkPointer walked cur segs) := by
  induction segs generalizing walked cur with
  | nil =>
    refine gives_pure ?_
    intro s h
    cases h
  | cons seg segs ih =>
    refine Gives.bind (gives_allocated _) fun o ho => ?_
    rcases ho with rfl | rfl
    · refine gives_pure ?_
      intro s h
      cases h
    · by_cases hs : segs.isEmpty = true
      · simp only [hs, if_true]
        refine gives_pure ?_
        intro s h
        cases h
        exact ⟨cur, hw, hc⟩
      · simp only [hs]
        change Gives F _ (Json.getObjectItem (some cur) _ >>= _)
        rw [Json.getObjectItem_of_lookable (Json.lookable_of_isObject hc), pure_bind]
        have hnone : Gives F (fun o => ∀ s, o = some s → s.In resource)
            (pure none : Run (Option Slot)) := by
          refine gives_pure ?_
          intro s h
          cases h
        cases hm : cur.member? (String.ofList (unescape seg)) with
        | none => exact hnone
        | some v =>
          cases v with
          | object members =>
            apply ih _ rfl
            rw [Json.atPath_snoc, hw]
            exact hm
          | _ => exact hnone

theorem gives_resolvePointerParent (hr : resource.isObject = true) (pointer : String) :
    Gives F (fun o => ∀ s, o = some s → s.In resource)
      (resolvePointerParent resource pointer) := by
  unfold resolvePointerParent
  split
  · exact gives_walkPointer rfl hr _
  · refine gives_pure ?_
    intro s h
    cases h

theorem lookupSlot_eq {s : Slot} (h : s.In resource) :
    lookupSlot resource s = pure (resource.atPath s.path) := by
  obtain ⟨c, hc, ho⟩ := h
  unfold lookupSlot Slot.path
  rw [Json.atPath_snoc, hc]
  exact Json.getObjectItem_of_lookable (Json.lookable_of_isObject ho) s.key

theorem isObject_delete (hr : resource.isObject = true) (s : Slot) :
    (resource.modifyAt (·.deleteItem s.key) s.container).isObject = true :=
  Json.isObject_modifyAt (fun _ h => Json.isObject_deleteItem h s.key) s.container hr

theorem gives_storeAt (hr : resource.isObject = true) (s : Slot) (v : Json) :
    Gives F (fun j => j.isObject = true) (storeAt resource s v) := by
  have hkept := isObject_delete hr s
  refine Gives.bind gives_alloc fun b _ => ?_
  cases b with
  | true =>
    refine gives_pure ?_
    exact Json.isObject_modifyAt (fun _ h => Json.isObject_addItem h s.key v) s.container hkept
  | false => exact gives_pure hkept

theorem gives_stored (hr : resource.isObject = true) (s : Slot) (v : Json) :
    Gives F ObjectIfSome (storeAt resource s v >>= fun j => pure (some j)) := by
  refine Gives.bind (gives_storeAt hr s v) fun j hj => ?_
  exact gives_pure (objectIfSome_some hj)

theorem gives_applyWrite (hr : resource.isObject = true) (ho : opItem.Lookable) {target : Slot}
    (ht : target.In resource) (mustExist : Bool) :
    Gives F ObjectIfSome (applyWrite resource opItem target mustExist) := by
  unfold applyWrite
  rw [Json.getObjectItem_of_lookable ho, pure_bind]
  cases opItem.member? "value" with
  | none => exact gives_pure objectIfSome_none
  | some value =>
    have hthere : Gives F (fun _ => True) (targetThere resource target mustExist) := by
      unfold targetThere
      rw [lookupSlot_eq ht]
      cases mustExist with
      | true => exact gives_pure trivial
      | false => exact gives_pure trivial
    refine Gives.bind hthere fun b _ => ?_
    cases b with
    | false => exact gives_pure objectIfSome_none
    | true =>
      refine Gives.bind (gives_allocated value) fun o ho => ?_
      rcases ho with rfl | rfl
      · exact gives_pure objectIfSome_none
      · exact gives_stored hr target value

theorem gives_applyRemove (hr : resource.isObject = true) {target : Slot}
    (ht : target.In resource) : Gives F ObjectIfSome (applyRemove resource target) := by
  unfold applyRemove
  rw [lookupSlot_eq ht, pure_bind]
  cases resource.atPath target.path with
  | none => exact gives_pure objectIfSome_none
  | some v => exact gives_pure (objectIfSome_some (isObject_delete hr target))

theorem gives_applyTest (hr : resource.isObject = true) (ho : opItem.Lookable) {target : Slot}
    (ht : target.In resource) : Gives F ObjectIfSome (applyTest resource opItem target) := by
  unfold applyTest
  rw [Json.getObjectItem_of_lookable ho, pure_bind, lookupSlot_eq ht, pure_bind]
  cases opItem.member? "value" with
  | none => exact gives_pure objectIfSome_none
  | some value =>
    cases resource.atPath target.path with
    | none => exact gives_pure objectIfSome_none
    | some found =>
      cases hcmp : found.compare value with
      | true =>
        simp only [hcmp, if_true]
        exact gives_pure (objectIfSome_some hr)
      | false =>
        simp only [hcmp, Bool.false_eq_true, if_false]
        exact gives_pure objectIfSome_none

/-- A move can end in a fault, everything else of it returns. -/
theorem gives_applyCopy (hr : resource.isObject = true) (ho : opItem.Lookable) (target : Slot)
    (isMove : Bool) : Gives (fun x => isMove = true ∧ x = .useAfterFree) ObjectIfSome
      (applyCopy resource opItem target isMove) := by
  unfold applyCopy
  rw [Json.getObjectItem_of_lookable ho, pure_bind]
  split
  · refine Gives.bind (gives_resolvePointerParent hr _) fun o hs => ?_
    cases o with
    | none => exact gives_pure objectIfSome_none
    | some source =>
      change Gives _ _ (lookupSlot resource source >>= _)
      rw [lookupSlot_eq (hs source rfl), pure_bind]
      cases resource.atPath source.path with
      | none => exact gives_pure objectIfSome_none
      | some src =>
        refine Gives.bind (gives_allocated src) fun o ho => ?_
        rcases ho with rfl | rfl
        · exact gives_pure objectIfSome_none
        · cases isMove with
          | false => exact gives_stored hr target src
          | true =>
            change Gives _ _ (moveOrCopy resource source target src true >>= _)
            unfold moveOrCopy
            rw [if_pos rfl]
            split_ifs with hfree
            · refine Gives.bind (P := fun _ => False) ?_ fun _ h => h.elim
              exact gives_throw ⟨rfl, rfl⟩
            · exact gives_stored (isObject_delete hr source) target src
  · exact gives_pure objectIfSome_none

theorem gives_applyAt (hr : resource.isObject = true) (ho : opItem.Lookable) (op : String)
    {target : Slot} (ht : target.In resource) :
    Gives (fun x => op = "move" ∧ x = .useAfterFree) ObjectIfSome
      (applyAt resource opItem op target) := by
  unfold applyAt
  split_ifs with hwrite hremove hcopy htest
  · exact gives_applyWrite hr ho ht _
  · exact gives_applyRemove hr ht
  · refine (gives_applyCopy hr ho target (op == "move")).mono (fun _ h => h) fun x hx => ?_
    exact ⟨by simpa using hx.1, hx.2⟩
  · exact gives_applyTest hr ho ht
  · exact gives_pure objectIfSome_none

/-- A move whose two pointers resolve and whose source holds the container of its target. -/
def MovesIntoItself (resource opItem : Json) (e : Env) : Prop :=
  ∃ path pointer target source e₁ e₂,
    opItem.member? "op" = some (.string "move") ∧
    opItem.member? "path" = some (.string path) ∧
    opItem.member? "from" = some (.string pointer) ∧
    resolvePointerParent resource path e = .ok (some target, e₁) ∧
    resolvePointerParent resource pointer e₁ = .ok (some source, e₂) ∧
    e₂.alloc.head = true ∧ source.path.isPrefixOf target.container = true

def OpSafe (resource opItem : Json) (e : Env) : Prop :=
  opItem.Lookable ∧ ¬MovesIntoItself resource opItem e

/-- What lies on the way to a container is there. -/
theorem source_found {source target : Slot} (ht : target.In resource)
    (hp : source.path.isPrefixOf target.container = true) :
    ∃ src, resource.atPath source.path = some src := by
  obtain ⟨c, hc, -⟩ := ht
  obtain ⟨rest, hrest⟩ := List.isPrefixOf_iff_prefix.1 hp
  rw [← hrest, Json.atPath_append] at hc
  obtain ⟨src, hsrc, -⟩ := Option.bind_eq_some_iff.1 hc
  exact ⟨src, hsrc⟩

/-- After both pointers are resolved only a move into its own source faults. -/
theorem moves_of_error (hr : resource.isObject = true) {source target : Slot}
    (hs : source.In resource) {e : Env} {x : Fault}
    (h : copyFrom resource source target true e = .error x) :
    e.alloc.head = true ∧ source.path.isPrefixOf target.container = true := by
  unfold copyFrom at h
  rw [lookupSlot_eq hs, pure_bind] at h
  cases hsrc : resource.atPath source.path with
  | none =>
    rw [hsrc] at h
    cases h
  | some src =>
    rw [hsrc] at h
    change (allocated src >>= _) e = _ at h
    rw [Prog.bind_of_ok (allocated_apply src e)] at h
    cases hhead : e.alloc.head with
    | false =>
      rw [hhead] at h
      cases h
    | true =>
      rw [hhead] at h
      refine ⟨rfl, ?_⟩
      by_contra hfree
      change (moveOrCopy resource source target src true >>= _) e.popAlloc = _ at h
      unfold moveOrCopy at h
      rw [if_pos rfl, if_neg hfree] at h
      obtain ⟨j, e', hstore, -, -⟩ := (gives_stored (isObject_delete hr source) target src).ok
        e.popAlloc
      rw [hstore] at h
      cases h

theorem applyCopy_error_iff (hr : resource.isObject = true) (ho : opItem.Lookable)
    {target : Slot} (ht : target.In resource) {e : Env} :
    (∃ x, applyCopy resource opItem target true e = .error x) ↔
      ∃ pointer source e₂, opItem.member? "from" = some (.string pointer) ∧
        resolvePointerParent resource pointer e = .ok (some source, e₂) ∧
        e₂.alloc.head = true ∧ source.path.isPrefixOf target.container = true := by
  unfold applyCopy
  rw [Json.getObjectItem_of_lookable ho, pure_bind]
  constructor
  · intro h
    obtain ⟨x, h⟩ := h
    cases hfrom : opItem.member? "from" with
    | none =>
      rw [hfrom] at h
      cases h
    | some v =>
      rw [hfrom] at h
      cases v with
      | string pointer =>
        change (resolvePointerParent resource pointer >>= _) e = _ at h
        obtain ⟨o, e₂, hok, hs, -⟩ := (gives_resolvePointerParent hr pointer).ok e
        rw [Prog.bind_of_ok hok] at h
        cases o with
        | none => cases h
        | some source =>
          obtain ⟨hhead, hfree⟩ := moves_of_error hr (hs source rfl) h
          exact ⟨pointer, source, e₂, rfl, hok, hhead, hfree⟩
      | _ => cases h
  · intro h
    obtain ⟨pointer, source, e₂, hpointer, hok, hhead, hfree⟩ := h
    obtain ⟨src, hsrc⟩ := source_found ht hfree
    have hs := ((gives_resolvePointerParent hr pointer (F := fun _ => False)).of_ok hok).1
    refine ⟨.useAfterFree, ?_⟩
    rw [hpointer]
    change (resolvePointerParent resource pointer >>= _) e = _
    rw [Prog.bind_of_ok hok]
    change (lookupSlot resource source >>= _) e₂ = _
    rw [lookupSlot_eq (hs source rfl), pure_bind, hsrc]
    change (allocated src >>= _) e₂ = _
    rw [Prog.bind_of_ok (allocated_apply src e₂), hhead]
    change (moveOrCopy resource source target src true >>= _) e₂.popAlloc = _
    unfold moveOrCopy
    rw [if_pos rfl, if_pos hfree]
    rfl

/-- An operation without its two strings does nothing. -/
theorem applyOneOp_eq_none (resource : Json) (ho : opItem.Lookable)
    (h : (opItem.member? "op").bind Json.string? = none ∨
      (opItem.member? "path").bind Json.string? = none) :
    applyOneOp resource opItem = pure none := by
  unfold applyOneOp
  simp only [Json.getObjectItem_of_lookable ho, pure_bind]
  cases hop : opItem.member? "op" with
  | none => rfl
  | some v =>
    cases v with
    | string op =>
      cases hpath : opItem.member? "path" with
      | none => rfl
      | some w =>
        cases w with
        | string path =>
          rw [hop, hpath] at h
          rcases h with h | h
          · cases h
          · cases h
        | _ => rfl
    | _ => rfl

theorem applyOneOp_eq (resource : Json) (ho : opItem.Lookable) {op path : String}
    (hop : opItem.member? "op" = some (.string op))
    (hpath : opItem.member? "path" = some (.string path)) :
    applyOneOp resource opItem = (resolvePointerParent resource path >>= fun o =>
      match o with
      | none => pure none
      | some target => applyAt resource opItem op target) := by
  unfold applyOneOp
  simp only [Json.getObjectItem_of_lookable ho, pure_bind]
  rewrite [hop, hpath]
  rfl

theorem string_of_bind {o : Option Json} {s : String} (h : o.bind Json.string? = some s) :
    o = some (.string s) := by
  obtain ⟨v, rfl, hv⟩ := Option.bind_eq_some_iff.1 h
  cases v with
  | string t =>
    cases hv
    rfl
  | _ => cases hv

theorem applyOneOp_cases (resource : Json) (ho : opItem.Lookable) :
    applyOneOp resource opItem = pure none ∨
      ∃ op path, opItem.member? "op" = some (.string op) ∧
        opItem.member? "path" = some (.string path) ∧
        applyOneOp resource opItem = (resolvePointerParent resource path >>= fun o =>
          match o with
          | none => pure none
          | some target => applyAt resource opItem op target) := by
  cases hop : (opItem.member? "op").bind Json.string? with
  | none => exact Or.inl (applyOneOp_eq_none resource ho (Or.inl hop))
  | some op =>
    cases hpath : (opItem.member? "path").bind Json.string? with
    | none => exact Or.inl (applyOneOp_eq_none resource ho (Or.inr hpath))
    | some path =>
      have hops := string_of_bind hop
      have hpaths := string_of_bind hpath
      exact Or.inr ⟨op, path, hops, hpaths, applyOneOp_eq resource ho hops hpaths⟩

theorem applyOneOp_error_iff (hr : resource.isObject = true) (ho : opItem.Lookable) {e : Env} :
    (∃ x, applyOneOp resource opItem e = .error x) ↔ MovesIntoItself resource opItem e := by
  constructor
  · intro h
    obtain ⟨x, h⟩ := h
    obtain hnone | ⟨op, path, hop, hpath, heq⟩ := applyOneOp_cases resource ho
    · rw [hnone] at h
      cases h
    · rw [heq] at h
      obtain ⟨o, e₁, hok, hs, -⟩ := (gives_resolvePointerParent hr path).ok e
      rw [Prog.bind_of_ok hok] at h
      cases o with
      | none => cases h
      | some target =>
        obtain ⟨rfl, -⟩ := (gives_applyAt hr ho op (hs target rfl) e₁).2 x h
        obtain ⟨pointer, source, e₂, hc⟩ := (applyCopy_error_iff hr ho (hs target rfl)).1 ⟨x, h⟩
        exact ⟨path, pointer, target, source, e₁, e₂, hop, hpath, hc.1, hok, hc.2⟩
  · intro h
    obtain ⟨path, pointer, target, source, e₁, e₂, hop, hpath, hfrom, hok, hc⟩ := h
    have hs := ((gives_resolvePointerParent hr path (F := fun _ => False)).of_ok hok).1
    obtain ⟨x, hx⟩ := (applyCopy_error_iff hr ho (hs target rfl)).2
      ⟨pointer, source, e₂, hfrom, hc⟩
    refine ⟨x, ?_⟩
    unfold applyOneOp
    simp only [Json.getObjectItem_of_lookable ho, pure_bind]
    rw [hop, hpath]
    change (resolvePointerParent resource path >>= _) e = _
    rw [Prog.bind_of_ok hok]
    exact hx

theorem applyOneOp_objectIfSome (hr : resource.isObject = true) {e e' : Env} {o : Option Json}
    (h : applyOneOp resource opItem e = .ok (o, e')) : ObjectIfSome o ∧ e.Draws e' := by
  by_cases ho : opItem.Lookable
  · obtain hnone | ⟨op, path, -, -, heq⟩ := applyOneOp_cases resource ho
    · rw [hnone] at h
      cases h
      exact ⟨objectIfSome_none, .refl _⟩
    · rw [heq] at h
      obtain ⟨t, e₁, hok, hs, hd⟩ := (gives_resolvePointerParent hr path).ok e
      rw [Prog.bind_of_ok hok] at h
      cases t with
      | none =>
        cases h
        exact ⟨objectIfSome_none, hd⟩
      | some target =>
        obtain ⟨hobj, hd'⟩ := (gives_applyAt hr ho op (hs target rfl)).of_ok h
        exact ⟨hobj, hd.trans hd'⟩
  · obtain ⟨a, e₁, hget, -⟩ := Prog.bind_eq_ok.1 h
    exact absurd (Json.getObjectItem_returns_iff.1 ⟨_, hget⟩) ho

theorem applyOneOp_returns_iff (hr : resource.isObject = true) (opItem : Json) {e : Env} :
    Prog.Returns (applyOneOp resource opItem) e ↔ OpSafe resource opItem e := by
  by_cases ho : opItem.Lookable
  · have hiff := applyOneOp_error_iff (e := e) hr ho
    rcases h : applyOneOp resource opItem e with x | ⟨o, e'⟩
    · have hmove := hiff.1 ⟨x, h⟩
      refine iff_of_false ?_ fun hs => hs.2 hmove
      intro hret
      obtain ⟨r, hr⟩ := hret
      rw [h] at hr
      cases hr
    · refine iff_of_true ⟨_, h⟩ ⟨ho, ?_⟩
      intro hmove
      obtain ⟨x, hx⟩ := hiff.2 hmove
      rw [h] at hx
      cases hx
  · refine iff_of_false ?_ fun hs => ho hs.1
    intro hret
    obtain ⟨⟨o, e'⟩, h⟩ := hret
    obtain ⟨a, e₁, hget, -⟩ := Prog.bind_eq_ok.1 h
    exact ho (Json.getObjectItem_returns_iff.1 ⟨_, hget⟩)

end operations

/-- No operation that is reached runs into a fault. -/
def OpsSafe : Json → List Json → Env → Prop
  | _, [], _ => True
  | resource, op :: ops, e => OpSafe resource op e ∧
      ∀ resource' e', applyOneOp resource op e = .ok (some resource', e') →
        OpsSafe resource' ops e'

theorem applyAllOps_returns_iff {resource : Json} (hr : resource.isObject = true)
    (ops : List Json) {e : Env} :
    Prog.Returns (applyAllOps resource ops) e ↔ OpsSafe resource ops e := by
  induction ops generalizing resource e with
  | nil => exact iff_of_true ⟨_, rfl⟩ trivial
  | cons op ops ih =>
    have hone := applyOneOp_returns_iff hr op (e := e)
    constructor
    · intro hret
      obtain ⟨⟨o, e₂⟩, h⟩ := hret
      obtain ⟨o₁, e₁, h₁, h⟩ := Prog.bind_eq_ok.1 h
      refine ⟨hone.1 ⟨_, h₁⟩, ?_⟩
      intro resource' e' h'
      rw [h₁] at h'
      cases h'
      exact (ih ((applyOneOp_objectIfSome hr h₁).1 resource' rfl)).1 ⟨_, h⟩
    · intro hsafe
      obtain ⟨⟨o, e₁⟩, h₁⟩ := hone.2 hsafe.1
      unfold applyAllOps
      rw [Prog.Returns, Prog.bind_of_ok h₁]
      cases o with
      | none => exact ⟨_, rfl⟩
      | some resource' =>
        exact (ih ((applyOneOp_objectIfSome hr h₁).1 resource' rfl)).2 (hsafe.2 resource' e₁ h₁)

theorem applyAllOps_objectIfSome {resource : Json} (hr : resource.isObject = true)
    (ops : List Json) {e e' : Env} {o : Option Json}
    (h : applyAllOps resource ops e = .ok (o, e')) : ObjectIfSome o ∧ e.Draws e' := by
  induction ops generalizing resource e with
  | nil =>
    cases h
    exact ⟨objectIfSome_some hr, .refl _⟩
  | cons op ops ih =>
    obtain ⟨o₁, e₁, h₁, h⟩ := Prog.bind_eq_ok.1 h
    obtain ⟨hobj, hd⟩ := applyOneOp_objectIfSome hr h₁
    cases o₁ with
    | none =>
      cases h
      exact ⟨objectIfSome_none, hd⟩
    | some resource' =>
      obtain ⟨hobj', hd'⟩ := ih (hobj resource' rfl) h
      exact ⟨hobj', hd.trans hd'⟩

end Subscription

end Nssf
