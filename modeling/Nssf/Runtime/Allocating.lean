import Nssf.Json.Path
import Nssf.Runtime.Env

/-! Programs whose only contact with their surroundings is to allocate. `Yields` follows them
when every allocation is granted, `Gives` under any answers and up to a set of faults. `Ends`
is `Gives` for programs that may do anything else on the way. -/

namespace Nssf

open Base

namespace Env

/-- Only allocation answers were drawn between the two. -/
def Draws (e e' : Env) : Prop := ∃ n, e' = { e with alloc := e.alloc.drop n }

theorem Draws.refl (e : Env) : e.Draws e := ⟨0, by rw [Stream'.drop_zero]⟩

theorem Draws.trans {e e' e'' : Env} (h : e.Draws e') (h' : e'.Draws e'') : e.Draws e'' := by
  obtain ⟨n, rfl⟩ := h
  obtain ⟨k, rfl⟩ := h'
  refine ⟨n + k, ?_⟩
  simp only [Stream'.drop_drop]

theorem draws_popAlloc (e : Env) : e.Draws e.popAlloc := ⟨1, rfl⟩

theorem Draws.allocOk {e e' : Env} (h : e.Draws e') (ha : e.AllocOk) : e'.AllocOk := by
  obtain ⟨n, rfl⟩ := h
  intro k
  simpa only [Stream'.get_drop] using ha (n + k)

theorem Draws.effects_eq {e e' : Env} (h : e.Draws e') : e'.effects = e.effects := by
  obtain ⟨n, rfl⟩ := h
  rfl

end Env

namespace Run

variable {α β : Type}

/-- With every allocation granted the program gives `a` and does nothing but allocate. -/
def Yields (m : Run α) (a : α) : Prop :=
  ∀ e : Env, e.AllocOk → ∃ e', m e = .ok (a, e') ∧ e.Draws e'

/-- Whatever the allocations answer, the program does nothing but allocate, and it ends in a
value that satisfies `P` or in a fault that satisfies `F`. -/
def Gives (F : Fault → Prop) (P : α → Prop) (m : Run α) : Prop :=
  ∀ e : Env, Prog.upTo F (fun a e' => P a ∧ e.Draws e') m e

/-- Whatever the surroundings answer, the program ends in a value that satisfies `P` or in a
fault that satisfies `F`. -/
def Ends (F : Fault → Prop) (P : α → Prop) (m : Run α) : Prop :=
  ∀ e : Env, Prog.upTo F (fun a _ => P a) m e

/-- A call that hands out `v`, or nothing when an allocation fails on the way. -/
structure Makes (m : Run (Option α)) (v : α) : Prop where
  any : Gives (fun _ => False) (fun o => o = none ∨ o = some v) m
  granted : Yields m (some v)

/-- What the call hands out is `v`, and it took `n` allocations to make it. -/
def Spends (n : ℕ) (m : Run (Option α)) (v : α) : Prop :=
  ∀ e e' w, m e = .ok (some w, e') → w = v ∧ e'.alloc = e.alloc.drop n

/-- With the first `n` allocations granted the program gives `a`, and it makes just these. -/
def Needs (n : ℕ) (m : Run α) (a : α) : Prop :=
  ∀ e : Env, (∀ k < n, e.alloc.get k = true) → m e = .ok (a, { e with alloc := e.alloc.drop n })

section needs

variable {m : Run α} {f : α → Run β} {a : α} {b : β}

theorem needs_pure (a : α) : Needs 0 (pure a) a := fun _ _ => rfl

theorem needs_alloc : Needs 1 alloc true := by
  intro e he
  have hhead : e.alloc.head = true := he 0 Nat.one_pos
  rw [alloc_apply, hhead]
  rfl

theorem Needs.bind {n k : ℕ} (hm : Needs n m a) (hf : Needs k (f a) b) :
    Needs (n + k) (m >>= f) b := by
  intro e he
  have hfirst := hm e fun i hi => he i (by omega)
  have hrest := hf { e with alloc := e.alloc.drop n } fun i hi => by
    rw [Stream'.get_drop]
    exact he (n + i) (by omega)
  rw [Prog.bind_of_ok hfirst, hrest, Stream'.drop_drop]

theorem needs_allocated (a : α) : Needs 1 (allocated a) (some a) := by
  intro e he
  have hhead : e.alloc.head = true := he 0 Nat.one_pos
  rw [allocated_apply, hhead]
  rfl

theorem needs_copyField (v : Option α) : Needs v.toList.length (copyField v) (some v) := by
  cases v with
  | none => exact needs_pure (some none)
  | some a =>
    have hlen : (some a).toList.length = 1 + 0 := rfl
    rw [hlen]
    exact Needs.bind (needs_allocated a) (needs_pure (some (some a)))

end needs

section yields

variable {m : Run α} {f : α → Run β} {a : α} {b : β} {e e' : Env}

theorem yields_pure (a : α) : Yields (pure a) a := fun e _ => ⟨e, rfl, .refl e⟩

theorem Yields.bind (hm : Yields m a) (hf : Yields (f a) b) : Yields (m >>= f) b := by
  intro e ha
  obtain ⟨e₁, h₁, hd₁⟩ := hm e ha
  obtain ⟨e₂, h₂, hd₂⟩ := hf e₁ (hd₁.allocOk ha)
  refine ⟨e₂, ?_, hd₁.trans hd₂⟩
  rw [Prog.bind_of_ok h₁, h₂]

theorem Yields.eq_of_ok (hm : Yields m a) (ha : e.AllocOk) {c : α} (h : m e = .ok (c, e')) :
    c = a ∧ e.Draws e' := by
  obtain ⟨e₁, h₁, hd⟩ := hm e ha
  rw [h] at h₁
  cases h₁
  exact ⟨rfl, hd⟩

theorem Yields.bind_ok (hm : Yields m a) (ha : e.AllocOk) (h : (m >>= f) e = .ok (b, e')) :
    ∃ e₁, e₁.AllocOk ∧ e.Draws e₁ ∧ f a e₁ = .ok (b, e') := by
  obtain ⟨e₁, h₁, hd⟩ := hm e ha
  rw [Prog.bind_of_ok h₁] at h
  exact ⟨e₁, hd.allocOk ha, hd, h⟩

theorem yields_alloc : Yields alloc true := by
  intro e ha
  refine ⟨e.popAlloc, ?_, e.draws_popAlloc⟩
  rw [alloc_apply, ha.head]

theorem yields_allocated (a : α) : Yields (allocated a) (some a) := by
  intro e ha
  refine ⟨e.popAlloc, ?_, e.draws_popAlloc⟩
  rw [allocated_apply, ha.head]
  rfl

theorem yields_parse (text : String) : Yields (Json.parse text) (Json.parseText text) :=
  Yields.bind yields_alloc (yields_pure _)

end yields

section gives

variable {F : Fault → Prop} {P : α → Prop} {Q : β → Prop} {m : Run α} {f : α → Run β}

theorem gives_pure {a : α} (h : P a) : Gives F P (pure a) := by
  intro e
  rw [Prog.upTo_pure]
  exact ⟨h, .refl e⟩

theorem gives_throw {x : Fault} (h : F x) : Gives F P (throw x) := by
  intro e
  refine ⟨fun a e' ha => ?_, fun y hy => ?_⟩
  · cases ha
  · cases hy
    exact h

theorem Gives.bind (hm : Gives F P m) (hf : ∀ a, P a → Gives F Q (f a)) :
    Gives F Q (m >>= f) := by
  intro e
  apply Prog.upTo_bind
  refine Prog.upTo_mono (hm e) (fun a e₁ ha => ?_) fun x hx => hx
  refine Prog.upTo_mono (hf a ha.1 e₁) (fun b e₂ hb => ?_) fun x hx => hx
  exact ⟨hb.1, ha.2.trans hb.2⟩

theorem Gives.mono {F' : Fault → Prop} {P' : α → Prop} (hm : Gives F P m)
    (hP : ∀ a, P a → P' a) (hF : ∀ x, F x → F' x) : Gives F' P' m := by
  intro e
  refine Prog.upTo_mono (hm e) (fun a e' h => ?_) hF
  exact ⟨hP a h.1, h.2⟩

theorem Gives.of_ok (hm : Gives F P m) {e e' : Env} {a : α} (h : m e = .ok (a, e')) :
    P a ∧ e.Draws e' :=
  (hm e).1 a e' h

theorem Gives.ok (hm : Gives (fun _ => False) P m) (e : Env) :
    ∃ a e', m e = .ok (a, e') ∧ P a ∧ e.Draws e' := by
  rcases h : m e with x | ⟨a, e'⟩
  · exact ((hm e).2 x h).elim
  · exact ⟨a, e', rfl, hm.of_ok h⟩

theorem gives_alloc : Gives F (fun _ => True) alloc := by
  intro e
  refine ⟨fun b e' h => ?_, fun x hx => ?_⟩
  · cases h
    exact ⟨trivial, e.draws_popAlloc⟩
  · cases hx

theorem gives_allocated (a : α) : Gives F (fun o => o = none ∨ o = some a) (allocated a) := by
  refine Gives.bind gives_alloc fun b _ => ?_
  cases b with
  | false => exact gives_pure (Or.inl rfl)
  | true => exact gives_pure (Or.inr rfl)

theorem gives_getObjectItem (node : Option Json) (name : String) :
    Gives (fun _ => True) (fun o => ∀ j, node = some j → o = j.member? name)
      (Json.getObjectItem node name) := by
  cases node with
  | none => exact gives_pure (by simp)
  | some j =>
    by_cases hlook : j.Lookable
    · rw [Json.getObjectItem_of_lookable hlook]
      refine gives_pure fun k hk => ?_
      rw [Option.some.inj hk]
    · intro e
      refine ⟨fun o e' ho => ?_, fun _ _ => trivial⟩
      exact absurd (Json.getObjectItem_returns_iff.1 ⟨_, ho⟩) hlook

theorem gives_duplicate (v : Option Json) :
    Gives F (fun o => o = none ∨ o = v) (Json.duplicate v) := by
  cases v with
  | none => exact gives_pure (Or.inl rfl)
  | some v => exact gives_allocated v

theorem gives_addItemToObject (obj : Json) (name : String) (v : Option Json) :
    Gives F (fun j => obj.isObject = true → j.isObject = true) (obj.addItemToObject name v) := by
  cases v with
  | none => exact gives_pure id
  | some v =>
    refine Gives.bind gives_alloc fun b _ => ?_
    cases b with
    | true => exact gives_pure fun h => Json.isObject_addItem h name v
    | false => exact gives_pure id

theorem gives_addStringToObject (obj : Json) (name value : String) :
    Gives F (fun j => obj.isObject = true → j.isObject = true)
      (obj.addStringToObject name value) := by
  refine Gives.bind gives_alloc fun b _ => ?_
  cases b with
  | true => exact gives_pure fun h => Json.isObject_addItem h name _
  | false => exact gives_pure id

theorem gives_addOptionalString (obj : Json) (name : String) (value : Option String) :
    Gives F (fun j => obj.isObject = true → j.isObject = true)
      (addOptionalString obj name value) := by
  cases value with
  | none => exact gives_pure id
  | some value => exact gives_addStringToObject obj name value

theorem gives_parse (text : String) :
    Gives F (fun o => o = none ∨ o = Json.parseText text) (Json.parse text) := by
  refine Gives.bind gives_alloc fun b _ => ?_
  cases b with
  | true => exact gives_pure (Or.inr rfl)
  | false => exact gives_pure (Or.inl rfl)

theorem Gives.silent (hm : Gives F P m) : Silent m := by
  intro e a e' h
  exact (hm.of_ok h).2.effects_eq

end gives

section makes

variable {m : Run (Option α)} {f : Option α → Run (Option β)} {v : α} {w : β}

theorem makes_pure (v : α) : Makes (pure (some v)) v where
  any := gives_pure (Or.inr rfl)
  granted := yields_pure _

theorem makes_allocated (v : α) : Makes (allocated v) v where
  any := gives_allocated v
  granted := yields_allocated v

theorem Makes.bind (hm : Makes m v) (hn : f none = pure none) (hs : Makes (f (some v)) w) :
    Makes (m >>= f) w where
  any := by
    refine Gives.bind hm.any fun o ho => ?_
    rcases ho with rfl | rfl
    · rw [hn]
      exact gives_pure (Or.inl rfl)
    · exact hs.any
  granted := Yields.bind hm.granted hs.granted

theorem makes_copyField (v : Option α) : Makes (copyField v) v := by
  cases v with
  | none => exact makes_pure none
  | some a => exact Makes.bind (makes_allocated a) rfl (makes_pure _)

theorem Makes.gives (hm : Makes m v) (F : Fault → Prop) :
    Gives F (fun o => o = none ∨ o = some v) m :=
  hm.any.mono (fun _ h => h) fun _ h => h.elim

theorem spends_pure (v : α) : Spends 0 (pure (some v)) v := by
  intro e e' u h
  cases h
  exact ⟨rfl, Stream'.drop_zero.symm⟩

theorem spends_allocated (v : α) : Spends 1 (allocated v) v := by
  intro e e' u h
  rw [allocated_apply] at h
  cases hhead : e.alloc.head with
  | false =>
    rw [hhead] at h
    cases h
  | true =>
    rw [hhead] at h
    cases h
    exact ⟨rfl, rfl⟩

theorem Spends.bind {n k : ℕ} (hm : Spends n m v) (hn : f none = pure none)
    (hs : Spends k (f (some v)) w) : Spends (n + k) (m >>= f) w := by
  intro e e' u h
  obtain ⟨o, e₁, hfirst, hrest⟩ := Prog.bind_eq_ok.1 h
  cases o with
  | none =>
    rw [hn] at hrest
    cases hrest
  | some a =>
    obtain ⟨rfl, hdrop⟩ := hm e e₁ a hfirst
    obtain ⟨hu, hdrop'⟩ := hs e₁ e' u hrest
    exact ⟨hu, by rw [hdrop', hdrop, Stream'.drop_drop]⟩

theorem spends_copyField (v : Option α) : Spends v.toList.length (copyField v) v := by
  cases v with
  | none => exact spends_pure none
  | some a =>
    have hlen : (some a).toList.length = 1 + 0 := rfl
    rw [hlen]
    exact Spends.bind (spends_allocated a) rfl (spends_pure _)

theorem spends_parse {text : String} {j : Json} (h : Json.parseText text = some j) :
    Spends 1 (Json.parse text) j := by
  intro e e' u hrun
  simp only [Json.parse, Prog.bind_of_ok (alloc_apply e)] at hrun
  cases hhead : e.alloc.head with
  | false =>
    rw [hhead] at hrun
    cases hrun
  | true =>
    simp only [hhead, if_true, h] at hrun
    cases hrun
    exact ⟨rfl, rfl⟩

end makes

section ends

variable {F : Fault → Prop} {P P' : α → Prop} {Q : β → Prop} {m : Run α} {f : α → Run β}

theorem ends_pure {a : α} (h : P a) : Ends F P (pure a) := by
  intro e
  rw [Prog.upTo_pure]
  exact h

theorem Ends.bind (hm : Ends F P m) (hf : ∀ a, P a → Ends F Q (f a)) :
    Ends F Q (m >>= f) := by
  intro e
  apply Prog.upTo_bind
  exact Prog.upTo_mono (hm e) (fun a e₁ ha => hf a ha e₁) fun x hx => hx

theorem Ends.ok (hm : Ends (fun _ => False) P m) (e : Env) : ∃ a e', m e = .ok (a, e') ∧ P a := by
  cases h : m e with
  | error x => exact ((hm e).2 x h).elim
  | ok r => exact ⟨r.1, r.2, rfl, (hm e).1 r.1 r.2 h⟩

theorem Ends.mono (hm : Ends F P m) (hP : ∀ a, P a → P' a) : Ends F P' m :=
  fun e => Prog.upTo_mono (hm e) (fun a _ => hP a) fun _ hx => hx

/-- What holds of every value that is returned can be added to a bound on the faults. -/
theorem Ends.and (hm : Ends F P m) (hm' : Ends (fun _ => True) P' m) :
    Ends F (fun a => P a ∧ P' a) m :=
  fun e => ⟨fun a e' h => ⟨(hm e).1 a e' h, (hm' e).1 a e' h⟩, (hm e).2⟩

theorem Gives.ends (hm : Gives F P m) : Ends F P m :=
  fun e => Prog.upTo_mono (hm e) (fun _ _ h => h.1) fun _ hx => hx

theorem Emitting.ends {E : Effect → Prop} (hm : Emitting E m) : Ends F (fun _ => True) m := by
  intro e
  refine ⟨fun _ _ _ => trivial, ?_⟩
  intro x hx
  obtain ⟨r, hr⟩ := Prog.Keeps.returns hm e
  rw [hx] at hr
  cases hr

theorem ends_of_ok (h : ∀ e e' a, m e = .ok (a, e') → P a) : Ends (fun _ => True) P m :=
  fun e => ⟨fun a e' ha => h e e' a ha, fun _ _ => trivial⟩

/-- A lookup stops only where it meets a non-empty array. -/
theorem ends_getObjectItem {j : Json} (h : F .nullName ∨ j.Lookable) (name : String) :
    Ends F (fun o => o = j.member? name) (Json.getObjectItem (some j) name) := by
  intro e
  refine ⟨fun o e' ho => ?_, fun x hx => ?_⟩
  · have hlook := Json.getObjectItem_returns_iff.1 ⟨_, ho⟩
    rw [Json.getObjectItem_of_lookable hlook] at ho
    cases ho
    rfl
  · rcases h with h | hlook
    · match j, hx with
      | .array (_ :: _), hx =>
        cases hx
        exact h
    · rw [Json.getObjectItem_of_lookable hlook] at hx
      cases hx

end ends

end Run

end Nssf
