import Nssf.Availability.Publication

/-! When the slices of a record stay a set. A replace drops what it has already seen, while a
patch takes every value at its word. -/

namespace Nssf

open Base Run NssaiAvailabilityInfo

/-- The slices are objects, no two of them the same. -/
structure SliceSet (items : List Json) : Prop where
  objects : ∀ x ∈ items, x.isObject = true
  distinct : items.Pairwise fun a b => sameSnssai a b = false

/-- An object that is not the same slice as any of the others. -/
structure Fresh (others : List Json) (v : Json) : Prop where
  object : v.isObject = true
  new : ∀ x ∈ others, sameSnssai x v = false

theorem sameSnssai_comm (a b : Json) : sameSnssai a b = sameSnssai b a := by
  rw [Bool.eq_iff_iff, sameSnssai_iff, sameSnssai_iff]
  simp only [and_comm]

namespace SliceSet

variable {items others : List Json} {v : Json}

theorem nil : SliceSet [] where
  objects := by simp
  distinct := List.Pairwise.nil

theorem perm (h : SliceSet items) (hp : items.Perm others) : SliceSet others where
  objects := fun x hx => h.objects x (hp.mem_iff.2 hx)
  distinct := by
    refine (hp.pairwise_iff fun hab => ?_).1 h.distinct
    rw [sameSnssai_comm]
    exact hab

theorem sublist (h : SliceSet items) (hs : others.Sublist items) : SliceSet others where
  objects := fun x hx => h.objects x (hs.subset hx)
  distinct := h.distinct.sublist hs

theorem cons (h : SliceSet items) (hv : Fresh items v) : SliceSet (v :: items) where
  objects := by
    simp only [List.forall_mem_cons]
    exact ⟨hv.object, h.objects⟩
  distinct := by
    rw [List.pairwise_cons]
    refine ⟨fun x hx => ?_, h.distinct⟩
    rw [sameSnssai_comm]
    exact hv.new x hx

end SliceSet

theorem parseArrayIndex_le {path : String} {len i : ℕ} {allowAppend : Bool}
    (h : parseArrayIndex path len allowAppend = some i) :
    i ≤ len ∧ (allowAppend = false → i < len) := by
  unfold parseArrayIndex at h
  split at h
  · split_ifs at h with happend hempty
    · cases h
      rw [Bool.and_eq_true] at happend
      simp [happend.1]
    · obtain ⟨-, hi⟩ := Option.filter_eq_some_iff.1 h
      simp only [Bool.and_eq_true, Bool.or_eq_true, decide_eq_true_eq] at hi
      refine ⟨hi.1, fun hno => ?_⟩
      simpa [hno] using hi.2
  · cases h

/-- The operation brings no value, or one that is fresh among the slices that it joins. -/
def Harmless (target : List Json) (op : Json) : Prop :=
  match op.member? "op", op.member? "path", op.member? "value" with
  | some (.string "add"), _, some v => Fresh target v
  | some (.string "replace"), some (.string path), some v =>
    ∀ i, parseArrayIndex path target.length false = some i → Fresh (target.eraseIdx i) v
  | _, _, _ => True

theorem SliceSet.editOnce {target next : List Json} {op : Json} (h : SliceSet target)
    (ho : Harmless target op) (hn : editOnce target op = some next) : SliceSet next := by
  unfold Nssf.editOnce at hn
  unfold Harmless at ho
  split at hn
  · rename_i path hop hpath
    obtain ⟨i, hi, hn⟩ := Option.bind_eq_some_iff.1 hn
    obtain ⟨v, hv, hn⟩ := Option.bind_eq_some_iff.1 hn
    rw [hop, hpath, hv] at ho
    cases hn
    exact (h.cons ho).perm (List.perm_insertIdx v target (parseArrayIndex_le hi).1).symm
  · obtain ⟨i, hi, hn⟩ := Option.bind_eq_some_iff.1 hn
    cases hn
    exact h.sublist (List.eraseIdx_sublist target i)
  · rename_i path hop hpath
    obtain ⟨i, hi, hn⟩ := Option.bind_eq_some_iff.1 hn
    obtain ⟨v, hv, hn⟩ := Option.bind_eq_some_iff.1 hn
    rw [hop, hpath, hv] at ho
    cases hn
    have hlt := (parseArrayIndex_le hi).2 rfl
    have hrest := h.sublist (List.eraseIdx_sublist target i)
    exact (hrest.cons (ho i hi)).perm (List.set_perm_cons_eraseIdx hlt v).symm
  · obtain ⟨i, hi, hn⟩ := Option.bind_eq_some_iff.1 hn
    obtain ⟨item, hitem, hn⟩ := Option.bind_eq_some_iff.1 hn
    obtain ⟨v, hv, hn⟩ := Option.bind_eq_some_iff.1 hn
    split_ifs at hn
    cases hn
    exact h
  · cases hn

/-- Each operation is harmless to the list that the ones before it leave. -/
def AllHarmless : List Json → List Json → Prop
  | _, [] => True
  | target, op :: ops =>
    Harmless target op ∧ ∀ next, editOnce target op = some next → AllHarmless next ops

theorem SliceSet.edits {target patched ops : List Json} (h : SliceSet target)
    (ho : AllHarmless target ops) (hp : edits target ops = some patched) : SliceSet patched := by
  induction ops generalizing target with
  | nil =>
    cases hp
    exact h
  | cons op ops ih =>
    unfold Nssf.edits at hp
    rw [List.foldlM_cons] at hp
    obtain ⟨next, hnext, hp⟩ := Option.bind_eq_some_iff.1 hp
    exact ih (h.editOnce ho.1 hnext) (ho.2 next hnext) hp

namespace EngineCall

variable {τ : Type} {seam : PublishSeam τ}

/-- A patch that applies is harmless to the slices it meets. -/
def Benign (c : EngineCall) (r : AvailabilityRepo) : Prop :=
  match c with
  | .patch nfId _ _ ops? _ => ∀ nf ops x items patched, nfId = some nf → ops? = some (.array ops) →
      r.row? nf = some x → x.slices = .array items → edits items ops = some patched →
      AllHarmless items ops
  | _ => True

/-- One call, of an engine that is patched with benign patches only. -/
def BenignStep (seam : PublishSeam τ) (s s' : AvailabilityRepo × τ) : Prop :=
  ∃ (c : EngineCall) (e e' : Env) (reply : AvailabilityReply),
    c.Benign s.1 ∧ c.run seam s.1 s.2 e = .ok ((reply, s'), e')

theorem BenignStep.step {s s' : AvailabilityRepo × τ} (h : BenignStep seam s s') :
    Step seam s s' := by
  obtain ⟨c, e, e', reply, -, hrun⟩ := h
  exact ⟨c, e, e', reply, hrun⟩

end EngineCall

end Nssf
