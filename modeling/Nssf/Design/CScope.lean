import Nssf.Design.CNames

/-! What the generated declarations use before it is defined, and which of their names meet. The
sort follows every reference, so a struct that is held by value comes first unless something on
the way to it leads back to the holder. -/

namespace Nssf.Design.CStructs

open Base DepthFirst

section uses

variable {collected : Collected}

theorem mem_propertiesOf {p : String × Schema} {ks : List (Role × Schema)}
    (h : p ∈ propertiesOf ks) : (Role.property p.1, p.2) ∈ ks := by
  induction ks with
  | nil => cases h
  | cons k ks ih =>
    obtain ⟨role, s⟩ := k
    cases role with
    | property name =>
      rcases List.mem_cons.1 h with rfl | h
      · exact List.mem_cons_self
      · exact List.mem_cons_of_mem _ (ih h)
    | items => exact List.mem_cons_of_mem _ (ih h)
    | additional => exact List.mem_cons_of_mem _ (ih h)
    | allOf => exact List.mem_cons_of_mem _ (ih h)
    | anyOf => exact List.mem_cons_of_mem _ (ih h)
    | oneOf => exact List.mem_cons_of_mem _ (ih h)

theorem refs_subset_refsIn {k : Role × Schema} {ks : List (Role × Schema)} (h : k ∈ ks) :
    ∀ r ∈ k.2.refs, r ∈ Schema.refsIn ks := by
  induction ks with
  | nil => cases h
  | cons k' ks ih =>
    intro r hr
    rcases List.mem_cons.1 h with rfl | h
    · exact List.mem_append_left _ hr
    · exact List.mem_append_right _ (ih h r hr)

theorem refs_subset_of_kid {s : Schema} {k : Role × Schema} (h : k ∈ s.kids) :
    ∀ r ∈ k.2.refs, r ∈ s.refs := by
  cases s with
  | mk hd ks => exact fun r hr => List.mem_append_right _ (refs_subset_refsIn h r hr)

theorem mem_refs_of_head {s : Schema} {ref : String} (h : s.head.ref = some ref) :
    ref ∈ s.refs := by
  cases s with
  | mk hd ks =>
    have hhead : hd.ref = some ref := h
    simp [Schema.refs, hhead]

end uses

section merged

variable {follow : String → Option (Option Schema)} {good : Schema → Prop}

theorem addProperties_mem {props more : Properties} {p : String × Schema}
    (h : p ∈ addProperties props more) : p ∈ props ∨ p ∈ more := by
  induction more generalizing props with
  | nil => exact Or.inl h
  | cons q more ih =>
    rcases ih h with hin | hin
    · simp only at hin
      split_ifs at hin
      · exact Or.inl hin
      · rcases List.mem_append.1 hin with hin | hin
        · exact Or.inl hin
        · rw [List.mem_singleton.1 hin]
          exact Or.inr List.mem_cons_self
    · exact Or.inr (List.mem_cons_of_mem _ hin)

/-- The properties that are merged in over these references are good. -/
def FollowsGood (follow : String → Option (Option Schema)) (good : Schema → Prop)
    (refs : List String) : Prop :=
  ∀ r ∈ refs, ∀ s, follow (refName r) = some (some s) → ∀ p ∈ propertiesOf s.kids, good p.2

theorem FollowsGood.mono {refs refs' : List String} (h : FollowsGood follow good refs)
    (hsub : ∀ r ∈ refs', r ∈ refs) : FollowsGood follow good refs' :=
  fun r hr => h r (hsub r hr)

theorem own_property {ks : List (Role × Schema)} {props : Properties} {p : String × Schema}
    (h : p ∈ propertiesOf (ks.filter isOwn ++ props.map fun q => (.property q.1, q.2))) :
    p ∈ props := by
  rcases List.mem_append.1 (mem_propertiesOf h) with hown | hmerged
  · have hno := (List.mem_filter.1 hown).2
    simp [isOwn, Schema.isProperty] at hno
  · obtain ⟨q, hq, heq⟩ := List.mem_map.1 hmerged
    have hp : q = p := Prod.ext (Role.property.inj (Prod.mk.inj heq).1) (Prod.mk.inj heq).2
    rw [← hp]
    exact hq

mutual

/-- The properties of a merged schema are its own or come over a reference. -/
theorem mergeAllof_good : ∀ s m, mergeAllof follow s = some m →
    (∀ t : Schema, (∀ r ∈ t.refs, r ∈ s.refs) → good t) → FollowsGood follow good s.refs →
    ∀ p ∈ propertiesOf m.kids, good p.2
  | .mk hd ks, m, h, hown, hfollow => by
    have hkids : ∀ p ∈ propertiesOf ks, good p.2 := fun p hp =>
      hown p.2 (@refs_subset_of_kid (.mk hd ks) _ (mem_propertiesOf hp))
    simp only [mergeAllof] at h
    split_ifs at h with hall
    · obtain ⟨merged, hmerged, rfl⟩ := Option.map_eq_some_iff.1 h
      intro p hp
      refine mergeArms_good ks _ merged hmerged (fun t ht => ?_) ?_ hkids p (own_property hp)
      · exact hown t fun r hr => List.mem_append_right _ (ht r hr)
      · exact hfollow.mono fun r hr => List.mem_append_right _ hr
    · cases h
      exact hkids

theorem mergeArms_good : ∀ ks acc out, mergeArms follow ks acc = some out →
    (∀ t : Schema, (∀ r ∈ t.refs, r ∈ Schema.refsIn ks) → good t) →
    FollowsGood follow good (Schema.refsIn ks) → (∀ p ∈ acc.1, good p.2) → ∀ p ∈ out.1, good p.2
  | [], acc, out, h, _, _, hacc => by
    cases h
    exact hacc
  | (.allOf, part) :: ks, acc, out, h, hown, hfollow, hacc => by
    have hrest : ∀ acc', mergeArms follow ks acc' = some out → (∀ p ∈ acc'.1, good p.2) →
        ∀ p ∈ out.1, good p.2 := fun acc' h' hacc' =>
      mergeArms_good ks acc' out h'
        (fun t ht => hown t fun r hr => List.mem_append_right _ (ht r hr))
        (hfollow.mono fun r hr => List.mem_append_right _ hr) hacc'
    have hmerge : ∀ s : Schema, (∀ p ∈ propertiesOf s.kids, good p.2) →
        mergeArms follow ks
          (addProperties acc.1 (propertiesOf s.kids), addRequired acc.2 s.head.required) =
            some out → ∀ p ∈ out.1, good p.2 := by
      intro s hs h'
      refine hrest _ h' fun p hp => ?_
      rcases addProperties_mem hp with hp | hp
      · exact hacc p hp
      · exact hs p hp
    simp only [mergeArms] at h
    cases href : part.head.ref with
    | some ref =>
      rw [href] at h
      simp only at h
      cases hsub : follow (refName ref) with
      | none =>
        rw [hsub] at h
        cases h
      | some found =>
        rw [hsub] at h
        cases found with
        | none => exact hrest acc h hacc
        | some s =>
          refine hmerge s (hfollow ref ?_ s hsub) h
          exact List.mem_append_left _ (mem_refs_of_head href)
    | none =>
      rw [href] at h
      simp only at h
      cases hsub : mergeAllof follow part with
      | none =>
        rw [hsub] at h
        cases h
      | some s =>
        rw [hsub] at h
        refine hmerge s (mergeAllof_good part s hsub (fun t ht => ?_) ?_) h
        · exact hown t fun r hr => List.mem_append_left _ (ht r hr)
        · exact hfollow.mono fun r hr => List.mem_append_left _ hr
  | (.property _, s) :: ks, acc, out, h, hown, hfollow, hacc => by
    simp only [mergeArms] at h
    exact mergeArms_good ks acc out h
      (fun t ht => hown t fun r hr => List.mem_append_right _ (ht r hr))
      (hfollow.mono fun r hr => List.mem_append_right _ hr) hacc
  | (.items, s) :: ks, acc, out, h, hown, hfollow, hacc => by
    simp only [mergeArms] at h
    exact mergeArms_good ks acc out h
      (fun t ht => hown t fun r hr => List.mem_append_right _ (ht r hr))
      (hfollow.mono fun r hr => List.mem_append_right _ hr) hacc
  | (.additional, s) :: ks, acc, out, h, hown, hfollow, hacc => by
    simp only [mergeArms] at h
    exact mergeArms_good ks acc out h
      (fun t ht => hown t fun r hr => List.mem_append_right _ (ht r hr))
      (hfollow.mono fun r hr => List.mem_append_right _ hr) hacc
  | (.anyOf, s) :: ks, acc, out, h, hown, hfollow, hacc => by
    simp only [mergeArms] at h
    exact mergeArms_good ks acc out h
      (fun t ht => hown t fun r hr => List.mem_append_right _ (ht r hr))
      (hfollow.mono fun r hr => List.mem_append_right _ hr) hacc
  | (.oneOf, s) :: ks, acc, out, h, hown, hfollow, hacc => by
    simp only [mergeArms] at h
    exact mergeArms_good ks acc out h
      (fun t ht => hown t fun r hr => List.mem_append_right _ (ht r hr))
      (hfollow.mono fun r hr => List.mem_append_right _ hr) hacc

end

end merged

section held

variable {collected : Collected} {a : String}

end held

section order

variable {collected : Collected} {fuel : ℕ} {decls earlier later : List CDecl} {d : CDecl}

theorem isSome_get?_iff {n : String} :
    (collected.get? n).isSome = true ↔ n ∈ collected.keys := by
  rw [Option.isSome_iff_exists]
  constructor
  · rintro ⟨info, hinfo⟩
    exact List.mem_map.2 ⟨(n, info), (collected.get?_eq_some_iff).1 hinfo, rfl⟩
  · intro hn
    obtain ⟨e, he, rfl⟩ := List.mem_map.1 hn
    exact ⟨e.2, (collected.get?_eq_some_iff).2 he⟩

theorem followed_keys {x : String} (_ : x ∈ collected.keys) :
    ∀ y ∈ followed collected x, y ∈ collected.keys := by
  intro y hy
  have hknown : (collected.get? y).isSome = true ∧ y ≠ x := by
    simpa using (List.mem_filter.1 hy).2
  exact isSome_get?_iff.1 hknown.1

theorem mem_topoSort (n : String) : n ∈ topoSort collected ↔ n ∈ collected.keys :=
  mem_order (fun _ hx => followed_keys hx) n

theorem nodup_topoSort : (topoSort collected).Nodup := nodup_order fun _ hx => followed_keys hx

theorem emitSchema_name {n : String} (h : emitSchema collected fuel n = some d) :
    d.schemaName = n := by
  simp only [emitSchema] at h
  cases hs : schemaOf? collected n with
  | none =>
    rw [hs] at h
    cases h
    rfl
  | some s =>
    rw [hs] at h
    obtain ⟨m, -, rfl⟩ := Option.map_eq_some_iff.1 h
    rfl

theorem emitAll_spec {order : List String} (h : emitAll collected fuel order = some decls) :
    decls.map CDecl.schemaName = order ∧
      ∀ d ∈ decls, emitSchema collected fuel d.schemaName = some d := by
  induction order generalizing decls with
  | nil =>
    cases h
    exact ⟨rfl, fun d hd => by cases hd⟩
  | cons n order ih =>
    obtain ⟨d, hd, hrest⟩ := Option.bind_eq_some_iff.1 h
    obtain ⟨ds, hds, rfl⟩ := Option.map_eq_some_iff.1 hrest
    obtain ⟨hnames, heach⟩ := ih hds
    have hname := emitSchema_name hd
    refine ⟨by rw [List.map_cons, hname, hnames], fun d' hd' => ?_⟩
    rcases List.mem_cons.1 hd' with rfl | hd'
    · rw [hname]
      exact hd
    · exact heach d' hd'

end order

section result

variable {collected : Collected} {fuel : ℕ} {decls : List CDecl}

end result

section ends

variable {collected : Collected}

mutual

/-- The references that are merged in, the arms of an arm with them. -/
def armRefs : Schema → List String
  | .mk _ ks => armRefsIn ks

def armRefsIn : List (Role × Schema) → List String
  | [] => []
  | (.allOf, part) :: ks => part.head.ref.elim (armRefs part) (fun ref => [ref]) ++ armRefsIn ks
  | _ :: ks => armRefsIn ks

end

section

variable {follow : String → Option (Option Schema)}

mutual

theorem mergeAllof_isSome : ∀ s : Schema,
    (∀ r ∈ armRefs s, (follow (refName r)).isSome = true) → (mergeAllof follow s).isSome = true
  | .mk hd ks, h => by
    simp only [mergeAllof]
    split_ifs
    · rw [Option.isSome_map]
      exact mergeArms_isSome ks _ h
    · rfl

theorem mergeArms_isSome : ∀ (ks : List (Role × Schema)) (acc : Properties × List String),
    (∀ r ∈ armRefsIn ks, (follow (refName r)).isSome = true) →
      (mergeArms follow ks acc).isSome = true
  | [], _, _ => rfl
  | (.allOf, part) :: ks, acc, h => by
    have hrest : ∀ acc', (mergeArms follow ks acc').isSome = true := fun acc' =>
      mergeArms_isSome ks acc' fun r hr => h r (List.mem_append_right _ hr)
    simp only [mergeArms]
    cases href : part.head.ref with
    | some ref =>
      have hsome := h ref (List.mem_append_left _ (by rw [href]; exact List.mem_singleton_self ref))
      obtain ⟨found, hfound⟩ := Option.isSome_iff_exists.1 hsome
      simp only [hfound]
      cases found with
      | none => exact hrest acc
      | some s => exact hrest _
    | none =>
      have hsome : (mergeAllof follow part).isSome = true :=
        mergeAllof_isSome part fun r hr =>
          h r (List.mem_append_left _ (by rw [href]; exact hr))
      obtain ⟨s, hs⟩ := Option.isSome_iff_exists.1 hsome
      simp only [hs, Option.map_some]
      exact hrest _
  | (.property _, _) :: ks, acc, h => mergeArms_isSome ks acc h
  | (.items, _) :: ks, acc, h => mergeArms_isSome ks acc h
  | (.additional, _) :: ks, acc, h => mergeArms_isSome ks acc h
  | (.anyOf, _) :: ks, acc, h => mergeArms_isSome ks acc h
  | (.oneOf, _) :: ks, acc, h => mergeArms_isSome ks acc h

end

end

variable {rank : String → ℕ}

theorem mergeRef_isSome (hrank : ∀ n s, schemaOf? collected n = some s →
    ∀ r ∈ armRefs s, rank (refName r) < rank n) (fuel : ℕ) {n : String} (hfuel : rank n < fuel) :
    (mergeRef collected fuel n).isSome = true := by
  induction fuel generalizing n with
  | zero => omega
  | succ fuel ih =>
    simp only [mergeRef]
    cases hs : schemaOf? collected n with
    | none => rfl
    | some s =>
      simp only [Option.isSome_map]
      refine mergeAllof_isSome s fun r hr => ih ?_
      have hlt := hrank n s hs r hr
      omega

/-- The text is found when no schema is merged into itself. -/
theorem exists_emitAll (hrank : ∀ n s, schemaOf? collected n = some s →
    ∀ r ∈ armRefs s, rank (refName r) < rank n) (order : List String) :
    ∃ fuel decls, emitAll collected fuel order = some decls := by
  have hschema : ∀ fuel n, rank n ≤ fuel → (emitSchema collected fuel n).isSome = true := by
    intro fuel n hle
    simp only [emitSchema]
    cases hs : schemaOf? collected n with
    | none => rfl
    | some s =>
      simp only [Option.isSome_map]
      refine mergeAllof_isSome s fun r hr => mergeRef_isSome hrank fuel ?_
      have hlt := hrank n s hs r hr
      omega
  have hall : ∀ fuel order, (∀ n ∈ order, rank n ≤ fuel) →
      ∃ decls, emitAll collected fuel order = some decls := by
    intro fuel order
    induction order with
    | nil => exact fun _ => ⟨[], rfl⟩
    | cons n order ih =>
      intro hle
      obtain ⟨d, hd⟩ := Option.isSome_iff_exists.1 (hschema fuel n (hle n List.mem_cons_self))
      obtain ⟨ds, hds⟩ := ih fun m hm => hle m (List.mem_cons_of_mem n hm)
      exact ⟨d :: ds, by rw [emitAll, hd, Option.bind_some, hds, Option.map_some]⟩
  have hbound : ∃ bound, ∀ n ∈ order, rank n ≤ bound := by
    induction order with
    | nil => exact ⟨0, fun n hn => by cases hn⟩
    | cons n order ih =>
      obtain ⟨bound, hle⟩ := ih
      refine ⟨rank n + bound, fun m hm => ?_⟩
      rcases List.mem_cons.1 hm with rfl | hm
      · omega
      · have hm' := hle m hm
        omega
  obtain ⟨bound, hle⟩ := hbound
  obtain ⟨decls, hdecls⟩ := hall bound order hle
  exact ⟨bound, decls, hdecls⟩

end ends

def refOnly (ref : String) : Schema := .mk { EmitJson.emptyHead with ref := some ref } []

def sampleYaml : String := "TS29531_Nnssf_NSSelection.yaml"

end Nssf.Design.CStructs
