import Nssf.Base.Kahn
import Nssf.Design.CScope

/-! The passes from the references to the C text as recursions that may not end. The queue and the
sort always do; the merge does unless a schema is merged into itself. -/

namespace Nssf.Design.CStructs

open Base DepthFirst

section queue

variable (loader : SchemaLoader)

def serve : ℕ → Collected → List (String × String × ℕ) → Option Collected
  | _, collected, [] => some collected
  | 0, _, _ :: _ => none
  | fuel + 1, collected, (ref, baseYaml, depth) :: queue =>
    if maxDepth < depth then serve fuel collected queue
    else
      let (name, schema, sourceYaml) := loader.resolveRef ref baseYaml
      if (collected.get? name).isSome then serve fuel collected queue
      else
        serve fuel (collected.set name ⟨schema, sourceYaml, ref⟩)
          (queue ++ (schema.elim [] Schema.refs).map fun sub => (sub, sourceYaml, depth + 1))

def queued (depth : ℕ) (level : Level) : List (String × String × ℕ) :=
  level.map fun entry => (entry.1, entry.2, depth)

variable {loader}

/-- What stands in the queue at one depth is served before what it brings in. -/
theorem serve_level {depth : ℕ} (hdepth : depth ≤ maxDepth) (fuel : ℕ) (level : Level)
    (acc : Collected × Level) :
    serve loader (level.length + fuel) acc.1 (queued depth level ++ queued (depth + 1) acc.2) =
      serve loader fuel (level.foldl (collectOne loader) acc).1
        (queued (depth + 1) (level.foldl (collectOne loader) acc).2) := by
  induction level generalizing acc with
  | nil => simp [queued]
  | cons entry level ih =>
    have hstep := ih (collectOne loader acc entry)
    have hlen : (entry :: level).length + fuel = (level.length + fuel) + 1 := by
      rw [List.length_cons]
      omega
    rw [hlen, List.foldl_cons, ← hstep]
    simp only [queued, List.map_cons, List.cons_append, serve, if_neg (Nat.not_lt.2 hdepth),
      collectOne]
    split_ifs with hknown
    · rfl
    · simp only [List.map_append, List.map_map, List.append_assoc]
      rfl

theorem serve_beyond (level : Level) (collected : Collected) :
    serve loader level.length collected (queued (maxDepth + 1) level) = some collected := by
  induction level with
  | nil => rfl
  | cons entry level ih =>
    simp only [queued, List.map_cons, List.length_cons, serve, if_pos (Nat.lt_succ_self maxDepth)]
    exact ih

theorem exists_serve (depths : ℕ) {depth : ℕ} (hdepth : depths + depth = maxDepth + 1)
    (collected : Collected) (level : Level) :
    ∃ fuel, serve loader fuel collected (queued depth level) =
      some (collectFrom loader depths collected level) := by
  induction depths generalizing depth collected level with
  | zero =>
    obtain rfl : depth = maxDepth + 1 := by omega
    exact ⟨level.length, serve_beyond level collected⟩
  | succ depths ih =>
    obtain ⟨fuel, hfuel⟩ := @ih (depth + 1) (by omega)
      (level.foldl (collectOne loader) (collected, [])).1
      (level.foldl (collectOne loader) (collected, [])).2
    have hlevel := @serve_level loader depth (by omega) fuel level (collected, [])
    refine ⟨level.length + fuel, ?_⟩
    rw [hfuel] at hlevel
    simpa [queued, collectFrom] using hlevel

theorem serve_succ {fuel : ℕ} {collected c : Collected} {queue : List (String × String × ℕ)}
    (h : serve loader fuel collected queue = some c) :
    serve loader (fuel + 1) collected queue = some c := by
  induction fuel generalizing collected queue with
  | zero =>
    cases queue with
    | nil => exact h
    | cons entry queue => cases h
  | succ fuel ih =>
    cases queue with
    | nil => exact h
    | cons entry queue =>
      obtain ⟨ref, baseYaml, depth⟩ := entry
      rw [serve] at h ⊢
      split_ifs at h ⊢ with hdeep
      · exact ih h
      · simp only at h ⊢
        split_ifs at h ⊢ with hknown
        · exact ih h
        · exact ih h

theorem serve_unique {fuel fuel' : ℕ} {collected c c' : Collected}
    {queue : List (String × String × ℕ)} (h : serve loader fuel collected queue = some c)
    (h' : serve loader fuel' collected queue = some c') : c = c' := by
  have hle : ∀ {k k' d}, k ≤ k' → serve loader k collected queue = some d →
      serve loader k' collected queue = some d := by
    intro k k' d hle hk
    induction hle with
    | refl => exact hk
    | step _ ih => exact serve_succ ih
  have hmax := hle (Nat.le_max_left fuel fuel') h
  rw [hle (Nat.le_max_right fuel fuel') h'] at hmax
  exact (Option.some.inj hmax).symm

end queue

section merge

variable {collected : Collected} {follow : String → Option (Option Schema)}

/-- The names that the arms of a schema refer to. -/
def mergedNames (collected : Collected) (name : String) : List String :=
  ((schemaOf? collected name).elim [] armRefs).map refName

def MergeAcyclic (collected : Collected) : Prop :=
  Kahn.Acyclic collected.keys (mergedNames collected)

theorem armRefsIn_nil {ks : List (Role × Schema)} (h : ks.any (fun k => k.1 == .allOf) = false) :
    armRefsIn ks = [] := by
  induction ks with
  | nil => rfl
  | cons k ks ih =>
    obtain ⟨role, s⟩ := k
    rw [List.any_cons, Bool.or_eq_false_iff] at h
    cases role with
    | allOf => cases h.1
    | property name => exact ih h.2
    | items => exact ih h.2
    | additional => exact ih h.2
    | anyOf => exact ih h.2
    | oneOf => exact ih h.2

mutual

/-- A merge that ends has followed every reference of the arms to an end. -/
theorem follow_of_mergeAllof : ∀ s : Schema, (mergeAllof follow s).isSome = true →
    ∀ r ∈ armRefs s, (follow (refName r)).isSome = true
  | .mk hd ks, h => by
    simp only [mergeAllof] at h
    split_ifs at h with hall
    · rw [Option.isSome_map] at h
      exact follow_of_mergeArms ks _ h
    · rw [Schema.hasAllOf, Bool.not_eq_true, Bool.or_eq_false_iff] at hall
      have hnone : armRefsIn ks = [] := armRefsIn_nil hall.2
      rw [armRefs, hnone]
      exact fun r hr => by cases hr

theorem follow_of_mergeArms : ∀ (ks : List (Role × Schema)) (acc : Properties × List String),
    (mergeArms follow ks acc).isSome = true →
      ∀ r ∈ armRefsIn ks, (follow (refName r)).isSome = true
  | [], _, _ => fun r hr => by cases hr
  | (.allOf, part) :: ks, acc, h => by
    intro r hr
    simp only [mergeArms] at h
    rw [armRefsIn, List.mem_append] at hr
    cases href : part.head.ref with
    | some ref =>
      rw [href] at hr
      cases hfound : follow (refName ref) with
      | none =>
        simp only [href, hfound] at h
        cases h
      | some found =>
        simp only [href, hfound] at h
        rcases hr with hr | hr
        · rw [List.mem_singleton.1 hr, hfound]
          rfl
        · cases found with
          | none => exact follow_of_mergeArms ks _ h r hr
          | some s => exact follow_of_mergeArms ks _ h r hr
    | none =>
      rw [href] at hr
      cases hpart : mergeAllof follow part with
      | none =>
        simp only [href, hpart] at h
        cases h
      | some s =>
        simp only [href, hpart] at h
        rcases hr with hr | hr
        · exact follow_of_mergeAllof part (by rw [hpart]; rfl) r hr
        · exact follow_of_mergeArms ks _ h r hr
  | (.property _, _) :: ks, acc, h => follow_of_mergeArms ks acc h
  | (.items, _) :: ks, acc, h => follow_of_mergeArms ks acc h
  | (.additional, _) :: ks, acc, h => follow_of_mergeArms ks acc h
  | (.anyOf, _) :: ks, acc, h => follow_of_mergeArms ks acc h
  | (.oneOf, _) :: ks, acc, h => follow_of_mergeArms ks acc h

end

theorem mem_keys_of_schemaOf {n : String} {s : Schema} (h : schemaOf? collected n = some s) :
    n ∈ collected.keys := by
  obtain ⟨info, hinfo, -⟩ := Option.bind_eq_some_iff.1 h
  exact List.mem_map.2 ⟨(n, info), collected.get?_eq_some_iff.1 hinfo, rfl⟩

theorem exists_of_mergedNames {n d : String} (h : d ∈ mergedNames collected n) :
    ∃ s r, schemaOf? collected n = some s ∧ r ∈ armRefs s ∧ refName r = d := by
  obtain ⟨r, hr, rfl⟩ := List.mem_map.1 h
  cases hs : schemaOf? collected n with
  | none =>
    rw [hs] at hr
    cases hr
  | some s =>
    rw [hs] at hr
    exact ⟨s, r, rfl, hr, rfl⟩

/-- The jumps bound the length of a way through the arms, so no way comes back. -/
theorem no_cycle_of_mergeRef (fuel : ℕ) {n : String}
    (h : (mergeRef collected fuel n).isSome = true) :
    ¬Relation.TransGen (Kahn.Edge collected.keys (mergedNames collected)) n n := by
  induction fuel generalizing n with
  | zero => cases h
  | succ fuel ih =>
    intro hcycle
    obtain ⟨m, hway, hlast⟩ := Relation.TransGen.tail'_iff.1 hcycle
    obtain ⟨s, r, hs, hr, rfl⟩ := exists_of_mergedNames hlast.2
    simp only [mergeRef, hs, Option.isSome_map] at h
    exact ih (follow_of_mergeAllof s h r hr) (Relation.TransGen.head' hlast hway)

theorem mergeAcyclic_of_emitAll {fuel : ℕ} {order : List String} {decls : List CDecl}
    (h : emitAll collected fuel order = some decls) (hall : ∀ n ∈ collected.keys, n ∈ order) :
    MergeAcyclic collected := by
  intro n hcycle
  obtain ⟨m, hway, hlast⟩ := Relation.TransGen.tail'_iff.1 hcycle
  obtain ⟨s, r, hs, hr, rfl⟩ := exists_of_mergedNames hlast.2
  obtain ⟨hnames, heach⟩ := emitAll_spec h
  have hn : n ∈ decls.map CDecl.schemaName := by
    rw [hnames]
    exact hall n hlast.1
  obtain ⟨d, hd, rfl⟩ := List.mem_map.1 hn
  have hemit := heach d hd
  simp only [emitSchema, hs] at hemit
  obtain ⟨merged, hmerged, -⟩ := Option.map_eq_some_iff.1 hemit
  have hfollow := follow_of_mergeAllof s (by rw [hmerged]; rfl) r hr
  exact no_cycle_of_mergeRef fuel hfollow (Relation.TransGen.head' hlast hway)

theorem exists_emitAll_of_acyclic (hacyclic : MergeAcyclic collected) (order : List String) :
    ∃ fuel decls, emitAll collected fuel order = some decls := by
  obtain ⟨rank, hrank⟩ := Kahn.exists_rank hacyclic
  have hless : ∀ n s, schemaOf? collected n = some s →
      ∀ r ∈ armRefs s, rank (refName r) < rank n := fun n s hs r hr => by
    refine hrank n (mem_keys_of_schemaOf hs) (refName r) ?_
    rw [mergedNames, hs]
    exact List.mem_map_of_mem hr
  exact exists_emitAll hless order

end merge

section ends

/-- The queue, the sort and the merge come to an end on these references, and every schema that was
collected is defined once. -/
def Ends (loader : SchemaLoader) (roots : Level) : Prop :=
  ∃ steps depth jumps collected order decls,
    serve loader steps Dict.empty (queued 0 roots) = some collected ∧
    tryOrder (followed collected) depth collected.keys = some order ∧
    emitAll collected jumps order = some decls ∧
    ∀ n ∈ collected.keys, (decls.map CDecl.schemaName).count n = 1

theorem Ends.acyclic {loader : SchemaLoader} {roots : Level} (h : Ends loader roots) :
    MergeAcyclic (collectChain loader roots) := by
  obtain ⟨steps, depth, jumps, collected, order, decls, hserve, -, hemit, honce⟩ := h
  obtain ⟨fuel, hfuel⟩ := @exists_serve loader (maxDepth + 1) 0 rfl Dict.empty roots
  have hcollected : collected = collectChain loader roots := serve_unique hserve hfuel
  subst hcollected
  refine mergeAcyclic_of_emitAll hemit fun n hn => ?_
  rw [← (emitAll_spec hemit).1]
  exact List.count_pos_iff.1 (by rw [honce n hn]; exact Nat.one_pos)

theorem ends_of_acyclic {loader : SchemaLoader} {roots : Level}
    (h : MergeAcyclic (collectChain loader roots)) : Ends loader roots := by
  obtain ⟨steps, hsteps⟩ := @exists_serve loader (maxDepth + 1) 0 rfl Dict.empty roots
  obtain ⟨jumps, decls, hdecls⟩ :=
    exists_emitAll_of_acyclic h (topoSort (collectChain loader roots))
  have horder : tryOrder (followed (collectChain loader roots))
      ((collectChain loader roots).keys.length + 1) (collectChain loader roots).keys =
        some (topoSort (collectChain loader roots)) := tryOrder_eq fun x hx => followed_keys hx
  refine ⟨steps, _, jumps, _, _, decls, hsteps, horder, hdecls, ?_⟩
  intro n hn
  rw [(emitAll_spec hdecls).1]
  exact List.count_eq_one_of_mem nodup_topoSort ((mem_topoSort n).2 hn)

/-- The passes end just when no schema that is collected is merged into itself. -/
theorem ends_iff (loader : SchemaLoader) (roots : Level) :
    Ends loader roots ↔ MergeAcyclic (collectChain loader roots) :=
  ⟨Ends.acyclic, ends_of_acyclic⟩

def selfRef : String := "#/components/schemas/Snssai"

/-- A schema with itself as an arm. -/
def selfSchema : Schema := .mk EmitJson.emptyHead [(.allOf, refOnly selfRef)]

def selfLoader : SchemaLoader where
  knownYaml _ := none
  schemas _ name := if name = "Snssai" then some selfSchema else none

theorem not_ends_self : ¬∀ (loader : SchemaLoader) (roots : Level), Ends loader roots := by
  intro h
  have hcollected : collectChain selfLoader [(selfRef, sampleYaml)] =
      Dict.empty.set "Snssai" ⟨some selfSchema, sampleYaml, selfRef⟩ := rfl
  have hacyclic := (h selfLoader [(selfRef, sampleYaml)]).acyclic
  rw [hcollected] at hacyclic
  exact hacyclic "Snssai" (.single ⟨List.mem_singleton_self _, List.mem_singleton_self _⟩)

end ends

end Nssf.Design.CStructs
