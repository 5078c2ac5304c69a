import Nssf.Design.SlicePlan

/-! The slice that is worked on next: the first one of the sorted plan that is not merged and
waits for nothing. -/

namespace Nssf.Design.SlicePlan

open Base

/-- Every dependency of the entry has the status `merged`. -/
def depsOk (statuses : Dict String String) (pr : PrSlice) : Bool :=
  pr.dependsOn.all fun d => statuses.get? d == some "merged"

/-- The walk over the order; a missing key raises. -/
def firstOpen (idToPr : Dict String PrSlice) (statuses : Dict String String) :
    List String → Except String (Option PrSlice)
  | [] => .ok none
  | pid :: rest =>
    match idToPr.get? pid, statuses.get? pid with
    | some pr, some status =>
      if status = "merged" then firstOpen idToPr statuses rest
      else if depsOk statuses pr then .ok (some pr)
      else firstOpen idToPr statuses rest
    | _, _ => .error pid

/-- `pick_next`, with the effective status of each entry. -/
def pickNext (prs : SlicePlan) (effectiveStatus : PrSlice → String) :
    Except String (Option PrSlice × Dict String String) := do
  let idToPr := Dict.ofList (prs.map fun pr => (pr.id, pr))
  let statuses := Dict.ofList (prs.map fun pr => (pr.id, effectiveStatus pr))
  let order ← prs.topoSort
  let next ← firstOpen idToPr statuses order
  return (next, statuses)

/-- Not merged, and everything it depends on is. -/
def Runnable (prs : SlicePlan) (effectiveStatus : PrSlice → String) (pr : PrSlice) : Prop :=
  effectiveStatus pr ≠ "merged" ∧
    ∀ q ∈ prs, q.id ∈ pr.dependsOn → effectiveStatus q = "merged"

/-- What is picked from an order. -/
structure Picks (prs : SlicePlan) (effectiveStatus : PrSlice → String) (order : List String)
    (next : Option PrSlice) : Prop where
  first : ∀ pr, next = some pr ↔ pr ∈ prs ∧ prs.Runnable effectiveStatus pr ∧
    ∃ before after, order = before ++ pr.id :: after ∧
      ∀ q ∈ prs, q.id ∈ before → ¬prs.Runnable effectiveStatus q
  done : next = none ↔ ∀ pr ∈ prs, effectiveStatus pr = "merged"

section pick

variable {prs : SlicePlan} {effectiveStatus : PrSlice → String}

theorem eq_of_id (hn : prs.ids.Nodup) {p q : PrSlice} (hp : p ∈ prs) (hq : q ∈ prs)
    (h : p.id = q.id) : p = q := List.inj_on_of_nodup_map hn hp hq h

theorem depsOk_iff (hn : prs.ids.Nodup) (hknown : ∀ pr ∈ prs, ∀ dep ∈ pr.dependsOn, dep ∈ prs.ids)
    {pr : PrSlice} (hpr : pr ∈ prs) :
    depsOk (Dict.ofList (prs.map fun pr => (pr.id, effectiveStatus pr))) pr = true ↔
      ∀ q ∈ prs, q.id ∈ pr.dependsOn → effectiveStatus q = "merged" := by
  simp only [depsOk, List.all_eq_true, beq_iff_eq, get_byId _ hn]
  constructor
  · intro h q hq hdep
    obtain ⟨r, hr, hid, hstatus⟩ := h q.id hdep
    rw [← eq_of_id hn hr hq hid]
    exact hstatus
  · intro h d hd
    obtain ⟨q, hq, rfl⟩ := List.mem_map.1 (hknown pr hpr d hd)
    exact ⟨q, hq, rfl, h q hq hd⟩

/-- One step of the walk for an entry of the plan. -/
theorem firstOpen_cons (hn : prs.ids.Nodup)
    (hknown : ∀ pr ∈ prs, ∀ dep ∈ pr.dependsOn, dep ∈ prs.ids) {pr : PrSlice} (hpr : pr ∈ prs)
    (rest : List String) :
    (prs.Runnable effectiveStatus pr →
      firstOpen (Dict.ofList (prs.map fun pr => (pr.id, pr)))
        (Dict.ofList (prs.map fun pr => (pr.id, effectiveStatus pr))) (pr.id :: rest) =
          .ok (some pr)) ∧
    (¬prs.Runnable effectiveStatus pr →
      firstOpen (Dict.ofList (prs.map fun pr => (pr.id, pr)))
        (Dict.ofList (prs.map fun pr => (pr.id, effectiveStatus pr))) (pr.id :: rest) =
      firstOpen (Dict.ofList (prs.map fun pr => (pr.id, pr)))
        (Dict.ofList (prs.map fun pr => (pr.id, effectiveStatus pr))) rest) := by
  have hget := (get_byId (fun pr => pr) hn).2 ⟨pr, hpr, rfl, rfl⟩
  have hstatus := (get_byId effectiveStatus hn).2 ⟨pr, hpr, rfl, rfl⟩
  have hdeps := @depsOk_iff prs effectiveStatus hn hknown pr hpr
  simp only [firstOpen, hget, hstatus]
  constructor
  · intro h
    rw [if_neg h.1, if_pos (hdeps.2 h.2)]
  · intro h
    by_cases hmerged : effectiveStatus pr = "merged"
    · rw [if_pos hmerged]
    · rw [if_neg hmerged, if_neg fun hok => h ⟨hmerged, hdeps.1 hok⟩]

theorem firstOpen_walk (hn : prs.ids.Nodup)
    (hknown : ∀ pr ∈ prs, ∀ dep ∈ pr.dependsOn, dep ∈ prs.ids) {order : List String}
    (horder : ∀ k ∈ order, k ∈ prs.ids) :
    ∃ next, firstOpen (Dict.ofList (prs.map fun pr => (pr.id, pr)))
        (Dict.ofList (prs.map fun pr => (pr.id, effectiveStatus pr))) order = .ok next ∧
      (next = none → ∀ q ∈ prs, q.id ∈ order → ¬prs.Runnable effectiveStatus q) ∧
      ∀ pr, next = some pr → pr ∈ prs ∧ prs.Runnable effectiveStatus pr ∧
        ∃ before after, order = before ++ pr.id :: after ∧
          ∀ q ∈ prs, q.id ∈ before → ¬prs.Runnable effectiveStatus q := by
  induction order with
  | nil => exact ⟨none, rfl, fun _ q _ hq => (by cases hq), fun pr h => (by cases h)⟩
  | cons k order ih =>
    obtain ⟨p, hp, rfl⟩ := List.mem_map.1 (horder k List.mem_cons_self)
    obtain ⟨hstop, hskip⟩ := @firstOpen_cons prs effectiveStatus hn hknown p hp order
    by_cases hrun : prs.Runnable effectiveStatus p
    · refine ⟨some p, hstop hrun, fun h => (by cases h), fun pr h => ?_⟩
      cases h
      exact ⟨hp, hrun, [], order, rfl, fun q _ hq => (by cases hq)⟩
    · have hcons {l : List String} (h : ∀ q ∈ prs, q.id ∈ l → ¬prs.Runnable effectiveStatus q) :
          ∀ q ∈ prs, q.id ∈ p.id :: l → ¬prs.Runnable effectiveStatus q := by
        intro q hq hmem
        rcases List.mem_cons.1 hmem with hid | hmem
        · rw [eq_of_id hn hq hp hid]
          exact hrun
        · exact h q hq hmem
      obtain ⟨next, hwalk, hnone, hsome⟩ := ih fun k hk => horder k (List.mem_cons_of_mem _ hk)
      refine ⟨next, (hskip hrun).trans hwalk, fun h => hcons (hnone h), fun pr h => ?_⟩
      obtain ⟨hpr, hrunnable, before, after, rfl, hbefore⟩ := hsome pr h
      exact ⟨hpr, hrunnable, p.id :: before, after, rfl, hcons hbefore⟩

theorem eq_of_splits {before after before' after' : List String} {a b : String}
    (h : before ++ a :: after = before' ++ b :: after') (ha : a ∉ before') (hb : b ∉ before) :
    a = b := by
  rcases List.append_eq_append_iff.1 h with ⟨l, rfl, hrest⟩ | ⟨l, rfl, hrest⟩
  · cases l with
    | nil => exact (List.cons.inj hrest).1
    | cons c l =>
      rw [(List.cons.inj hrest).1] at ha
      simp at ha
  · cases l with
    | nil => exact (List.cons.inj hrest).1.symm
    | cons c l =>
      rw [(List.cons.inj hrest).1] at hb
      simp at hb

/-- A sorted plan in which nothing can run is merged: the first entry that is not would have all
of its dependencies in front of it. -/
theorem merged_of_none {order : List String} (hperm : order.Perm prs.ids)
    (hsorted : ∀ before k after, order = before ++ k :: after →
      ∀ d, prs.DependsOn d k → d ∈ before)
    (hnone : ∀ q ∈ prs, q.id ∈ order → ¬prs.Runnable effectiveStatus q) :
    ∀ pr ∈ prs, effectiveStatus pr = "merged" := by
  have hpart : ∀ before after, order = before ++ after →
      ∀ q ∈ prs, q.id ∈ before → effectiveStatus q = "merged" := by
    intro before
    induction before using List.reverseRecOn with
    | nil =>
      intro after _ q _ hq
      cases hq
    | append_singleton before k ih =>
      intro after heq q hq hmem
      rw [List.append_assoc, List.singleton_append] at heq
      rcases List.mem_append.1 hmem with hmem | hmem
      · exact ih _ heq q hq hmem
      · by_contra hopen
        have hid := List.mem_singleton.1 hmem
        refine hnone q hq (hperm.mem_iff.2 (List.mem_map.2 ⟨q, hq, rfl⟩)) ⟨hopen, ?_⟩
        intro r hr hdep
        refine ih _ heq r hr (hsorted before k after heq r.id ?_)
        exact ⟨q, hq, hid, hdep⟩
  intro pr hpr
  exact hpart order [] (List.append_nil _).symm pr hpr
    (hperm.mem_iff.2 (List.mem_map.2 ⟨pr, hpr, rfl⟩))

/-- The sort raises just for an unknown dependency or a cycle. Otherwise it puts every entry
behind its dependencies, and the first runnable entry of the order is picked; there is none just
when all is merged. -/
theorem next_slice_sound_complete (hn : prs.ids.Nodup) (effectiveStatus : PrSlice → String) :
    ((∃ text, prs.topoSort = .error text) ↔
      (∃ pr ∈ prs, ∃ dep ∈ pr.dependsOn, dep ∉ prs.ids) ∨ ¬prs.NoCycle) ∧
    (∀ text, prs.topoSort = .error text → prs.pickNext effectiveStatus = .error text) ∧
    ∀ order, prs.topoSort = .ok order → order.Perm prs.ids ∧
      (∀ before k after, order = before ++ k :: after → ∀ d, prs.DependsOn d k → d ∈ before) ∧
      ∃ next statuses, prs.pickNext effectiveStatus = .ok (next, statuses) ∧
        prs.Picks effectiveStatus order next := by
  refine ⟨?_, ?_, ?_⟩
  · have hraises : (∃ text, prs.topoSort = .error text) ↔ ¬∃ order, prs.topoSort = .ok order := by
      cases prs.topoSort with
      | error text => exact iff_of_true ⟨text, rfl⟩ fun h => by cases h with | intro _ h => cases h
      | ok order => exact iff_of_false (fun h => by cases h with | intro _ h => cases h) (by simp)
    rw [hraises, topoSort_ok_iff hn, not_and_or]
    push Not
    rfl
  · intro text h
    simp only [pickNext, h]
    rfl
  · intro order h
    obtain ⟨hperm, hsorted⟩ := topoSort_order hn h
    obtain ⟨hknown, -⟩ := (topoSort_ok_iff hn).1 ⟨order, h⟩
    obtain ⟨next, hwalk, hnone, hsome⟩ := @firstOpen_walk prs effectiveStatus hn hknown order
      fun k hk => hperm.mem_iff.1 hk
    refine ⟨hperm, hsorted, next,
      Dict.ofList (prs.map fun pr => (pr.id, effectiveStatus pr)), ?_, ?_, ?_⟩
    · simp only [pickNext, h, bind, Except.bind, hwalk]
      rfl
    · intro pr
      refine ⟨hsome pr, fun hpr => ?_⟩
      obtain ⟨hin, hrun, before, after, heq, hbefore⟩ := hpr
      cases hnext : next with
      | none => exact absurd hrun (hnone hnext pr hin (by rw [heq]; simp))
      | some p =>
        obtain ⟨hp, hrunp, before', after', heq', hbefore'⟩ := hsome p hnext
        have hid := eq_of_splits (heq.symm.trans heq') (fun h => hbefore' pr hin h hrun)
          fun h => hbefore p hp h hrunp
        rw [eq_of_id hn hp hin hid.symm]
    · constructor
      · intro hnext
        exact merged_of_none hperm hsorted (hnone hnext)
      · intro hall
        cases hnext : next with
        | none => rfl
        | some p =>
          obtain ⟨hp, hrunp, -⟩ := hsome p hnext
          exact absurd (hall p hp) hrunp.1

/-- The first slice is merged, the second is under way. -/
def sampleStatus (pr : PrSlice) : String :=
  if pr.id = "PR-base" then "merged" else "in_progress"

theorem next_slice_sample : ∃ next statuses,
    samplePlan.pickNext sampleStatus = .ok (next, statuses) ∧
      samplePlan.Picks sampleStatus ["PR-base", "PR-store", "PR-router", "PR-main"] next := by
  have hsort : samplePlan.topoSort = .ok ["PR-base", "PR-store", "PR-router", "PR-main"] := by
    decide
  have hn : samplePlan.ids.Nodup := by decide
  exact ((next_slice_sound_complete hn sampleStatus).2.2 _ hsort).2.2

end pick

end Nssf.Design.SlicePlan
