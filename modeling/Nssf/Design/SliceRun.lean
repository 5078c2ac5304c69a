import Nssf.Design.NextSlice

/-! Picking again and again. Between two picks the picked slice is merged, and other slices may
be merged by other hands. -/

namespace Nssf.Design.SlicePlan

open Base

/-- Some entry with the id is not merged. -/
def isOpen (prs : SlicePlan) (status : PrSlice → String) (k : String) : Bool :=
  prs.any fun pr => pr.id == k && status pr != "merged"

/-- The picks of a run, and the ids that were merged by others meanwhile. -/
inductive Drive (prs : SlicePlan) :
    (PrSlice → String) → List String → List String → (PrSlice → String) → Prop where
  | rest (status : PrSlice → String) : Drive prs status [] [] status
  | pick {status status' last : PrSlice → String} {pr : PrSlice} {statuses : Dict String String}
      {picks here others : List String}
      (hpick : prs.pickNext status = .ok (some pr, statuses))
      (hmerged : ∀ q ∈ prs,
        status' q = "merged" ↔ status q = "merged" ∨ q.id = pr.id ∨ q.id ∈ here)
      (hrest : Drive prs status' picks others last) :
      Drive prs status (pr.id :: picks) (here ++ others) last

section run

variable {prs : SlicePlan} {status : PrSlice → String} {order : List String}

theorem isOpen_iff {k : String} : prs.isOpen status k = true ↔
    ∃ pr ∈ prs, pr.id = k ∧ status pr ≠ "merged" := by
  simp [isOpen]

theorem isOpen_id (hn : prs.ids.Nodup) {pr : PrSlice} (hpr : pr ∈ prs) :
    prs.isOpen status pr.id = true ↔ status pr ≠ "merged" := by
  rw [isOpen_iff]
  constructor
  · rintro ⟨q, hq, hid, hopen⟩
    rw [← eq_of_id hn hq hpr hid]
    exact hopen
  · intro hopen
    exact ⟨pr, hpr, rfl, hopen⟩

/-- The first open entry of a sorted plan waits for nothing. -/
theorem runnable_of_first (hn : prs.ids.Nodup)
    (hsorted : ∀ before k after, order = before ++ k :: after →
      ∀ d, prs.DependsOn d k → d ∈ before)
    {before after : List String} {pr : PrSlice} (hpr : pr ∈ prs)
    (heq : order = before ++ pr.id :: after)
    (hbefore : ∀ k ∈ before, prs.isOpen status k = false) (hopen : status pr ≠ "merged") :
    prs.Runnable status pr := by
  refine ⟨hopen, fun q hq hdep => ?_⟩
  have hmem : q.id ∈ before := hsorted before pr.id after heq q.id ⟨pr, hpr, rfl, hdep⟩
  by_contra hq'
  have := (isOpen_id hn hq).2 hq'
  rw [hbefore q.id hmem] at this
  cases this

theorem firstOpen_eq_find (hn : prs.ids.Nodup)
    (hknown : ∀ pr ∈ prs, ∀ dep ∈ pr.dependsOn, dep ∈ prs.ids)
    (hperm : order.Perm prs.ids)
    (hsorted : ∀ before k after, order = before ++ k :: after →
      ∀ d, prs.DependsOn d k → d ∈ before)
    {before after : List String} (heq : order = before ++ after)
    (hbefore : ∀ k ∈ before, prs.isOpen status k = false) :
    ∃ next : Option PrSlice, firstOpen (Dict.ofList (prs.map fun pr => (pr.id, pr)))
        (Dict.ofList (prs.map fun pr => (pr.id, status pr))) after = .ok next ∧
      (∀ pr ∈ next, pr ∈ prs) ∧
      next.map PrSlice.id = after.find? (prs.isOpen status) := by
  induction after generalizing before with
  | nil => exact ⟨none, rfl, fun pr hpr => (by cases hpr), rfl⟩
  | cons k after ih =>
    obtain ⟨p, hp, rfl⟩ := List.mem_map.1 (hperm.mem_iff.1 (by rw [heq]; simp) : k ∈ prs.ids)
    obtain ⟨hstop, hskip⟩ := @firstOpen_cons prs status hn hknown p hp after
    by_cases hopen : status p = "merged"
    · have hclosed : prs.isOpen status p.id = false := by
        rw [← Bool.not_eq_true, isOpen_id hn hp]
        exact not_not_intro hopen
      have hbefore' : ∀ k ∈ before ++ [p.id], prs.isOpen status k = false := by
        intro k hk
        rcases List.mem_append.1 hk with hk | hk
        · exact hbefore k hk
        · rw [List.mem_singleton.1 hk]
          exact hclosed
      obtain ⟨next, hnext, hin, hfind⟩ := ih (by rw [heq]; simp) hbefore'
      refine ⟨next, (hskip fun hrun => hrun.1 hopen).trans hnext, hin, ?_⟩
      rw [hfind, List.find?_cons, hclosed]
    · refine ⟨some p, hstop (runnable_of_first hn hsorted hp heq hbefore hopen), ?_, ?_⟩
      · intro pr hpr
        cases hpr
        exact hp
      · rw [List.find?_cons, (isOpen_id hn hp).2 hopen]
        rfl

/-- What is picked is the first open entry of the order. -/
theorem pickNext_first (hn : prs.ids.Nodup) (horder : prs.topoSort = .ok order)
    (status : PrSlice → String) :
    ∃ next statuses, prs.pickNext status = .ok (next, statuses) ∧ (∀ pr ∈ next, pr ∈ prs) ∧
      next.map PrSlice.id = order.find? (prs.isOpen status) := by
  obtain ⟨hperm, hsorted⟩ := topoSort_order hn horder
  obtain ⟨hknown, -⟩ := (topoSort_ok_iff hn).1 ⟨order, horder⟩
  have hbefore : ∀ k ∈ ([] : List String), prs.isOpen status k = false := by simp
  obtain ⟨next, hnext, hin, hfind⟩ :=
    firstOpen_eq_find hn hknown hperm hsorted (List.nil_append order).symm hbefore
  refine ⟨next, Dict.ofList (prs.map fun pr => (pr.id, status pr)), ?_, hin, hfind⟩
  simp only [pickNext, horder, bind, Except.bind, hnext]
  rfl

theorem pickNext_some (hn : prs.ids.Nodup) (horder : prs.topoSort = .ok order) {pr : PrSlice}
    {statuses : Dict String String} (h : prs.pickNext status = .ok (some pr, statuses)) :
    pr ∈ prs ∧ order.find? (prs.isOpen status) = some pr.id := by
  obtain ⟨next, statuses', hnext, hin, hfind⟩ := pickNext_first hn horder status
  rw [h] at hnext
  cases hnext
  exact ⟨hin pr rfl, hfind.symm⟩

theorem isOpen_merged {status' : PrSlice → String} {id : String} {here : List String}
    (hmerged : ∀ q ∈ prs,
      status' q = "merged" ↔ status q = "merged" ∨ q.id = id ∨ q.id ∈ here) {k : String} :
    prs.isOpen status' k = true ↔ prs.isOpen status k = true ∧ k ≠ id ∧ k ∉ here := by
  simp only [isOpen_iff]
  constructor
  · rintro ⟨q, hq, rfl, hopen⟩
    have h := (not_congr (hmerged q hq)).1 hopen
    push Not at h
    exact ⟨⟨q, hq, rfl, h.1⟩, h.2⟩
  · rintro ⟨⟨q, hq, rfl, hopen⟩, hid, hhere⟩
    refine ⟨q, hq, rfl, (not_congr (hmerged q hq)).2 ?_⟩
    push Not
    exact ⟨hopen, hid, hhere⟩

/-- An open entry behind the first one stays in the order. -/
theorem filter_of_find {k : String} {p : String → Bool} (h : order.find? p = some k) :
    ∃ after : List String, order.filter p = k :: after.filter p ∧
      ∀ q : String → Bool, (∀ l, q l = true → p l = true) → q k = false →
        order.filter q = after.filter q := by
  obtain ⟨hk, before, after, rfl, hbefore⟩ := List.find?_eq_some_iff_append.1 h
  have hclosed : ∀ l ∈ before, ¬p l = true := by
    intro l hl
    have := hbefore l hl
    simpa using this
  refine ⟨after, ?_, fun q hq hqk => ?_⟩
  · rw [List.filter_append, List.filter_eq_nil_iff.2 hclosed, List.nil_append,
      List.filter_cons_of_pos hk]
  · have hnil : before.filter q = [] :=
      List.filter_eq_nil_iff.2 fun l hl hql => hclosed l hl (hq l hql)
    rw [List.filter_append, hnil, List.nil_append, List.filter_cons_of_neg (by simp [hqk])]

theorem Drive.sublist (hn : prs.ids.Nodup) (horder : prs.topoSort = .ok order)
    {picks others : List String} {last : PrSlice → String}
    (h : Drive prs status picks others last) :
    picks.Sublist (order.filter (prs.isOpen status)) := by
  induction h with
  | rest => exact List.nil_sublist _
  | @pick status status' last pr statuses picks here others hpick hmerged hrest ih =>
    obtain ⟨-, hfind⟩ := pickNext_some hn horder hpick
    have hopen : ∀ l, prs.isOpen status' l = true → prs.isOpen status l = true :=
      fun l hl => ((isOpen_merged hmerged).1 hl).1
    have hid : prs.isOpen status' pr.id = false := by
      rw [← Bool.not_eq_true]
      exact fun hl => ((isOpen_merged hmerged).1 hl).2.1 rfl
    obtain ⟨after, hfilter, hrestrict⟩ := filter_of_find hfind
    rw [hfilter]
    refine List.Sublist.cons_cons _ (ih.trans ?_)
    rw [hrestrict _ hopen hid]
    exact List.monotone_filter_right after hopen

/-- Open at the end is what was open, was not picked and was merged by nobody else. -/
theorem Drive.open_iff {picks others : List String} {last : PrSlice → String}
    (h : Drive prs status picks others last) {k : String} :
    prs.isOpen last k = true ↔ prs.isOpen status k = true ∧ k ∉ picks ∧ k ∉ others := by
  induction h with
  | rest => simp
  | pick hpick hmerged hrest ih =>
    rw [ih, isOpen_merged hmerged, List.mem_cons, List.mem_append]
    tauto

theorem Drive.merged_deps (hn : prs.ids.Nodup) (horder : prs.topoSort = .ok order)
    {picks others : List String} {last : PrSlice → String}
    (h : Drive prs status picks others last) {d k : String} (hdep : prs.DependsOn d k)
    (hk : k ∈ picks) : prs.isOpen last d = false := by
  obtain ⟨-, hsorted⟩ := topoSort_order hn horder
  induction h with
  | rest => cases hk
  | @pick status status' last pr statuses picks here others hpick hmerged hrest ih =>
    rcases List.mem_cons.1 hk with hk | hk
    · obtain ⟨-, hfind⟩ := pickNext_some hn horder hpick
      obtain ⟨-, before, after, heq, hbefore⟩ := List.find?_eq_some_iff_append.1 hfind
      rw [← hk] at heq
      have hclosed := hbefore d (hsorted before k after heq d hdep)
      rw [← Bool.not_eq_true]
      intro hopen
      have := ((isOpen_merged hmerged).1 (hrest.open_iff.1 hopen).1).1
      rw [this] at hclosed
      cases hclosed
    · exact ih hk

/-- The run goes on until everything is merged. -/
theorem pickNext_some_iff (hn : prs.ids.Nodup) (horder : prs.topoSort = .ok order)
    (status : PrSlice → String) :
    (∃ pr statuses, prs.pickNext status = .ok (some pr, statuses)) ↔
      ∃ pr ∈ prs, status pr ≠ "merged" := by
  obtain ⟨hperm, -⟩ := topoSort_order hn horder
  obtain ⟨next, statuses, hnext, hin, hfind⟩ := pickNext_first hn horder status
  constructor
  · rintro ⟨pr, statuses', hpick⟩
    obtain ⟨hpr, hfirst⟩ := pickNext_some hn horder hpick
    exact ⟨pr, hpr, (isOpen_id hn hpr).1 (List.find?_some hfirst)⟩
  · rintro ⟨pr, hpr, hopen⟩
    cases next with
    | some q => exact ⟨q, statuses, hnext⟩
    | none =>
      have hnone := List.find?_eq_none.1 hfind.symm pr.id
        (hperm.mem_iff.2 (List.mem_map.2 ⟨pr, hpr, rfl⟩))
      exact absurd ((isOpen_id hn hpr).2 hopen) hnone

/-- Whatever others merge meanwhile, the picks follow the order of the sort, each slice is picked
at most once and behind its dependencies, and the run ends just when all is merged; alone it goes
through everything that was open. -/
theorem drive_follows_order (hn : prs.ids.Nodup) (horder : prs.topoSort = .ok order)
    {picks others : List String} {last : PrSlice → String}
    (h : Drive prs status picks others last) :
    picks.Sublist (order.filter (prs.isOpen status)) ∧ picks.Nodup ∧
      (∀ d k, prs.DependsOn d k → k ∈ picks → prs.isOpen last d = false) ∧
      ((∃ pr statuses, prs.pickNext last = .ok (some pr, statuses)) ↔
        ∃ pr ∈ prs, last pr ≠ "merged") ∧
      (others = [] → (∀ pr ∈ prs, last pr = "merged") →
        picks = order.filter (prs.isOpen status)) := by
  obtain ⟨hperm, -⟩ := topoSort_order hn horder
  have hsub := h.sublist hn horder
  have hnodup : (order.filter (prs.isOpen status)).Nodup := (hperm.nodup_iff.2 hn).filter _
  refine ⟨hsub, hnodup.sublist hsub, fun d k => h.merged_deps hn horder,
    pickNext_some_iff hn horder last, ?_⟩
  rintro rfl hall
  have hclosed : ∀ k, prs.isOpen last k = false := by
    intro k
    rw [← Bool.not_eq_true, isOpen_iff]
    rintro ⟨pr, hpr, -, hopen⟩
    exact hopen (hall pr hpr)
  have hmem : order.filter (prs.isOpen status) ⊆ picks := by
    intro k hk
    by_contra hpick
    have hopen := h.open_iff.2 ⟨(List.mem_filter.1 hk).2, hpick, List.not_mem_nil⟩
    rw [hclosed k] at hopen
    cases hopen
  exact hsub.eq_of_length_le (hnodup.subperm hmem).length_le

/-- The status between two picks. -/
def sampleNext (pr : PrSlice) : String := if pr.id = "PR-main" then "open" else "merged"

/-- The base slice is merged before, the router slice by somebody else, and two are picked. -/
theorem drive_sample : ∃ picks others last,
    Drive samplePlan sampleStatus picks others last ∧ picks = ["PR-store", "PR-main"] ∧
      picks.Sublist (["PR-base", "PR-store", "PR-router", "PR-main"].filter
        (samplePlan.isOpen sampleStatus)) := by
  have hn : samplePlan.ids.Nodup := by decide
  have hsort : samplePlan.topoSort = .ok ["PR-base", "PR-store", "PR-router", "PR-main"] := by
    decide
  have hlast : Drive samplePlan sampleNext ["PR-main"] [] fun _ => "merged" :=
    @Drive.pick samplePlan sampleNext (fun _ => "merged") (fun _ => "merged")
      ⟨"PR-main", ["PR-store", "PR-router"]⟩ _ [] [] [] rfl (by decide) (.rest _)
  have hrun : Drive samplePlan sampleStatus ["PR-store", "PR-main"] ["PR-router"]
      fun _ => "merged" :=
    @Drive.pick samplePlan sampleStatus sampleNext (fun _ => "merged")
      ⟨"PR-store", ["PR-base"]⟩ _ ["PR-main"] ["PR-router"] [] rfl (by decide) hlast
  exact ⟨_, _, _, hrun, rfl, (drive_follows_order hn hsort hrun).1⟩

end run

end Nssf.Design.SlicePlan
