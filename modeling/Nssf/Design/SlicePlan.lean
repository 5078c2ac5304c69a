import Nssf.Base.Dict
import Nssf.Base.Kahn

/-! The two readers of a slice plan that sort its entries by their dependencies: the check that
the plan has no dangling reference and no cycle, and the sort that the next slice is picked
from. -/

namespace Nssf.Design

open Base

structure PrSlice where
  id : String
  dependsOn : List String
  deriving DecidableEq

abbrev SlicePlan := List PrSlice

namespace SlicePlan

def ids (prs : SlicePlan) : List String := prs.map PrSlice.id

/-- `_pr_ids_from_slicing`. -/
def prIdsFromSlicing (prs : SlicePlan) : List String := prs.ids.filter fun id => id ≠ ""

def unknownFails (truth : List String) (pr : PrSlice) : List String :=
  (pr.dependsOn.filter fun dep => dep ≠ "" && !truth.contains dep).map fun dep =>
    "pr-slicing-plan.prs[" ++ pr.id ++ "].depends_on: '" ++ dep ++ "' not in PR slice ids"

def depends (prs : SlicePlan) : Dict String (List String) :=
  Dict.ofList (prs.map fun pr => (pr.id, pr.dependsOn))

/-- The dependencies under an id that are ids themselves, each as often as it is listed. -/
def counted (d : Dict String (List String)) (k : String) : List String :=
  ((d.get? k).getD []).filter fun dep => dep ∈ d.keys

/-- The entries that list `n`, each of them once. -/
def dependents (d : Dict String (List String)) (n : String) : List String :=
  d.keys.filter fun k => n ∈ (d.get? k).getD []

def visited (d : Dict String (List String)) : ℕ :=
  (Kahn.drain Kahn.popRight (dependents d) d.keys.length
    (Kahn.start d.keys fun k => (counted d k).length)).order.length

def checkPrSliceConsistency (prs : SlicePlan) : List String :=
  let truth := prs.prIdsFromSlicing
  if truth.isEmpty then ["pr-slicing-plan.prs[].id empty — 진실 source 부재"]
  else
    let fails := prs.flatMap (unknownFails truth)
    let size := prs.depends.size
    let done := visited prs.depends
    if done < size then
      fails ++ ["pr-slicing-plan.prs.depends_on cycle detected — " ++ toString (size - done) ++
        " node(s) unresolved"]
    else fails

structure Graph where
  indeg : String → ℕ
  adj : String → List String

def addDep (known : List String) (id : String) (g : Graph) (dep : String) :
    Except String Graph :=
  if dep ∈ known then
    .ok ⟨Function.update g.indeg id (g.indeg id + 1),
      Function.update g.adj dep (g.adj dep ++ [id])⟩
  else .error ("PR " ++ id ++ " depends on unknown PR " ++ dep)

def addPr (known : List String) (g : Graph) (pr : PrSlice) : Except String Graph :=
  pr.dependsOn.foldlM (addDep known pr.id) g

def graph (known : List String) (prs : SlicePlan) : Except String Graph :=
  prs.foldlM (addPr known) ⟨fun _ => 0, fun _ => []⟩

def topoSort (prs : SlicePlan) : Except String (List String) := do
  let idToPr := Dict.ofList (prs.map fun pr => (pr.id, pr))
  let g ← graph idToPr.keys prs
  let order := (Kahn.drain Kahn.popLeft g.adj idToPr.keys.length
    (Kahn.start idToPr.keys g.indeg)).order
  if order.length ≠ idToPr.size then throw "dependency cycle detected in pr-slicing-plan.yaml"
  return order

/-- Everything that is listed under an id. -/
def listed (prs : SlicePlan) (k : String) : List String :=
  (prs.filter fun pr => pr.id = k).flatMap PrSlice.dependsOn

/-- Some entry with the id `k` lists `d`. -/
def DependsOn (prs : SlicePlan) (d k : String) : Prop :=
  ∃ pr ∈ prs, pr.id = k ∧ d ∈ pr.dependsOn

def NoCycle (prs : SlicePlan) : Prop := ∀ k, ¬ Relation.TransGen prs.DependsOn k k

/-- Every dependency but the empty one is the id of an entry. -/
def Resolved (prs : SlicePlan) : Prop :=
  ∀ pr ∈ prs, ∀ dep ∈ pr.dependsOn, dep ≠ "" → dep ∈ prs.ids

/-- No entry lists a dependency twice; the empty one does not count. -/
def NoRepeat (prs : SlicePlan) : Prop :=
  ∀ pr ∈ prs, (pr.dependsOn.filter fun dep => dep ≠ "").Nodup

def NoBlank (prs : SlicePlan) : Prop := ∀ pr ∈ prs, "" ∉ pr.dependsOn

instance (prs : SlicePlan) : Decidable prs.NoRepeat :=
  inferInstanceAs (Decidable (∀ pr ∈ prs, (pr.dependsOn.filter fun dep => dep ≠ "").Nodup))

instance (prs : SlicePlan) : Decidable prs.NoBlank :=
  inferInstanceAs (Decidable (∀ pr ∈ prs, "" ∉ pr.dependsOn))

section listing

variable {prs : SlicePlan}

theorem mem_listed {d k : String} : d ∈ prs.listed k ↔ prs.DependsOn d k := by
  simp only [listed, DependsOn, List.mem_flatMap, List.mem_filter, decide_eq_true_eq, and_assoc]

theorem dependsOn_eq_edge : prs.DependsOn = Kahn.Edge prs.ids prs.listed := by
  funext d k
  rw [Kahn.Edge, mem_listed]
  refine propext ⟨fun h => ⟨?_, h⟩, fun h => h.2⟩
  obtain ⟨pr, hpr, hid, -⟩ := h
  exact List.mem_map.2 ⟨pr, hpr, hid⟩

theorem noCycle_iff : prs.NoCycle ↔ Kahn.Acyclic prs.ids prs.listed := by
  rw [NoCycle, Kahn.Acyclic, dependsOn_eq_edge]

theorem listed_of_mem (hn : prs.ids.Nodup) {pr : PrSlice} (hpr : pr ∈ prs) :
    prs.listed pr.id = pr.dependsOn := by
  have hone : prs.filter (fun q => q.id = pr.id) = [pr] := by
    induction prs with
    | nil => cases hpr
    | cons q prs ih =>
      obtain ⟨hout, hn⟩ := List.nodup_cons.1 hn
      rcases List.mem_cons.1 hpr with hq | hpr
      · have hrest : prs.filter (fun r => r.id = q.id) = [] := by
          rw [List.filter_eq_nil_iff]
          intro r hr hid
          exact hout (List.mem_map.2 ⟨r, hr, of_decide_eq_true hid⟩)
        rw [hq, List.filter_cons_of_pos (by simp), hrest]
      · have hne : q.id ≠ pr.id := fun hid => hout (List.mem_map.2 ⟨pr, hpr, hid.symm⟩)
        rw [List.filter_cons_of_neg (by simpa using hne)]
        exact ih hn hpr
  rw [listed, hone, List.flatMap_singleton]

end listing

section byId

variable {prs : SlicePlan} {ν : Type} (f : PrSlice → ν)

theorem entries_byId (hn : prs.ids.Nodup) :
    (Dict.ofList (prs.map fun pr => (pr.id, f pr))).entries = prs.map fun pr => (pr.id, f pr) := by
  refine Dict.entries_ofList ?_
  rw [List.map_map]
  exact hn

theorem keys_byId (hn : prs.ids.Nodup) :
    (Dict.ofList (prs.map fun pr => (pr.id, f pr))).keys = prs.ids := by
  rw [Dict.keys, entries_byId f hn, List.map_map]
  rfl

theorem size_byId (hn : prs.ids.Nodup) :
    (Dict.ofList (prs.map fun pr => (pr.id, f pr))).size = prs.ids.length := by
  rw [Dict.size, entries_byId f hn, List.length_map, ids, List.length_map]

theorem get_byId (hn : prs.ids.Nodup) {k : String} {v : ν} :
    (Dict.ofList (prs.map fun pr => (pr.id, f pr))).get? k = some v ↔
      ∃ pr ∈ prs, pr.id = k ∧ f pr = v := by
  rw [Dict.get?_eq_some_iff, entries_byId f hn, List.mem_map]
  simp only [Prod.mk.injEq]

end byId

section gate

variable {prs : SlicePlan}

theorem keys_depends (hn : prs.ids.Nodup) : prs.depends.keys = prs.ids := keys_byId _ hn

theorem get_depends (hn : prs.ids.Nodup) {k : String} (hk : k ∈ prs.ids) :
    (prs.depends.get? k).getD [] = prs.listed k := by
  obtain ⟨pr, hpr, rfl⟩ := List.mem_map.1 hk
  have hget : prs.depends.get? pr.id = some pr.dependsOn :=
    (get_byId _ hn).2 ⟨pr, hpr, rfl, rfl⟩
  rw [hget, Option.getD_some, listed_of_mem hn hpr]

theorem counted_depends (hn : prs.ids.Nodup) {k : String} (hk : k ∈ prs.ids) :
    counted prs.depends k = (prs.listed k).filter fun dep => dep ∈ prs.ids := by
  rw [counted, get_depends hn hk, keys_depends hn]

theorem count_dependents (hn : prs.ids.Nodup) {n k : String} (hnode : n ∈ prs.ids)
    (hk : k ∈ prs.ids) :
    (dependents prs.depends n).count k = if n ∈ counted prs.depends k then 1 else 0 := by
  have hnodup : (dependents prs.depends n).Nodup := by
    rw [dependents, keys_depends hn]
    exact hn.filter _
  rw [hnodup.count]
  have hmem : k ∈ dependents prs.depends n ↔ n ∈ counted prs.depends k := by
    rw [dependents, keys_depends hn, List.mem_filter, get_depends hn hk, decide_eq_true_eq,
      counted_depends hn hk, List.mem_filter, decide_eq_true_eq]
    exact ⟨fun h => ⟨h.2, hnode⟩, fun h => ⟨hk, h.1⟩⟩
  simp only [hmem]

theorem dependents_subset (d : Dict String (List String)) :
    ∀ n, ∀ k ∈ dependents d n, k ∈ d.keys := fun _ _ hk => (List.mem_filter.1 hk).1

theorem visited_le (d : Dict String (List String)) : visited d ≤ d.keys.length :=
  (Kahn.drain_subperm d.nodup_keys _ Kahn.serves_popRight (dependents_subset d)).length_le

/-- The loop of the check reaches every entry just when no entry mentions another twice and
there is no cycle. -/
theorem visited_all_iff (hn : prs.ids.Nodup) :
    visited prs.depends = prs.depends.keys.length ↔
      (∀ k ∈ prs.ids, (counted prs.depends k).Nodup) ∧ prs.NoCycle := by
  have hkeys := keys_depends hn
  have honce : ∀ n ∈ prs.ids, ∀ k ∈ prs.ids, (dependents prs.depends n).count k =
      if n ∈ counted prs.depends k then 1 else 0 := fun n hnode k hk =>
    count_dependents hn hnode hk
  have hknown : ∀ k ∈ prs.ids, ∀ d ∈ counted prs.depends k, d ∈ prs.ids := by
    intro k _ d hd
    rw [counted, hkeys] at hd
    exact of_decide_eq_true (List.mem_filter.1 hd).2
  have hcycle : Kahn.Acyclic prs.ids (counted prs.depends) ↔ prs.NoCycle := by
    rw [noCycle_iff]
    exact (Kahn.acyclic_congr fun k hk => counted_depends hn hk).trans Kahn.acyclic_filter_iff
  rw [visited, Kahn.drain_complete_iff prs.depends.nodup_keys _ Kahn.serves_popRight
    (dependents_subset prs.depends), hkeys]
  constructor
  · intro hall
    have hnodup : ∀ k ∈ prs.ids, (counted prs.depends k).Nodup := fun k hk =>
      Kahn.nodup_of_cleared_once honce (hall k hk)
    refine ⟨hnodup, ?_⟩
    rw [← hcycle, ← Kahn.all_cleared_iff (Kahn.count_of_once honce hnodup) hknown]
    exact hall
  · rintro ⟨hnodup, hno⟩
    rw [Kahn.all_cleared_iff (Kahn.count_of_once honce hnodup) hknown, hcycle]
    exact hno

theorem prIdsFromSlicing_eq (hid : "" ∉ prs.ids) : prs.prIdsFromSlicing = prs.ids := by
  rw [prIdsFromSlicing, List.filter_eq_self]
  intro id h
  exact decide_eq_true fun hblank => hid (by rw [← hblank]; exact h)

theorem unknownFails_eq_nil_iff :
    prs.flatMap (unknownFails prs.ids) = [] ↔ prs.Resolved := by
  simp only [List.flatMap_eq_nil_iff, unknownFails, List.map_eq_nil_iff, List.filter_eq_nil_iff,
    Resolved, Bool.and_eq_true, Bool.not_eq_true', decide_eq_true_eq, not_and,
    Bool.not_eq_false, List.contains_iff_mem]

theorem noRepeat_iff (hn : prs.ids.Nodup) (hid : "" ∉ prs.ids) (hr : prs.Resolved) :
    (∀ k ∈ prs.ids, (counted prs.depends k).Nodup) ↔ prs.NoRepeat := by
  have hsame : ∀ pr ∈ prs, counted prs.depends pr.id =
      pr.dependsOn.filter fun dep => dep ≠ "" := by
    intro pr hpr
    rw [counted_depends hn (List.mem_map.2 ⟨pr, hpr, rfl⟩), listed_of_mem hn hpr]
    refine List.filter_congr fun dep hdep => decide_eq_decide.2 ⟨fun hin hblank => ?_, ?_⟩
    · rw [hblank] at hin
      exact hid hin
    · exact hr pr hpr dep hdep
  constructor
  · intro h pr hpr
    rw [← hsame pr hpr]
    exact h pr.id (List.mem_map.2 ⟨pr, hpr, rfl⟩)
  · intro h k hk
    obtain ⟨pr, hpr, rfl⟩ := List.mem_map.1 hk
    rw [hsame pr hpr]
    exact h pr hpr

/-- When the check reports nothing. -/
theorem check_eq_nil_iff (hn : prs.ids.Nodup) (hid : "" ∉ prs.ids) :
    prs.checkPrSliceConsistency = [] ↔
      prs ≠ [] ∧ prs.Resolved ∧ prs.NoRepeat ∧ prs.NoCycle := by
  simp only [checkPrSliceConsistency, prIdsFromSlicing_eq hid]
  have hsize : prs.depends.size = prs.depends.keys.length := (List.length_map _).symm
  have hle := visited_le prs.depends
  have hvisited := visited_all_iff hn
  by_cases hprs : prs = []
  · simp [hprs, ids]
  · have hids : prs.ids.isEmpty = false := by simpa [ids] using hprs
    simp only [hids, Bool.false_eq_true, if_false, hsize]
    by_cases hdone : visited prs.depends < prs.depends.keys.length
    · rw [if_pos hdone]
      constructor
      · intro h
        exact absurd h (List.append_ne_nil_of_right_ne_nil _ (List.cons_ne_nil _ _))
      · rintro ⟨-, hresolved, hrepeat, hcycle⟩
        have hall := hvisited.2 ⟨(noRepeat_iff hn hid hresolved).2 hrepeat, hcycle⟩
        omega
    · have hall := hvisited.1 (by omega)
      rw [if_neg hdone, unknownFails_eq_nil_iff]
      constructor
      · intro hresolved
        exact ⟨hprs, hresolved, (noRepeat_iff hn hid hresolved).1 hall.1, hall.2⟩
      · intro h
        exact h.2.1

end gate

section sort

variable {prs : SlicePlan}

theorem listed_append (prs qs : SlicePlan) (k : String) :
    SlicePlan.listed (prs ++ qs) k = prs.listed k ++ qs.listed k := by
  simp only [listed, List.filter_append, List.flatMap_append]

/-- What the graph counts and lists is what the entries list. -/
structure Graph.Of (g : Graph) (prs : SlicePlan) : Prop where
  indeg : ∀ k, g.indeg k = (prs.listed k).length
  adj : ∀ n k, (g.adj n).count k = (prs.listed k).count n

theorem Graph.Of.addDep {g g' : Graph} {prs : SlicePlan} {known deps : List String}
    {id dep : String} (h : g.Of (prs ++ [⟨id, deps⟩]))
    (hg : SlicePlan.addDep known id g dep = .ok g') :
    g'.Of (prs ++ [⟨id, deps ++ [dep]⟩]) := by
  simp only [SlicePlan.addDep] at hg
  split_ifs at hg
  cases hg
  have hlisted : ∀ ds k, SlicePlan.listed (prs ++ [⟨id, ds⟩]) k =
      prs.listed k ++ if id = k then ds else [] := by
    intro ds k
    rw [listed_append]
    by_cases hk : id = k
    · simp [listed, hk]
    · simp [listed, hk]
  refine ⟨fun k => ?_, fun n k => ?_⟩
  · have hold := h.indeg k
    rw [hlisted] at hold ⊢
    simp only [Function.update_apply]
    by_cases hk : k = id
    · subst hk
      simp at hold ⊢
      omega
    · simp [hk, Ne.symm hk] at hold ⊢
      exact hold
  · have hold := h.adj n k
    rw [hlisted] at hold ⊢
    simp only [Function.update_apply]
    by_cases hn : n = dep
    · subst hn
      by_cases hk : id = k
      · simp [hk] at hold ⊢
        omega
      · simp [hk] at hold ⊢
        omega
    · by_cases hk : id = k
      · simp [hk, hn, Ne.symm hn] at hold ⊢
        omega
      · simp [hk, hn] at hold ⊢
        omega

theorem Graph.Of.foldl {known deps : List String} {id : String} {prs : SlicePlan}
    {done : List String} {g : Graph} (h : g.Of (prs ++ [⟨id, done⟩])) :
    (∃ g', deps.foldlM (SlicePlan.addDep known id) g = .ok g' ∧
        g'.Of (prs ++ [⟨id, done ++ deps⟩]) ∧ ∀ dep ∈ deps, dep ∈ known) ∨
      (∃ text, deps.foldlM (SlicePlan.addDep known id) g = .error text) ∧
        ∃ dep ∈ deps, dep ∉ known := by
  induction deps generalizing g done with
  | nil =>
    refine Or.inl ⟨g, rfl, ?_, fun dep hdep => absurd hdep List.not_mem_nil⟩
    rw [List.append_nil]
    exact h
  | cons dep deps ih =>
    rw [List.foldlM_cons]
    by_cases hdep : dep ∈ known
    · obtain ⟨g', hg'⟩ : ∃ g', SlicePlan.addDep known id g dep = .ok g' :=
        ⟨_, if_pos hdep⟩
      rw [hg']
      rcases ih (h.addDep hg') with ⟨g'', hfold, hof, hknown⟩ | ⟨herror, d, hd, hout⟩
      · refine Or.inl ⟨g'', hfold, ?_, ?_⟩
        · rw [List.append_assoc] at hof
          exact hof
        · intro d hd
          rcases List.mem_cons.1 hd with hd | hd
          · rw [hd]
            exact hdep
          · exact hknown d hd
      · exact Or.inr ⟨herror, d, List.mem_cons_of_mem dep hd, hout⟩
    · have herror : SlicePlan.addDep known id g dep = .error _ := if_neg hdep
      rw [herror]
      exact Or.inr ⟨⟨_, rfl⟩, dep, List.mem_cons_self .., hdep⟩

theorem Graph.Of.snoc {g : Graph} {prs : SlicePlan} (h : g.Of prs) (id : String) :
    g.Of (prs ++ [⟨id, []⟩]) := by
  have hlisted : ∀ k, SlicePlan.listed (prs ++ [⟨id, []⟩]) k = prs.listed k := by
    intro k
    rw [listed_append]
    by_cases hk : id = k <;> simp [listed, hk]
  refine ⟨fun k => ?_, fun n k => ?_⟩
  · rw [hlisted]
    exact h.indeg k
  · rw [hlisted]
    exact h.adj n k

theorem Graph.Of.addPrs {known : List String} {prs qs : SlicePlan} {g : Graph} (h : g.Of prs) :
    (∃ g', qs.foldlM (SlicePlan.addPr known) g = .ok g' ∧ g'.Of (prs ++ qs) ∧
        ∀ pr ∈ qs, ∀ dep ∈ pr.dependsOn, dep ∈ known) ∨
      (∃ text, qs.foldlM (SlicePlan.addPr known) g = .error text) ∧
        ∃ pr ∈ qs, ∃ dep ∈ pr.dependsOn, dep ∉ known := by
  induction qs generalizing g prs with
  | nil =>
    refine Or.inl ⟨g, rfl, ?_, fun pr hpr => absurd hpr List.not_mem_nil⟩
    rw [List.append_nil]
    exact h
  | cons pr qs ih =>
    rw [List.foldlM_cons]
    rcases (h.snoc pr.id).foldl with ⟨g', hfold, hof, hknown⟩ | ⟨⟨text, hfold⟩, hout⟩
    · have hadd : SlicePlan.addPr known g pr = .ok g' := hfold
      rw [hadd]
      rcases ih hof with ⟨g'', hrest, hof', hknown'⟩ | ⟨herror, q, hq, hout⟩
      · refine Or.inl ⟨g'', hrest, ?_, ?_⟩
        · rw [List.append_assoc] at hof'
          exact hof'
        · intro q hq
          rcases List.mem_cons.1 hq with hq | hq
          · rw [hq]
            exact hknown
          · exact hknown' q hq
      · exact Or.inr ⟨herror, q, List.mem_cons_of_mem pr hq, hout⟩
    · have hadd : SlicePlan.addPr known g pr = .error text := hfold
      rw [hadd]
      exact Or.inr ⟨⟨text, rfl⟩, pr, List.mem_cons_self .., hout⟩

theorem graph_ok_or (known : List String) (prs : SlicePlan) :
    (∃ g, graph known prs = .ok g ∧ g.Of prs ∧
        ∀ pr ∈ prs, ∀ dep ∈ pr.dependsOn, dep ∈ known) ∨
      (∃ text, graph known prs = .error text) ∧ ∃ pr ∈ prs, ∃ dep ∈ pr.dependsOn, dep ∉ known := by
  have hempty : Graph.Of ⟨fun _ => 0, fun _ => []⟩ [] := ⟨fun _ => rfl, fun _ _ => rfl⟩
  exact hempty.addPrs

theorem Graph.Of.known {g : Graph} (hof : g.Of prs) (n : String) :
    ∀ k ∈ g.adj n, k ∈ prs.ids := by
  intro k hk
  have hpos := List.count_pos_iff.2 hk
  rw [hof.adj n k] at hpos
  obtain ⟨pr, hpr, hid, -⟩ := mem_listed.1 (List.count_pos_iff.1 hpos)
  exact List.mem_map.2 ⟨pr, hpr, hid⟩

theorem Graph.Of.indeg_eq {g : Graph} (hof : g.Of prs) :
    g.indeg = fun k => (prs.listed k).length := funext hof.indeg

/-- When the sort returns an order. -/
theorem topoSort_ok_iff (hn : prs.ids.Nodup) :
    (∃ order, prs.topoSort = .ok order) ↔
      (∀ pr ∈ prs, ∀ dep ∈ pr.dependsOn, dep ∈ prs.ids) ∧ prs.NoCycle := by
  simp only [topoSort, keys_byId _ hn, size_byId _ hn]
  rcases graph_ok_or prs.ids prs with ⟨g, hg, hof, hknown⟩ | ⟨⟨text, hg⟩, pr, hpr, dep, hdep, hout⟩
  · have hsucc : ∀ n ∈ prs.ids, ∀ k ∈ prs.ids, (g.adj n).count k = (prs.listed k).count n :=
      fun n _ k _ => hof.adj n k
    have hlisted : ∀ k ∈ prs.ids, ∀ d ∈ prs.listed k, d ∈ prs.ids := by
      intro k _ d hd
      obtain ⟨pr, hpr, -, hdep⟩ := mem_listed.1 hd
      exact hknown pr hpr d hdep
    have hdone := Kahn.drain_complete_iff hn g.indeg Kahn.serves_popLeft hof.known
    rw [hof.indeg_eq, Kahn.all_cleared_iff hsucc hlisted, ← noCycle_iff] at hdone
    rw [hg]
    simp only [bind, Except.bind, hof.indeg_eq]
    by_cases hlen : (Kahn.drain Kahn.popLeft g.adj prs.ids.length
        (Kahn.start prs.ids fun k => (prs.listed k).length)).order.length = prs.ids.length
    · constructor
      · intro _
        exact ⟨hknown, hdone.1 hlen⟩
      · intro _
        rw [if_neg (not_not_intro hlen)]
        exact ⟨_, rfl⟩
    · constructor
      · rintro ⟨order, horder⟩
        rw [if_pos hlen] at horder
        cases horder
      · intro h
        exact absurd (hdone.2 h.2) hlen
  · rw [hg]
    constructor
    · rintro ⟨order, horder⟩
      cases horder
    · intro h
      exact absurd (h.1 pr hpr dep hdep) hout

/-- The order that the sort returns. -/
theorem topoSort_order (hn : prs.ids.Nodup) {order : List String}
    (h : prs.topoSort = .ok order) : order.Perm prs.ids ∧
      ∀ before k after, order = before ++ k :: after → ∀ d, prs.DependsOn d k → d ∈ before := by
  simp only [topoSort, keys_byId _ hn, size_byId _ hn] at h
  rcases graph_ok_or prs.ids prs with ⟨g, hg, hof, -⟩ | ⟨⟨text, hg⟩, -⟩
  · rw [hg] at h
    simp only [bind, Except.bind, hof.indeg_eq] at h
    by_cases hlen : (Kahn.drain Kahn.popLeft g.adj prs.ids.length
        (Kahn.start prs.ids fun k => (prs.listed k).length)).order.length = prs.ids.length
    · rw [if_neg (not_not_intro hlen)] at h
      cases h
      have hsub := Kahn.drain_subperm hn (fun k => (prs.listed k).length) Kahn.serves_popLeft
        hof.known
      refine ⟨hsub.perm_of_length_le hlen.ge, fun before k after heq d hd => ?_⟩
      exact Kahn.mem_before_of_drain Kahn.serves_popLeft hn hof.known
        (fun n _ k _ => hof.adj n k) heq d (mem_listed.2 hd)
    · rw [if_pos hlen] at h
      cases h
  · rw [hg] at h
    cases h

end sort

/-- The check and the sort agree just when the plan has an entry and, where its references
resolve without a cycle, a repeated dependency comes with an empty one or neither is there. -/
theorem check_agrees_iff {prs : SlicePlan} (hn : prs.ids.Nodup) (hid : "" ∉ prs.ids) :
    (prs.checkPrSliceConsistency = [] ↔ ∃ order, prs.topoSort = .ok order) ↔
      prs ≠ [] ∧ (prs.Resolved → prs.NoCycle → (prs.NoRepeat ↔ prs.NoBlank)) := by
  have hknown : (∀ pr ∈ prs, ∀ dep ∈ pr.dependsOn, dep ∈ prs.ids) ↔
      prs.Resolved ∧ prs.NoBlank := by
    constructor
    · intro h
      exact ⟨fun pr hpr dep hdep _ => h pr hpr dep hdep, fun pr hpr hblank =>
        hid (h pr hpr "" hblank)⟩
    · rintro ⟨hresolved, hblank⟩ pr hpr dep hdep
      exact hresolved pr hpr dep hdep fun h => hblank pr hpr (by rw [← h]; exact hdep)
  have hempty : prs = [] → prs.Resolved ∧ prs.NoBlank ∧ prs.NoCycle := by
    intro h
    subst h
    refine ⟨fun pr hpr => absurd hpr List.not_mem_nil, fun pr hpr => absurd hpr List.not_mem_nil,
      fun k hk => ?_⟩
    rw [dependsOn_eq_edge] at hk
    exact absurd (Kahn.transGen_known hk) List.not_mem_nil
  rw [check_eq_nil_iff hn hid, topoSort_ok_iff hn, hknown]
  tauto

/-- Two slices that wait for a shared first one, and a last one that waits for both. -/
def samplePlan : SlicePlan :=
  [⟨"PR-base", []⟩, ⟨"PR-store", ["PR-base"]⟩, ⟨"PR-router", ["PR-base"]⟩,
    ⟨"PR-main", ["PR-store", "PR-router"]⟩]

theorem check_agrees_sample :
    samplePlan.checkPrSliceConsistency = [] ↔ ∃ order, samplePlan.topoSort = .ok order := by
  refine (check_agrees_iff (by decide) (by decide)).2 ⟨by decide, fun _ _ => ?_⟩
  exact iff_of_true (by decide) (by decide)

/-- The second entry lists the first one twice. -/
def repeatedPlan : SlicePlan := [⟨"PR-base", []⟩, ⟨"PR-store", ["PR-base", "PR-base"]⟩]

theorem check_rejects_repeated :
    repeatedPlan.ids.Nodup ∧ "" ∉ repeatedPlan.ids ∧
      ¬(repeatedPlan.checkPrSliceConsistency = [] ↔
        ∃ order, repeatedPlan.topoSort = .ok order) := by
  refine ⟨by decide, by decide, fun h => ?_⟩
  have hsort : ∃ order, repeatedPlan.topoSort = .ok order :=
    ⟨["PR-base", "PR-store"], by decide⟩
  exact absurd (h.2 hsort) (by decide)

end SlicePlan

end Nssf.Design
