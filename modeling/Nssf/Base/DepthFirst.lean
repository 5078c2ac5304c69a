import Mathlib.Data.List.Nodup
import Mathlib.Data.List.Perm.Subperm
import Mathlib.Logic.Relation

/-! The order in which a walk in depth leaves the nodes of a graph, cycles and all. A node that
is come upon while it is open is passed over, so a node is left before one it leads to only if
something that it leads to leads back to it. -/

namespace Nssf.Base.DepthFirst

variable {κ : Type} (succ : κ → List κ)

def Leads : κ → κ → Prop := Relation.ReflTransGen fun x y => y ∈ succ x

/-- With the nodes of `done` left before `a`, everything that they and `a` refer to is one of
them or leads to `a`. -/
def Behind (done : List κ) (a : κ) : Prop :=
  ∀ x, x ∈ done ∨ x = a → ∀ y ∈ succ x, y ∈ done ∨ y = a ∨ Leads succ y a

/-- What holds of the nodes that were left while those of `stack` are open. -/
structure Left (nodes stack out : List κ) : Prop where
  nodup : out.Nodup
  apart : ∀ x ∈ out, x ∉ stack
  inside : ∀ x ∈ out, x ∈ nodes
  closed : ∀ x ∈ out, ∀ y ∈ succ x, y ∈ out ∨ y ∈ stack
  behind : ∀ before a after, out = before ++ a :: after → Behind succ before a

/-- The walk went on from `out` and has come to `n`. -/
structure Passed (nodes stack out : List κ) (ns out' : List κ) : Prop where
  left : Left succ nodes stack out'
  grows : out <+: out'
  reached : ∀ n ∈ ns, n ∈ out' ∨ n ∈ stack

variable {succ} {nodes stack out : List κ}

theorem Left.push {n : κ} (h : Left succ nodes stack out) (hn : n ∉ out) :
    Left succ nodes (n :: stack) out where
  nodup := h.nodup
  apart x hx hmem := by
    rcases List.mem_cons.1 hmem with rfl | hold
    · exact hn hx
    · exact h.apart x hx hold
  inside := h.inside
  closed x hx y hy := (h.closed x hx y hy).imp_right fun hold => List.mem_cons_of_mem n hold
  behind := h.behind

/-- A node is left when everything it refers to was left or is open. -/
theorem Left.pop {n : κ} (h : Left succ nodes (n :: stack) out) (hn : n ∉ stack)
    (hnode : n ∈ nodes) (hlead : ∀ s ∈ stack, Leads succ s n)
    (hsucc : ∀ y ∈ succ n, y ∈ out ∨ y ∈ n :: stack) :
    Left succ nodes stack (out ++ [n]) where
  nodup := by
    rw [List.nodup_append]
    refine ⟨h.nodup, List.nodup_singleton n, fun x hx y hy heq => ?_⟩
    have hxn : x = n := heq.trans (List.mem_singleton.1 hy)
    exact h.apart x hx (by rw [hxn]; exact List.mem_cons_self)
  apart x hx := by
    rcases List.mem_append.1 hx with hx | hx
    · exact fun hmem => h.apart x hx (List.mem_cons_of_mem n hmem)
    · rw [List.mem_singleton.1 hx]
      exact hn
  inside x hx := by
    rcases List.mem_append.1 hx with hx | hx
    · exact h.inside x hx
    · rw [List.mem_singleton.1 hx]
      exact hnode
  closed x hx y hy := by
    have hopen : y ∈ out ∨ y ∈ n :: stack := by
      rcases List.mem_append.1 hx with hx | hx
      · exact h.closed x hx y hy
      · rw [List.mem_singleton.1 hx] at hy
        exact hsucc y hy
    rcases hopen with hout | hopen
    · exact Or.inl (List.mem_append_left _ hout)
    · rcases List.mem_cons.1 hopen with rfl | hold
      · exact Or.inl (List.mem_append_right _ (List.mem_singleton_self y))
      · exact Or.inr hold
  behind before a after heq := by
    rcases List.eq_nil_or_concat after with rfl | ⟨after', z, rfl⟩
    · obtain ⟨hbefore, hlast⟩ := List.append_inj' heq rfl
      subst hbefore
      obtain rfl : n = a := List.singleton_inj.1 hlast
      intro x hx y hy
      have hopen : y ∈ out ∨ y ∈ n :: stack := by
        rcases hx with hx | rfl
        · exact h.closed x hx y hy
        · exact hsucc y hy
      rcases hopen with hout | hopen
      · exact Or.inl hout
      · rcases List.mem_cons.1 hopen with rfl | hold
        · exact Or.inr (Or.inl rfl)
        · exact Or.inr (Or.inr (hlead y hold))
    · have heq' : out ++ [n] = (before ++ a :: after') ++ [z] := by simpa using heq
      exact h.behind before a after' (List.append_inj' heq' rfl).1

/-- A walk over several nodes, each of which is passed. -/
theorem passed_foldl {step : List κ → κ → List κ} {ns : List κ} (h : Left succ nodes stack out)
    (hstep : ∀ n ∈ ns, ∀ out, Left succ nodes stack out →
      Passed succ nodes stack out [n] (step out n)) :
    Passed succ nodes stack out ns (ns.foldl step out) := by
  induction ns generalizing out with
  | nil => exact ⟨h, List.prefix_refl out, fun n hn => by cases hn⟩
  | cons n ns ih =>
    have hfirst := hstep n List.mem_cons_self out h
    have hrest := ih hfirst.left fun m hm => hstep m (List.mem_cons_of_mem n hm)
    refine ⟨hrest.left, hfirst.grows.trans hrest.grows, fun m hm => ?_⟩
    rcases List.mem_cons.1 hm with rfl | hm
    · exact (hfirst.reached m (List.mem_singleton_self m)).imp_left fun hout =>
        hrest.grows.subset hout
    · exact hrest.reached m hm

variable [DecidableEq κ] (succ)

/-- A visit of a node, with the nodes that are open and those that were left. -/
def visit : ℕ → List κ → List κ → κ → List κ
  | 0, _, out, _ => out
  | fuel + 1, stack, out, n =>
    if n ∈ out ∨ n ∈ stack then out
    else (succ n).foldl (visit fuel (n :: stack)) out ++ [n]

def order (nodes : List κ) : List κ := nodes.foldl (visit succ (nodes.length + 1) []) []

variable {succ}

/-- There is fuel enough while it outlasts the nodes that are not open. -/
theorem passed_visit (hsucc : ∀ x ∈ nodes, ∀ y ∈ succ x, y ∈ nodes) (fuel : ℕ) {n : κ}
    (hnodup : stack.Nodup) (hstack : ∀ s ∈ stack, s ∈ nodes) (hn : n ∈ nodes)
    (hlead : ∀ s ∈ stack, Leads succ s n) (hfuel : nodes.length < fuel + stack.length)
    (h : Left succ nodes stack out) :
    Passed succ nodes stack out [n] (visit succ fuel stack out n) := by
  induction fuel generalizing stack out n with
  | zero =>
    have hle := (List.subperm_of_subset hnodup hstack).length_le
    omega
  | succ fuel ih =>
    simp only [visit]
    split_ifs with hseen
    · refine ⟨h, List.prefix_refl out, fun m hm => ?_⟩
      rw [List.mem_singleton.1 hm]
      exact hseen
    · obtain ⟨hout, hopen⟩ := not_or.1 hseen
      have hinner : Passed succ nodes (n :: stack) out (succ n)
          ((succ n).foldl (visit succ fuel (n :: stack)) out) := by
        refine passed_foldl (h.push hout) fun d hd out' hleft => ?_
        refine ih (List.nodup_cons.2 ⟨hopen, hnodup⟩) ?_ (hsucc n hn d hd) ?_ ?_ hleft
        · intro s hs
          rcases List.mem_cons.1 hs with rfl | hs
          · exact hn
          · exact hstack s hs
        · intro s hs
          rcases List.mem_cons.1 hs with rfl | hs
          · exact .single hd
          · exact (hlead s hs).tail hd
        · rw [List.length_cons]
          omega
      refine ⟨hinner.left.pop hopen hn hlead hinner.reached,
        hinner.grows.trans (List.prefix_append _ _), fun m hm => ?_⟩
      exact Or.inl (List.mem_append_right _ hm)

theorem passed_order (hsucc : ∀ x ∈ nodes, ∀ y ∈ succ x, y ∈ nodes) :
    Passed succ nodes [] [] nodes (order succ nodes) := by
  have hstart : Left succ nodes [] [] := by
    refine ⟨List.nodup_nil, ?_, ?_, ?_, fun before a after heq => ?_⟩
    · exact fun x hx => by cases hx
    · exact fun x hx => by cases hx
    · exact fun x hx => by cases hx
    · exact absurd heq.symm (by simp)
  refine passed_foldl hstart fun n hn out hleft => ?_
  refine passed_visit hsucc _ List.nodup_nil ?_ hn ?_ (by simp) hleft
  · exact fun s hs => by cases hs
  · exact fun s hs => by cases hs

theorem nodup_order (hsucc : ∀ x ∈ nodes, ∀ y ∈ succ x, y ∈ nodes) :
    (order succ nodes).Nodup := (passed_order hsucc).left.nodup

theorem mem_order (hsucc : ∀ x ∈ nodes, ∀ y ∈ succ x, y ∈ nodes) (n : κ) :
    n ∈ order succ nodes ↔ n ∈ nodes := by
  constructor
  · exact (passed_order hsucc).left.inside n
  · intro hn
    exact ((passed_order hsucc).reached n hn).resolve_right fun h => by cases h

section bounded

variable (succ)

/-- The visit as a recursion that may not end. -/
def tryVisit : ℕ → List κ → List κ → κ → Option (List κ)
  | 0, _, _, _ => none
  | fuel + 1, stack, out, n =>
    if n ∈ out ∨ n ∈ stack then some out
    else ((succ n).foldlM (tryVisit fuel (n :: stack)) out).map fun out => out ++ [n]

def tryOrder (fuel : ℕ) (nodes : List κ) : Option (List κ) :=
  nodes.foldlM (tryVisit succ fuel []) []

variable {succ}

omit [DecidableEq κ] in
theorem foldlM_eq_some {β : Type} {f : β → κ → Option β} {g : β → κ → β} (ns : List κ)
    (h : ∀ b, ∀ n ∈ ns, f b n = some (g b n)) (b : β) : ns.foldlM f b = some (ns.foldl g b) := by
  induction ns generalizing b with
  | nil => rfl
  | cons n ns ih =>
    rw [List.foldlM_cons, h b n List.mem_cons_self]
    exact ih (fun b m hm => h b m (List.mem_cons_of_mem n hm)) (g b n)

/-- The open nodes bound the depth of the visits. -/
theorem tryVisit_eq (hsucc : ∀ x ∈ nodes, ∀ y ∈ succ x, y ∈ nodes) (fuel : ℕ) {n : κ}
    (hnodup : stack.Nodup) (hstack : ∀ s ∈ stack, s ∈ nodes) (hn : n ∈ nodes)
    (hfuel : nodes.length < fuel + stack.length) (out : List κ) :
    tryVisit succ fuel stack out n = some (visit succ fuel stack out n) := by
  induction fuel generalizing stack out n with
  | zero =>
    have hle := (List.subperm_of_subset hnodup hstack).length_le
    omega
  | succ fuel ih =>
    simp only [tryVisit, visit]
    split_ifs with hseen
    · rfl
    · have hopen := (not_or.1 hseen).2
      have hstack' : ∀ s ∈ n :: stack, s ∈ nodes := List.forall_mem_cons.2 ⟨hn, hstack⟩
      have hfuel' : nodes.length < fuel + (n :: stack).length := by
        rw [List.length_cons]
        omega
      have hinner := foldlM_eq_some (succ n)
        (fun out d hd =>
          ih (List.nodup_cons.2 ⟨hopen, hnodup⟩) hstack' (hsucc n hn d hd) hfuel' out)
        out
      rw [hinner, Option.map_some]

theorem tryOrder_eq (hsucc : ∀ x ∈ nodes, ∀ y ∈ succ x, y ∈ nodes) :
    tryOrder succ (nodes.length + 1) nodes = some (order succ nodes) := by
  refine foldlM_eq_some nodes (fun out n hn => tryVisit_eq hsucc _ List.nodup_nil ?_ hn ?_ out) []
  · exact fun s hs => by cases hs
  · simp

end bounded

end Nssf.Base.DepthFirst
