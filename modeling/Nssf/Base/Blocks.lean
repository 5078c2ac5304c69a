import Nssf.Base.Faulting
import Mathlib.Logic.Function.Basic
import Mathlib.Data.List.Basic

/-! Memory in blocks, each with the cells that were ever written. A block that is freed keeps what
it held, so that what is left behind in it can be spoken about. Reaching past a block, into a freed
one or into a cell that was not written is a fault. -/

namespace Nssf.Base

namespace Blocks

variable {β : Type}

structure Block (β : Type) where
  size : ℕ
  cells : ℕ → Option β
  live : Bool

def Block.fresh (size : ℕ) : Block β := ⟨size, fun _ => none, true⟩

def Block.put (b : Block β) (off : ℕ) (xs : List β) : Block β :=
  { b with cells := fun i =>
      if off ≤ i ∧ i < off + xs.length then xs[i - off]? else b.cells i }

def Block.fill (b : Block β) (x : β) (n : ℕ) : Block β :=
  { b with cells := fun i => if i < n then some x else b.cells i }

def Block.freed (b : Block β) : Block β := { b with live := false }

def Block.read (b : Block β) (n : ℕ) : Option (List β) := (List.range n).mapM b.cells

/-- The block starts with `xs`. -/
def Block.Starts (b : Block β) (xs : List β) : Prop := ∀ i < xs.length, b.cells i = xs[i]?

/-- No cell holds anything but `x`. -/
def Block.Only (x : β) (b : Block β) : Prop := ∀ i y, b.cells i = some y → y = x

structure Heap (β : Type) where
  block : ℕ → Block β
  next : ℕ

def Heap.empty : Heap β := ⟨fun _ => (Block.fresh 0).freed, 0⟩

def Heap.set (h : Heap β) (p : ℕ) (b : Block β) : Heap β :=
  { h with block := Function.update h.block p b }

def Heap.grow (h : Heap β) (size : ℕ) : Heap β :=
  ⟨Function.update h.block h.next (.fresh size), h.next + 1⟩

inductive Fault where
  | freed
  | outside
  | unwritten
  deriving DecidableEq

abbrev Act (β : Type) := Prog (Heap β) Fault

def malloc (size : ℕ) (granted : Bool) : Act β (Option ℕ) := fun h =>
  if granted then .ok (some h.next, h.grow size) else .ok (none, h)

/-- The block of `p`, which has to be there up to `n`. -/
def within (p n : ℕ) : Act β (Block β) := fun h =>
  if (h.block p).live = false then .error .freed
  else if (h.block p).size < n then .error .outside
  else .ok (h.block p, h)

def replace (p : ℕ) (b : Block β) : Act β Unit := fun h => .ok ((), h.set p b)

def write (p off : ℕ) (xs : List β) : Act β Unit := do
  replace p ((← within p (off + xs.length)).put off xs)

def memset (p : ℕ) (x : β) (n : ℕ) : Act β Unit := do
  replace p ((← within p n).fill x n)

def free (p : ℕ) : Act β Unit := do
  replace p (← within p 0).freed

def read (p n : ℕ) : Act β (List β) := do
  match (← within p n).read n with
  | some xs => return xs
  | none => fun _ => .error .unwritten

def get (p i : ℕ) : Act β β := do
  match (← within p (i + 1)).cells i with
  | some x => return x
  | none => fun _ => .error .unwritten

section block

variable {b : Block β} {xs : List β}

/-- What is written behind leaves the start as it is. -/
theorem Block.Starts.put {off : ℕ} {ys : List β} (h : b.Starts xs) (hoff : xs.length ≤ off) :
    (b.put off ys).Starts xs := by
  intro i hi
  have hout : ¬(off ≤ i ∧ i < off + ys.length) := by omega
  simp only [Block.put]
  rw [if_neg hout]
  exact h i hi

theorem Block.Starts.of_append {ys : List β} (h : b.Starts (xs ++ ys)) : b.Starts xs := by
  intro i hi
  rw [h i (by rw [List.length_append]; omega), List.getElem?_append_left hi]

theorem Block.Starts.snoc {x : β} (h : b.Starts xs) : (b.put xs.length [x]).Starts (xs ++ [x]) := by
  intro i hi
  rw [List.length_append, List.length_singleton] at hi
  simp only [Block.put, List.length_singleton]
  by_cases hlast : i = xs.length
  · subst hlast
    rw [if_pos (by omega), Nat.sub_self, List.getElem?_append_right (le_refl _), Nat.sub_self]
  · rw [if_neg (by omega), h i (by omega), List.getElem?_append_left (by omega)]

theorem Block.Only.freed {x : β} (h : b.Only x) : b.freed.Only x := h

end block

section heap

variable {h : Heap β} {p q : ℕ} {b : Block β}

@[simp] theorem set_block_self : (h.set p b).block p = b := Function.update_self _ _ _

@[simp] theorem set_next : (h.set p b).next = h.next := rfl

theorem set_block_of_ne (hq : q ≠ p) : (h.set p b).block q = h.block q :=
  Function.update_of_ne hq _ _

@[simp] theorem grow_next {n : ℕ} : (h.grow n).next = h.next + 1 := rfl

theorem grow_block_of_ne {n : ℕ} (hq : q ≠ h.next) : (h.grow n).block q = h.block q :=
  Function.update_of_ne hq _ _

end heap

section growth

/-- From `h` on blocks were taken: those of `mine` are in use, the others were freed with nothing
but `x` in them, and no block of before was touched. -/
structure Extends (x : β) (mine : List ℕ) (h h' : Heap β) : Prop where
  le : h.next ≤ h'.next
  mine_ge : ∀ p ∈ mine, h.next ≤ p ∧ p < h'.next
  kept : ∀ p < h.next, h'.block p = h.block p
  gone : ∀ p, h.next ≤ p → p < h'.next → p ∉ mine →
    (h'.block p).live = false ∧ (h'.block p).Only x

variable {x : β} {mine : List ℕ} {h h' : Heap β} {p : ℕ}

theorem Extends.refl : Extends x [] h h :=
  ⟨le_refl _, by simp, fun _ _ => rfl, fun _ hge hlt _ => absurd hlt (Nat.not_lt.2 hge)⟩

theorem Extends.grow (he : Extends x mine h h') (n : ℕ) :
    Extends x (h'.next :: mine) h (h'.grow n) := by
  have hle := he.le
  refine ⟨?_, ?_, ?_, ?_⟩
  · rw [grow_next]
    omega
  · intro p hp
    rw [grow_next]
    rcases List.mem_cons.1 hp with rfl | hp
    · omega
    · have := he.mine_ge p hp
      omega
  · intro p hp
    rw [grow_block_of_ne (by omega)]
    exact he.kept p hp
  · intro p hge hlt hp
    rw [List.mem_cons, not_or] at hp
    rw [grow_next] at hlt
    rw [grow_block_of_ne hp.1]
    exact he.gone p hge (by omega) hp.2

theorem Extends.set (he : Extends x mine h h') (hp : p ∈ mine) (b : Block β) :
    Extends x mine h (h'.set p b) := by
  have hge := he.mine_ge p hp
  refine ⟨he.le, he.mine_ge, ?_, ?_⟩
  · intro q hq
    rw [set_block_of_ne (by omega)]
    exact he.kept q hq
  · intro q hqge hlt hq
    have hne : q ≠ p := by
      rintro rfl
      exact hq hp
    rw [set_block_of_ne hne]
    exact he.gone q hqge hlt hq

/-- A block of `mine` is given back with nothing but `x` in it. -/
theorem Extends.drop (he : Extends x mine h h') (hp : p ∈ mine) {b : Block β}
    (hlive : b.live = false) (honly : b.Only x) :
    Extends x (mine.filter (· ≠ p)) h (h'.set p b) := by
  have hset := he.set hp b
  refine ⟨hset.le, fun q hq => hset.mine_ge q (List.mem_filter.1 hq).1, hset.kept, ?_⟩
  intro q hge hlt hq
  by_cases hqp : q = p
  · subst hqp
    rw [set_block_self]
    exact ⟨hlive, honly⟩
  · refine hset.gone q hge hlt fun hmem => hq ?_
    exact List.mem_filter.2 ⟨hmem, by simpa using hqp⟩

end growth

end Blocks

end Nssf.Base
