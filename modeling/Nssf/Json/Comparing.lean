import Nssf.Base.JsonContent
import Nssf.Json.Written

/-! Three ways of taking two trees for the same: by the text they print, by the content of that
text, and by `cJSON_Compare`. Trees that print alike or compare equal have one content; trees
that do both are one tree. -/

namespace Nssf.Json

open Base JsonText

section comparing

theorem depth_le_depthItems {x : Json} {xs : List Json} (h : x ∈ xs) :
    x.depth ≤ depthItems xs := by
  induction xs with
  | nil => cases h
  | cons y ys ih =>
    rw [depthItems]
    rcases List.mem_cons.1 h with rfl | h
    · exact Nat.le_max_left _ _
    · exact (ih h).trans (Nat.le_max_right _ _)

theorem depth_le_depthMembers {m : String × Json} {ms : List (String × Json)} (h : m ∈ ms) :
    m.2.depth ≤ depthMembers ms := by
  induction ms with
  | nil => cases h
  | cons l ms ih =>
    rw [depthMembers]
    rcases List.mem_cons.1 h with rfl | h
    · exact Nat.le_max_left _ _
    · exact (ih h).trans (Nat.le_max_right _ _)

theorem mem_of_findMember {ms : List (String × Json)} {k : String} {x : Json}
    (h : findMember ms k = some x) : (k, x) ∈ ms := by
  obtain ⟨m, hm, rfl⟩ := Option.map_eq_some_iff.1 h
  have hname := List.find?_some hm
  rw [beq_iff_eq] at hname
  rw [← hname]
  exact List.mem_of_find?_eq_some hm

theorem findMember_of_mem {ms : List (String × Json)} {m : String × Json} (h : m ∈ ms) :
    ∃ x, findMember ms m.1 = some x := by
  cases hfind : ms.find? fun l => l.1 == m.1 with
  | none =>
    have hnone := List.find?_eq_none.1 hfind m h
    simp at hnone
  | some l => exact ⟨l.2, by rw [findMember, hfind]; rfl⟩

/-- A member is compared to the first of its name in the other object. -/
def MembersIn (r : Json → Json → Prop) (ms ns : List (String × Json)) : Prop :=
  ∀ m ∈ ms, ∃ y, findMember ns m.1 = some y ∧ r m.2 y

theorem compareTo_array (n : ℕ) (xs ys : List Json) :
    compareTo (n + 1) (.array xs) (.array ys) = true ↔
      List.Forall₂ (fun x y => compareTo n x y = true) xs ys := by
  rw [compareTo, Bool.and_eq_true, beq_iff_eq, List.all_eq_true]
  rw [List.forall₂_iff_zip]
  constructor
  · rintro ⟨hlen, h⟩
    exact ⟨hlen, fun hxy => h _ hxy⟩
  · rintro ⟨hlen, h⟩
    exact ⟨hlen, fun p hp => h hp⟩

theorem compareTo_object (n : ℕ) (ms ns : List (String × Json)) :
    compareTo (n + 1) (.object ms) (.object ns) = true ↔
      MembersIn (fun x y => compareTo n x y = true) ms ns ∧
        MembersIn (fun x y => compareTo n x y = true) ns ms := by
  simp only [compareTo, Bool.and_eq_true, List.all_eq_true, Option.any_eq_true, MembersIn]

/-- What a comparison that succeeds has found. -/
inductive Compared : ℕ → Json → Json → Prop where
  | null (n : ℕ) : Compared n .null .null
  | bool (n : ℕ) (b : Bool) : Compared n (.bool b) (.bool b)
  | number (n : ℕ) {d e : Binary64} : d.eqC e = true → Compared n (.number d) (.number e)
  | string (n : ℕ) (s : String) : Compared n (.string s) (.string s)
  | array {n : ℕ} {xs ys : List Json} : List.Forall₂ (fun x y => compareTo n x y = true) xs ys →
    Compared (n + 1) (.array xs) (.array ys)
  | object {n : ℕ} {ms ns : List (String × Json)} :
    MembersIn (fun x y => compareTo n x y = true) ms ns →
    MembersIn (fun x y => compareTo n x y = true) ns ms →
    Compared (n + 1) (.object ms) (.object ns)

theorem compareTo_iff {n : ℕ} {a b : Json} : compareTo n a b = true ↔ Compared n a b := by
  constructor
  · intro h
    cases a with
    | null =>
      cases b <;> simp [compareTo] at h
      exact .null n
    | bool x =>
      cases b <;> simp [compareTo] at h
      exact h ▸ .bool n x
    | number d =>
      cases b <;> simp [compareTo] at h
      exact .number n h
    | string x =>
      cases b <;> simp [compareTo] at h
      exact h ▸ .string n x
    | array xs =>
      cases b with
      | array ys =>
        cases n with
        | zero => simp [compareTo] at h
        | succ n => exact .array ((compareTo_array n xs ys).1 h)
      | _ => simp [compareTo] at h
    | object ms =>
      cases b with
      | object ns =>
        cases n with
        | zero => simp [compareTo] at h
        | succ n =>
          obtain ⟨hl, hr⟩ := (compareTo_object n ms ns).1 h
          exact .object hl hr
      | _ => simp [compareTo] at h
  · intro h
    cases h with
    | null => simp [compareTo]
    | bool => simp [compareTo]
    | number _ h => simpa [compareTo] using h
    | string => simp [compareTo]
    | array h => exact (compareTo_array _ _ _).2 h
    | object hl hr => exact (compareTo_object _ _ _).2 ⟨hl, hr⟩

theorem MembersIn.imp {r s : Json → Json → Prop} {ms ns : List (String × Json)}
    (h : MembersIn r ms ns) (himp : ∀ m ∈ ms, ∀ l ∈ ns, r m.2 l.2 → s m.2 l.2) :
    MembersIn s ms ns := by
  intro m hm
  obtain ⟨y, hy, hr⟩ := h m hm
  exact ⟨y, hy, himp m hm _ (mem_of_findMember hy) hr⟩

/-- Enough fuel is as good as any. -/
theorem compareTo_of_depth {n m : ℕ} {a b : Json} (h : compareTo n a b = true)
    (ha : a.depth ≤ m) (hb : b.depth ≤ m) : compareTo m a b = true := by
  induction n generalizing m a b with
  | zero =>
    rw [compareTo_iff] at h ⊢
    cases h with
    | null => exact .null m
    | bool _ x => exact .bool m x
    | number _ h => exact .number m h
    | string _ s => exact .string m s
  | succ n ih =>
    rw [compareTo_iff] at h ⊢
    cases h with
    | null => exact .null m
    | bool _ x => exact .bool m x
    | number _ h => exact .number m h
    | string _ s => exact .string m s
    | @array _ xs ys h =>
      obtain ⟨m, rfl⟩ : ∃ k, m = k + 1 := ⟨m - 1, by simp only [depth] at ha; omega⟩
      simp only [depth, Nat.add_le_add_iff_right] at ha hb
      refine .array ?_
      rw [List.forall₂_iff_zip] at h ⊢
      refine ⟨h.1, fun {x y} hxy => ?_⟩
      have hmem := List.of_mem_zip hxy
      exact ih (h.2 hxy) ((depth_le_depthItems hmem.1).trans ha)
        ((depth_le_depthItems hmem.2).trans hb)
    | @object _ ms ns hl hr =>
      obtain ⟨m, rfl⟩ : ∃ k, m = k + 1 := ⟨m - 1, by simp only [depth] at ha; omega⟩
      simp only [depth, Nat.add_le_add_iff_right] at ha hb
      have hdown {us vs : List (String × Json)} (hus : depthMembers us ≤ m)
          (hvs : depthMembers vs ≤ m) (h : MembersIn (fun x y => compareTo n x y = true) us vs) :
          MembersIn (fun x y => compareTo m x y = true) us vs :=
        h.imp fun u hu v hv huv => ih huv ((depth_le_depthMembers hu).trans hus)
          ((depth_le_depthMembers hv).trans hvs)
      exact .object (hdown ha hb hl) (hdown hb ha hr)

theorem compare_iff {n : ℕ} {a b : Json} (ha : a.depth ≤ n) (hb : b.depth ≤ n) :
    compare a b = true ↔ compareTo n a b = true :=
  ⟨fun h => compareTo_of_depth h ha hb,
    fun h => compareTo_of_depth h (Nat.le_max_left _ _) (Nat.le_max_right _ _)⟩

theorem eqC_comm {d e : Binary64} (h : d.eqC e = true) : e.eqC d = true := by
  simp only [Binary64.eqC, Bool.and_eq_true, Bool.or_eq_true, beq_iff_eq] at h ⊢
  obtain ⟨hmag, hsign⟩ := h
  exact ⟨hmag.symm, hsign.imp Eq.symm fun hzero => hmag ▸ hzero⟩

theorem eqC_trans {c d e : Binary64} (h : c.eqC d = true) (h' : d.eqC e = true) :
    c.eqC e = true := by
  simp only [Binary64.eqC, Bool.and_eq_true, Bool.or_eq_true, beq_iff_eq] at h h' ⊢
  obtain ⟨hmag, hsign⟩ := h
  obtain ⟨hmag', hsign'⟩ := h'
  refine ⟨hmag.trans hmag', ?_⟩
  rcases hsign with hsign | hzero
  · rcases hsign' with hsign' | hzero'
    · exact Or.inl (hsign.trans hsign')
    · exact Or.inr (hmag ▸ hzero')
  · exact Or.inr hzero

theorem compareTo_symm {n : ℕ} {a b : Json} (h : compareTo n a b = true) :
    compareTo n b a = true := by
  induction n generalizing a b with
  | zero =>
    rw [compareTo_iff] at h ⊢
    cases h with
    | null => exact .null 0
    | bool _ x => exact .bool 0 x
    | number _ h => exact .number 0 (eqC_comm h)
    | string _ s => exact .string 0 s
  | succ n ih =>
    rw [compareTo_iff] at h ⊢
    cases h with
    | null => exact .null _
    | bool _ x => exact .bool _ x
    | number _ h => exact .number _ (eqC_comm h)
    | string _ s => exact .string _ s
    | array h => exact .array (List.Forall₂.flip (h.imp fun _ _ hxy => ih hxy))
    | object hl hr => exact .object hr hl

theorem MembersIn.trans {n : ℕ} {ms ns os : List (String × Json)}
    (ih : ∀ {a b c : Json}, compareTo n a b = true → compareTo n b c = true →
      compareTo n a c = true)
    (h : MembersIn (fun x y => compareTo n x y = true) ms ns)
    (h' : MembersIn (fun x y => compareTo n x y = true) ns os) :
    MembersIn (fun x y => compareTo n x y = true) ms os := by
  intro m hm
  obtain ⟨y, hy, hmy⟩ := h m hm
  obtain ⟨z, hz, hyz⟩ := h' _ (mem_of_findMember hy)
  exact ⟨z, hz, ih hmy hyz⟩

theorem forall₂_trans {α : Type*} {r : α → α → Prop} {xs ys zs : List α}
    (ih : ∀ {x y z : α}, r x y → r y z → r x z) (h : List.Forall₂ r xs ys)
    (h' : List.Forall₂ r ys zs) : List.Forall₂ r xs zs := by
  induction h generalizing zs with
  | nil => exact h'
  | cons hxy _ ihs =>
    cases h' with
    | cons hyz h' => exact .cons (ih hxy hyz) (ihs h')

theorem compareTo_trans {n : ℕ} {a b c : Json} (h : compareTo n a b = true)
    (h' : compareTo n b c = true) : compareTo n a c = true := by
  induction n generalizing a b c with
  | zero =>
    rw [compareTo_iff] at h h' ⊢
    cases h with
    | null => exact h'
    | bool => exact h'
    | number _ h =>
      cases h' with
      | number _ h' => exact .number 0 (eqC_trans h h')
    | string => exact h'
  | succ n ih =>
    rw [compareTo_iff] at h h' ⊢
    cases h with
    | null => exact h'
    | bool => exact h'
    | number _ h =>
      cases h' with
      | number _ h' => exact .number _ (eqC_trans h h')
    | string => exact h'
    | array h =>
      cases h' with
      | array h' => exact .array (forall₂_trans ih h h')
    | object hl hr =>
      cases h' with
      | object hl' hr' => exact .object (hl.trans ih hl') (hr'.trans ih hr)

end comparing

section contents

theorem decimalOf_zero (neg : Bool) : decimalOf ⟨neg, 0⟩ = 0 := by
  have hscan : ∃ x, Binary64.scanDecimal (printNumber ⟨neg, 0⟩) = some x ∧ x.digits = 0 := by
    cases neg with
    | true => exact ⟨⟨true, 0, 0, []⟩, rfl, rfl⟩
    | false => exact ⟨⟨false, 0, 0, []⟩, rfl, rfl⟩
  obtain ⟨x, hscan, hzero⟩ := hscan
  rw [decimalOf, hscan]
  simp [hzero]

theorem value_number {d e : Binary64} (h : d.eqC e = true) :
    value (.number d) = value (.number e) := by
  obtain ⟨neg, mag⟩ := d
  obtain ⟨neg', mag'⟩ := e
  simp only [Binary64.eqC, Bool.and_eq_true, Bool.or_eq_true, beq_iff_eq] at h
  obtain ⟨rfl, rfl | hzero⟩ := h
  · rfl
  · have hmag : mag = 0 := Fin.ext hzero
    subst hmag
    have hinf (b : Bool) : Binary64.isInf ⟨b, 0⟩ = false := rfl
    simp only [value, hinf, decimalOf_zero]

mutual

theorem value_written : ∀ j : Json, value (written j) = value j
  | .null => rfl
  | .bool _ => rfl
  | .number d => by cases hinf : d.isInf <;> simp [written, value, hinf]
  | .string _ => rfl
  | .array xs => by rw [written, value, value, itemValues_written xs]
  | .object ms => by rw [written, value, value, memberValues_written ms]

theorem itemValues_written : ∀ xs : List Json, itemValues (writtenItems xs) = itemValues xs
  | [] => rfl
  | x :: xs => by
    rw [writtenItems, itemValues, itemValues, value_written x, itemValues_written xs]

theorem memberValues_written :
    ∀ ms : List (String × Json), memberValues (writtenMembers ms) = memberValues ms
  | [] => rfl
  | (k, x) :: ms => by
    rw [writtenMembers, memberValues, memberValues, value_written x, memberValues_written ms]

end

theorem lastMember?_eq_none {k : List Char} {ms : List (String × Json)}
    (h : lastMember? k (memberValues ms) = none) : ∀ m ∈ ms, m.1.toList ≠ k := by
  induction ms with
  | nil => simp
  | cons l ms ih =>
    obtain ⟨name, x⟩ := l
    rw [memberValues, lastMember?] at h
    cases hrest : lastMember? k (memberValues ms) with
    | some v =>
      rw [hrest] at h
      cases h
    | none =>
      rw [hrest] at h
      intro m hm
      rcases List.mem_cons.1 hm with rfl | hm
      · intro hname
        rw [if_pos hname] at h
        cases h
      · exact ih hrest m hm

theorem lastMember?_eq_some {k : List Char} {ms : List (String × Json)} {v : Value}
    (h : lastMember? k (memberValues ms) = some v) : ∃ m ∈ ms, m.1.toList = k ∧ value m.2 = v := by
  induction ms with
  | nil => cases h
  | cons l ms ih =>
    obtain ⟨name, x⟩ := l
    rw [memberValues, lastMember?] at h
    cases hrest : lastMember? k (memberValues ms) with
    | some w =>
      rw [hrest] at h
      obtain ⟨m, hm, hname, hvalue⟩ := ih (hrest.trans h)
      exact ⟨m, List.mem_cons_of_mem _ hm, hname, hvalue⟩
    | none =>
      rw [hrest] at h
      by_cases hname : name.toList = k
      · rw [if_pos hname] at h
        exact ⟨_, List.mem_cons_self, hname, Option.some.inj h⟩
      · rw [if_neg hname] at h
        cases h

/-- Trees that compare equal have one content. -/
theorem canonical_of_compareTo {n : ℕ} {a b : Json} (h : compareTo n a b = true) :
    (value a).canonical = (value b).canonical := by
  induction n generalizing a b with
  | zero =>
    rw [compareTo_iff] at h
    cases h with
    | null => rfl
    | bool => rfl
    | number _ h => rw [value_number h]
    | string => rfl
  | succ n ih =>
    rw [compareTo_iff] at h
    cases h with
    | null => rfl
    | bool => rfl
    | number _ h => rw [value_number h]
    | string => rfl
    | @array _ xs ys h =>
      have hitems : canonicalItems (itemValues xs) = canonicalItems (itemValues ys) := by
        induction h with
        | nil => rfl
        | cons hxy _ ihs =>
          rw [itemValues, itemValues, canonicalItems, canonicalItems, ih hxy, ihs]
      rw [value, value, Value.canonical, Value.canonical, hitems]
    | @object _ ms ns hl hr =>
      have hmembers : canonicalMembers (memberValues ms) = canonicalMembers (memberValues ns) := by
        apply canonicalMembers_eq
        intro k
        cases hms : lastMember? k (memberValues ms) with
        | none =>
          cases hns : lastMember? k (memberValues ns) with
          | none => rfl
          | some w =>
            obtain ⟨m, hm, hname, -⟩ := lastMember?_eq_some hns
            obtain ⟨x, hx, -⟩ := hr m hm
            exact absurd hname (lastMember?_eq_none hms (m.1, x) (mem_of_findMember hx))
        | some v =>
          obtain ⟨m, hm, hname, hv⟩ := lastMember?_eq_some hms
          obtain ⟨y, hy, hmy⟩ := hl m hm
          obtain ⟨x, hx, hyx⟩ := hr _ (mem_of_findMember hy)
          cases hns : lastMember? k (memberValues ns) with
          | none => exact absurd hname (lastMember?_eq_none hns (m.1, y) (mem_of_findMember hy))
          | some w =>
            obtain ⟨l, hl', hname', hw⟩ := lastMember?_eq_some hns
            obtain ⟨x', hx', hlx⟩ := hr l hl'
            have hsame : l.1 = m.1 := String.toList_injective (hname'.trans hname.symm)
            rw [hsame, hx] at hx'
            obtain rfl := Option.some.inj hx'
            rw [Option.map_some, Option.map_some, ← hv, ← hw, ih hmy, ih hyx, ih hlx]
      rw [value, value, Value.canonical, Value.canonical, hmembers]

theorem eq_of_written_number {c d e : Binary64} (hd : d.eqC c = true) (he : e.eqC c = true)
    (h : written (.number d) = written (.number e)) : d = e := by
  have hsame := eqC_trans hd (eqC_comm he)
  simp only [Binary64.eqC, Bool.and_eq_true, Bool.or_eq_true, beq_iff_eq] at hsame
  obtain ⟨neg, mag⟩ := d
  obtain ⟨neg', mag'⟩ := e
  obtain ⟨rfl, hsign⟩ := hsame
  cases hinf : Binary64.isInf ⟨neg, mag⟩ with
  | true =>
    rcases hsign with rfl | hzero
    · rfl
    · have hmag : mag.val = 0 := hzero
      simp [Binary64.isInf, hmag, infMag] at hinf
  | false =>
    have hinf' : Binary64.isInf ⟨neg', mag⟩ = false := hinf
    simpa [written, hinf, hinf'] using h

theorem eq_of_writtenItems {n : ℕ} {xs ys zs : List Json}
    (ih : ∀ {x y z : Json}, compareTo n x z = true → compareTo n y z = true →
      written x = written y → x = y)
    (hx : List.Forall₂ (fun x y => compareTo n x y = true) xs zs)
    (hy : List.Forall₂ (fun x y => compareTo n x y = true) ys zs)
    (h : writtenItems xs = writtenItems ys) : xs = ys := by
  induction hx generalizing ys with
  | nil =>
    cases hy
    rfl
  | cons hxz _ ihs =>
    cases hy with
    | cons hyz hy =>
      rw [writtenItems, writtenItems, List.cons.injEq] at h
      rw [ih hxz hyz h.1, ihs hy h.2]

theorem eq_of_writtenMembers {n : ℕ} {ms ns os : List (String × Json)}
    (ih : ∀ {x y z : Json}, compareTo n x z = true → compareTo n y z = true →
      written x = written y → x = y)
    (hm : MembersIn (fun x y => compareTo n x y = true) ms os)
    (hn : MembersIn (fun x y => compareTo n x y = true) ns os)
    (h : writtenMembers ms = writtenMembers ns) : ms = ns := by
  induction ms generalizing ns with
  | nil =>
    cases ns with
    | nil => rfl
    | cons l ns => cases h
  | cons m ms ihs =>
    cases ns with
    | nil => cases h
    | cons l ns =>
      obtain ⟨k, x⟩ := m
      obtain ⟨k', y⟩ := l
      simp only [writtenMembers, List.cons.injEq, Prod.mk.injEq] at h
      obtain ⟨⟨rfl, hvalue⟩, hrest⟩ := h
      obtain ⟨z, hz, hxz⟩ := hm _ List.mem_cons_self
      obtain ⟨z', hz', hyz⟩ := hn _ List.mem_cons_self
      obtain rfl := Option.some.inj (hz.symm.trans hz')
      have hvalues : x = y := ih hxz hyz hvalue
      rw [hvalues, ihs (fun m hm' => hm m (List.mem_cons_of_mem _ hm'))
        (fun m hm' => hn m (List.mem_cons_of_mem _ hm')) hrest]

/-- Trees that compare to one tree and print alike are the same. -/
theorem eq_of_written {n : ℕ} {x y z : Json} (hx : compareTo n x z = true)
    (hy : compareTo n y z = true) (h : written x = written y) : x = y := by
  induction n generalizing x y z with
  | zero =>
    rw [compareTo_iff] at hx hy
    cases hx with
    | null =>
      cases hy
      rfl
    | bool =>
      cases hy
      rfl
    | number _ hd =>
      cases hy with
      | number _ he => rw [eq_of_written_number hd he h]
    | string =>
      cases hy
      rfl
  | succ n ih =>
    rw [compareTo_iff] at hx hy
    cases hx with
    | null =>
      cases hy
      rfl
    | bool =>
      cases hy
      rfl
    | number _ hd =>
      cases hy with
      | number _ he => rw [eq_of_written_number hd he h]
    | string =>
      cases hy
      rfl
    | array hx =>
      cases hy with
      | array hy =>
        rw [written, written, Json.array.injEq] at h
        rw [eq_of_writtenItems ih hx hy h]
    | object hx _ =>
      cases hy with
      | object hy _ =>
        rw [written, written, Json.object.injEq] at h
        rw [eq_of_writtenMembers ih hx hy h]

mutual

/-- The members of one name in an object of the tree compare equal. -/
def Consistent : Json → Prop
  | .array xs => ConsistentItems xs
  | .object ms => ConsistentMembers ms ∧
    ∀ m ∈ ms, ∀ l ∈ ms, m.1 = l.1 → compare m.2 l.2 = true
  | _ => True

def ConsistentItems : List Json → Prop
  | [] => True
  | x :: xs => Consistent x ∧ ConsistentItems xs

def ConsistentMembers : List (String × Json) → Prop
  | [] => True
  | (_, x) :: ms => Consistent x ∧ ConsistentMembers ms

end

theorem consistentItems_iff (xs : List Json) : ConsistentItems xs ↔ ∀ x ∈ xs, Consistent x := by
  induction xs with
  | nil => simp [ConsistentItems]
  | cons x xs ih => simp [ConsistentItems, ih]

theorem consistentMembers_iff (ms : List (String × Json)) :
    ConsistentMembers ms ↔ ∀ m ∈ ms, Consistent m.2 := by
  induction ms with
  | nil => simp [ConsistentMembers]
  | cons m ms ih =>
    obtain ⟨k, x⟩ := m
    simp [ConsistentMembers, ih]

/-- A tree compares to a copy of itself when it is consistent. -/
theorem compareTo_self_iff {n : ℕ} {a : Json} (h : a.depth ≤ n) :
    compareTo n a a = true ↔ Consistent a := by
  induction n generalizing a with
  | zero =>
    cases a with
    | null => simp [compareTo, Consistent]
    | bool => simp [compareTo, Consistent]
    | number d => simp [compareTo, Consistent, Binary64.eqC_refl]
    | string => simp [compareTo, Consistent]
    | array => simp [depth] at h
    | object => simp [depth] at h
  | succ n ih =>
    cases a with
    | null => simp [compareTo, Consistent]
    | bool => simp [compareTo, Consistent]
    | number d => simp [compareTo, Consistent, Binary64.eqC_refl]
    | string => simp [compareTo, Consistent]
    | array xs =>
      simp only [depth, Nat.add_le_add_iff_right] at h
      rw [compareTo_array, List.forall₂_same, Consistent, consistentItems_iff]
      exact forall₂_congr fun x hx => ih ((depth_le_depthItems hx).trans h)
    | object ms =>
      simp only [depth, Nat.add_le_add_iff_right] at h
      have hdepth {m : String × Json} (hm : m ∈ ms) : m.2.depth ≤ n :=
        (depth_le_depthMembers hm).trans h
      rw [compareTo_object, and_self, Consistent, consistentMembers_iff]
      constructor
      · intro hself
        constructor
        · intro m hm
          obtain ⟨y, -, hmy⟩ := hself m hm
          exact (ih (hdepth hm)).1 (compareTo_trans hmy (compareTo_symm hmy))
        · intro m hm l hl hname
          obtain ⟨y, hy, hmy⟩ := hself m hm
          obtain ⟨y', hy', hly⟩ := hself l hl
          rw [← hname, hy] at hy'
          obtain rfl := Option.some.inj hy'
          rw [compare_iff (hdepth hm) (hdepth hl)]
          exact compareTo_trans hmy (compareTo_symm hly)
      · rintro ⟨-, hsame⟩ m hm
        obtain ⟨y, hy⟩ := findMember_of_mem hm
        have hmem := mem_of_findMember hy
        have hcompare : compare m.2 y = true := hsame m hm (m.1, y) hmem rfl
        exact ⟨y, hy, (compare_iff (hdepth hm) (hdepth hmem)).1 hcompare⟩

theorem compare_self_iff {a : Json} : compare a a = true ↔ Consistent a := by
  rw [compare_iff (Nat.le_refl _) (Nat.le_refl _), compareTo_self_iff (Nat.le_refl _)]

end contents

end Nssf.Json
