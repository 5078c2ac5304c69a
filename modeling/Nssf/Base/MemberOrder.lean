import Nssf.Base.JsonContent

/-! Values whose objects all list their members in one order of the names. Such a value is
determined by its content. -/

namespace Nssf.Base.JsonText

variable (r : List Char → List Char → Prop)

mutual

/-- Every object lists its members along `r`. -/
def Value.OrderedBy : Value → Prop
  | .array vs => OrderedItems vs
  | .object ms => (ms.map Prod.fst).Pairwise r ∧ OrderedMembers ms
  | _ => True

def OrderedItems : List Value → Prop
  | [] => True
  | v :: vs => v.OrderedBy ∧ OrderedItems vs

def OrderedMembers : List (List Char × Value) → Prop
  | [] => True
  | (_, v) :: ms => v.OrderedBy ∧ OrderedMembers ms

end

section names

variable {r} {k l : List Char} {v w : Value} {ms ns : List (List Char × Value)}

theorem lastMember?_eq_none_iff : lastMember? k ms = none ↔ k ∉ ms.map Prod.fst := by
  induction ms with
  | nil => simp [lastMember?]
  | cons m ms ih =>
    obtain ⟨l, v⟩ := m
    rw [lastMember?, List.map_cons, List.mem_cons, not_or, ← ih]
    by_cases hlk : l = k
    · cases lastMember? k ms <;> simp [hlk]
    · cases lastMember? k ms <;> simp [hlk, Ne.symm hlk]

theorem lastMember?_head (hk : k ∉ ms.map Prod.fst) : lastMember? k ((k, v) :: ms) = some v := by
  rw [lastMember?, lastMember?_eq_none_iff.2 hk]
  simp

theorem lastMember?_tail (h : k ≠ l) : lastMember? l ((k, v) :: ms) = lastMember? l ms := by
  rw [lastMember?, if_neg h]
  cases lastMember? l ms <;> rfl

theorem contents_eq (h : canonicalMembers ms = canonicalMembers ns) (k : List Char) :
    (lastMember? k ms).map Value.canonical = (lastMember? k ns).map Value.canonical := by
  rw [← entryOf_canonicalMembers, ← entryOf_canonicalMembers, h]

theorem names_eq (h : canonicalMembers ms = canonicalMembers ns) (k : List Char) :
    k ∈ ms.map Prod.fst ↔ k ∈ ns.map Prod.fst := by
  have hcontents := contents_eq h k
  have hnone := congrArg Option.isNone hcontents
  rw [Option.isNone_map, Option.isNone_map] at hnone
  have hiff : lastMember? k ms = none ↔ lastMember? k ns = none := by
    rw [← Option.isNone_iff_eq_none, ← Option.isNone_iff_eq_none, hnone]
  rw [lastMember?_eq_none_iff, lastMember?_eq_none_iff] at hiff
  exact not_iff_not.1 hiff

/-- Of two lists along `r` with the same names the first names are the same. -/
theorem head_name_eq (hr : ∀ k l, r k l → ¬r l k)
    (hms : (((k, v) :: ms).map Prod.fst).Pairwise r)
    (hns : (((l, w) :: ns).map Prod.fst).Pairwise r)
    (h : canonicalMembers ((k, v) :: ms) = canonicalMembers ((l, w) :: ns)) : k = l := by
  have hk := (names_eq h k).1 List.mem_cons_self
  have hl := (names_eq h l).2 List.mem_cons_self
  rcases List.mem_cons.1 hk with heq | hk
  · exact heq
  · rcases List.mem_cons.1 hl with heq | hl
    · exact heq.symm
    · have hkl := (List.pairwise_cons.1 hms).1 l hl
      have hlk := (List.pairwise_cons.1 hns).1 k hk
      exact absurd hlk (hr k l hkl)

theorem tail_contents (hk : k ∉ ms.map Prod.fst) (hk' : k ∉ ns.map Prod.fst)
    (h : canonicalMembers ((k, v) :: ms) = canonicalMembers ((k, w) :: ns)) :
    canonicalMembers ms = canonicalMembers ns := by
  apply canonicalMembers_eq
  intro l
  by_cases hl : k = l
  · rw [← hl, lastMember?_eq_none_iff.2 hk, lastMember?_eq_none_iff.2 hk']
  · have hboth := contents_eq h l
    rwa [lastMember?_tail hl, lastMember?_tail hl] at hboth

end names

section values

variable {r}

mutual

/-- Values along one order of names are the same when their contents are. -/
theorem eq_of_canonical (hr : ∀ k l, r k l → ¬r l k) : ∀ {v w : Value}, v.OrderedBy r →
    w.OrderedBy r → v.canonical = w.canonical → v = w
  | .null, w, _, _, h => by cases w <;> cases h; rfl
  | .bool _, w, _, _, h => by cases w <;> cases h; rfl
  | .number _, w, _, _, h => by cases w <;> cases h; rfl
  | .string _, w, _, _, h => by cases w <;> cases h; rfl
  | .array vs, w, hv, hw, h => by
    cases w with
    | array ws => rw [eq_of_canonicalItems hr hv hw (Value.array.inj h)]
    | _ => cases h
  | .object ms, w, hv, hw, h => by
    cases w with
    | object ns => rw [eq_of_canonicalMembers hr hv.1 hw.1 hv.2 hw.2 (Value.object.inj h)]
    | _ => cases h

theorem eq_of_canonicalItems (hr : ∀ k l, r k l → ¬r l k) : ∀ {vs ws : List Value},
    OrderedItems r vs → OrderedItems r ws → canonicalItems vs = canonicalItems ws → vs = ws
  | [], [], _, _, _ => rfl
  | [], _ :: _, _, _, h => by cases h
  | _ :: _, [], _, _, h => by cases h
  | v :: vs, w :: ws, hvs, hws, h => by
    obtain ⟨hhead, htail⟩ := List.cons.inj h
    rw [eq_of_canonical hr hvs.1 hws.1 hhead, eq_of_canonicalItems hr hvs.2 hws.2 htail]

theorem eq_of_canonicalMembers (hr : ∀ k l, r k l → ¬r l k) : ∀ {ms ns : List (List Char × Value)},
    (ms.map Prod.fst).Pairwise r → (ns.map Prod.fst).Pairwise r → OrderedMembers r ms →
      OrderedMembers r ns → canonicalMembers ms = canonicalMembers ns → ms = ns
  | [], [], _, _, _, _, _ => rfl
  | [], (l, _) :: _, _, _, _, _, h =>
    absurd ((names_eq h l).2 List.mem_cons_self) List.not_mem_nil
  | (k, _) :: _, [], _, _, _, _, h =>
    absurd ((names_eq h k).1 List.mem_cons_self) List.not_mem_nil
  | (k, v) :: ms, (l, w) :: ns, hms, hns, hv, hw, h => by
    obtain rfl := head_name_eq hr hms hns h
    have hfresh {os : List (List Char × Value)} {u : Value}
        (hos : (((k, u) :: os).map Prod.fst).Pairwise r) : k ∉ os.map Prod.fst := by
      intro hmem
      have hself := (List.pairwise_cons.1 hos).1 k hmem
      exact hr k k hself hself
    have hhead := contents_eq h k
    rw [lastMember?_head (hfresh hms), lastMember?_head (hfresh hns)] at hhead
    rw [eq_of_canonical hr hv.1 hw.1 (Option.some.inj hhead),
      eq_of_canonicalMembers hr (List.pairwise_cons.1 hms).2 (List.pairwise_cons.1 hns).2 hv.2 hw.2
        (tail_contents (hfresh hms) (hfresh hns) h)]

end

end values

end Nssf.Base.JsonText
