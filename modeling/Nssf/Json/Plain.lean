import Nssf.Base.MemberOrder
import Nssf.Json.Comparing

/-! Trees that are determined by what they print as. An infinite number prints as `null`, and the
two zeros are printed with one value; a tree without them that keeps one order of the names is
known from the content of its text. -/

namespace Nssf.Json

open Base JsonText

def PlainNumber (d : Binary64) : Prop := d.isInf = false ∧ (d.mag.val = 0 → d.neg = false)

mutual

/-- No number in it is infinite or a negative zero. -/
def Plain : Json → Prop
  | .number d => PlainNumber d
  | .array xs => PlainItems xs
  | .object ms => PlainMembers ms
  | _ => True

def PlainItems : List Json → Prop
  | [] => True
  | x :: xs => Plain x ∧ PlainItems xs

def PlainMembers : List (String × Json) → Prop
  | [] => True
  | (_, x) :: ms => Plain x ∧ PlainMembers ms

end

section numbers

theorem ofNumeral_zero {n : Numeral} (h : n.digits = 0) :
    (Binary64.ofNumeral n).mag.val = 0 := by
  rw [Binary64.ofNumeral, Binary64.ofDecimal, if_pos (Or.inl h)]
  exact Nat.zero_min _

/-- The sign of a plain number is that of its value. -/
theorem neg_of_plain {n : Numeral} (h : PlainNumber (Binary64.ofNumeral n)) :
    n.neg = decide (n.value < 0) := by
  have hneg : (Binary64.ofNumeral n).neg = n.neg := Binary64.ofDecimal_neg _ _ _
  have hten : (0 : ℚ) < 10 ^ n.exponent := zpow_pos (by norm_num) _
  cases hsign : n.neg with
  | false =>
    symm
    rw [decide_eq_false_iff_not, not_lt, Numeral.value, hsign]
    simp only [Bool.false_eq_true, if_false, one_mul]
    exact mul_nonneg (Nat.cast_nonneg _) hten.le
  | true =>
    symm
    rw [decide_eq_true_eq, Numeral.value, hsign]
    have hdigits : n.digits ≠ 0 := by
      intro hzero
      have hplus := h.2 (ofNumeral_zero hzero)
      rw [hneg, hsign] at hplus
      cases hplus
    have hpos : (0 : ℚ) < n.digits := Nat.cast_pos.2 (Nat.pos_of_ne_zero hdigits)
    have hprod := mul_pos hpos hten
    simp only [if_true, neg_mul, one_mul]
    linarith

theorem eq_of_decimalOf {d e : Binary64} (hd : PlainNumber d) (he : PlainNumber e)
    (h : decimalOf d = decimalOf e) : d = e := by
  obtain ⟨n, hn, rfl⟩ := printNumber_numeral hd.1
  obtain ⟨m, hm, rfl⟩ := printNumber_numeral he.1
  rw [decimalOf_numeral hn, decimalOf_numeral hm] at h
  apply Binary64.ofNumeral_congr _ h
  rw [neg_of_plain hd, neg_of_plain he, h]

end numbers

section trees

mutual

theorem eq_of_value : ∀ {a b : Json}, Plain a → Plain b → value a = value b → a = b
  | .null, b, _, hb, h => by
    cases b with
    | null => rfl
    | number d =>
      rw [value, value, hb.1] at h
      cases h
    | _ => cases h
  | .bool _, b, _, hb, h => by
    cases b with
    | bool _ =>
      cases h
      rfl
    | number d =>
      rw [value, value, hb.1] at h
      cases h
    | _ => cases h
  | .number d, b, ha, hb, h => by
    rw [value, ha.1] at h
    cases b with
    | number e =>
      rw [value, hb.1] at h
      rw [eq_of_decimalOf ha hb (Value.number.inj h)]
    | _ => cases h
  | .string s, b, _, hb, h => by
    cases b with
    | string t => rw [String.toList_injective (Value.string.inj h)]
    | number d =>
      rw [value, value, hb.1] at h
      cases h
    | _ => cases h
  | .array xs, b, ha, hb, h => by
    cases b with
    | array ys => rw [eq_of_itemValues ha hb (Value.array.inj h)]
    | number d =>
      rw [value, value, hb.1] at h
      cases h
    | _ => cases h
  | .object ms, b, ha, hb, h => by
    cases b with
    | object ns => rw [eq_of_memberValues ha hb (Value.object.inj h)]
    | number d =>
      rw [value, value, hb.1] at h
      cases h
    | _ => cases h

theorem eq_of_itemValues : ∀ {xs ys : List Json}, PlainItems xs → PlainItems ys →
    itemValues xs = itemValues ys → xs = ys
  | [], [], _, _, _ => rfl
  | [], _ :: _, _, _, h => by cases h
  | _ :: _, [], _, _, h => by cases h
  | _ :: _, _ :: _, hx, hy, h => by
    obtain ⟨hhead, htail⟩ := List.cons.inj h
    rw [eq_of_value hx.1 hy.1 hhead, eq_of_itemValues hx.2 hy.2 htail]

theorem eq_of_memberValues : ∀ {ms ns : List (String × Json)}, PlainMembers ms →
    PlainMembers ns → memberValues ms = memberValues ns → ms = ns
  | [], [], _, _, _ => rfl
  | [], (_, _) :: _, _, _, h => by cases h
  | (_, _) :: _, [], _, _, h => by cases h
  | (_, _) :: _, (_, _) :: _, hm, hn, h => by
    obtain ⟨hhead, htail⟩ := List.cons.inj h
    obtain ⟨hname, hvalue⟩ := Prod.mk.inj hhead
    rw [String.toList_injective hname, eq_of_value hm.1 hn.1 hvalue,
      eq_of_memberValues hm.2 hn.2 htail]

end

end trees

end Nssf.Json
