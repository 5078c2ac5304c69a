import Mathlib.Algebra.Order.Field.Basic
import Mathlib.Tactic.FieldSimp
import Mathlib.Tactic.Ring
import Nssf.Base.JsonText

/-! Numerals and doubles. What a numeral reads as depends on its sign and its value only, and
the general format spells the decimal it is given exactly. -/

namespace Nssf.Base.Binary64

open JsonText

section reading

theorem roundDiv_mul (num den : ℕ) {c : ℕ} (hc : 0 < c) :
    roundDiv (num * c) (den * c) = roundDiv num den := by
  have hquot : num * c / (den * c) = num / den := Nat.mul_div_mul_right num den hc
  have hrem : num * c % (den * c) = num % den * c := Nat.mul_mod_mul_right c num den
  have hlow : 2 * (num % den * c) < den * c ↔ 2 * (num % den) < den := by
    rw [← Nat.mul_assoc]
    exact Nat.mul_lt_mul_right hc
  have hhigh : den * c < 2 * (num % den * c) ↔ den < 2 * (num % den) := by
    rw [← Nat.mul_assoc]
    exact Nat.mul_lt_mul_right hc
  simp only [roundDiv, hquot, hrem, hlow, hhigh]

theorem roundMag_mul (num den : ℕ) {c : ℕ} (hc : 0 < c) :
    roundMag (num * c) (den * c) = roundMag num den := by
  have hscaled : num * c * 2 ^ 1074 = num * 2 ^ 1074 * c := by ring
  have hquot : num * 2 ^ 1074 * c / (den * c) = num * 2 ^ 1074 / den :=
    Nat.mul_div_mul_right _ _ hc
  have hden (k : ℕ) : den * c * 2 ^ k = den * 2 ^ k * c := by ring
  simp only [roundMag, hscaled, hquot, hden, roundDiv_mul _ _ hc]

theorem length_toDigits_mul_ten {n : ℕ} (h : 0 < n) :
    (Nat.toDigits 10 (n * 10)).length = (Nat.toDigits 10 n).length + 1 := by
  have hdigits := Nat.toDigits_append_toDigits (b := 10) (by decide) h (Nat.zero_lt_succ 9)
  have hten : 10 * n + 0 = n * 10 := by omega
  rw [← hten, ← hdigits, List.length_append, Nat.toDigits_zero]
  rfl

theorem length_toDigits_shift {n : ℕ} (h : 0 < n) (j : ℕ) :
    (Nat.toDigits 10 (n * 10 ^ j)).length = (Nat.toDigits 10 n).length + j := by
  induction j with
  | zero => rw [pow_zero, Nat.mul_one, Nat.add_zero]
  | succ j ih =>
    rw [pow_succ, ← Nat.mul_assoc, length_toDigits_mul_ten (by positivity), ih, Nat.add_assoc]

/-- Zeros may be moved from the exponent into the digits. -/
theorem ofDecimal_shift (neg : Bool) (digits : ℕ) (e : ℤ) (j : ℕ) :
    ofDecimal neg (digits * 10 ^ j) (e - j) = ofDecimal neg digits e := by
  rcases Nat.eq_zero_or_pos digits with rfl | hpos
  · simp [ofDecimal]
  have hne : digits * 10 ^ j ≠ 0 := by positivity
  have hlen : ((Nat.toDigits 10 (digits * 10 ^ j)).length : ℤ) + (e - j) =
      (Nat.toDigits 10 digits).length + e := by
    rw [length_toDigits_shift hpos]
    push_cast
    ring
  have hpow : 0 < 10 ^ j := by positivity
  simp only [ofDecimal, hlen, hne, hpos.ne', false_or]
  split_ifs with hsmall hlarge hshift hexp hexp
  · rfl
  · rfl
  · have hsplit : digits * 10 ^ j * 10 ^ (e - j).toNat = digits * 10 ^ e.toNat := by
      have hsum : e.toNat = j + (e - j).toNat := by omega
      rw [hsum, pow_add, Nat.mul_assoc]
    rw [hsplit]
  · omega
  · have hsum : j = e.toNat + (-(e - j)).toNat := by omega
    have hone : roundMag (digits * 10 ^ e.toNat) 1 =
        roundMag (digits * 10 ^ e.toNat * 10 ^ (-(e - j)).toNat) (1 * 10 ^ (-(e - j)).toNat) :=
      (roundMag_mul _ _ (by positivity)).symm
    rw [hone, Nat.one_mul, Nat.mul_assoc, ← pow_add, ← hsum]
  · have hsum : (-(e - j)).toNat = (-e).toNat + j := by omega
    rw [hsum, pow_add, roundMag_mul _ _ hpow]

theorem ofDecimal_congr (neg : Bool) {digits digits' : ℕ} {e e' : ℤ}
    (h : (digits : ℚ) * 10 ^ e = digits' * 10 ^ e') :
    ofDecimal neg digits e = ofDecimal neg digits' e' := by
  wlog hle : e ≤ e' generalizing digits digits' e e'
  · exact (this h.symm (by omega)).symm
  obtain ⟨j, rfl⟩ : ∃ j : ℕ, e = e' - j := ⟨(e' - e).toNat, by omega⟩
  have hdigits : digits = digits' * 10 ^ j := by
    have hten : (10 : ℚ) ≠ 0 := by norm_num
    rw [zpow_sub₀ hten, zpow_natCast, mul_div_assoc', div_eq_iff (by positivity),
      mul_right_comm] at h
    have hcancel := mul_right_cancel₀ (zpow_ne_zero e' hten) h
    exact_mod_cast hcancel
  rw [hdigits, ofDecimal_shift]

theorem ofDecimal_neg (neg : Bool) (digits : ℕ) (e : ℤ) : (ofDecimal neg digits e).neg = neg := by
  simp only [ofDecimal]
  split_ifs <;> rfl

end reading

/-- The double that a numeral reads as. -/
def ofNumeral (n : Numeral) : Binary64 := ofDecimal n.neg n.digits n.exponent

theorem strtod_text (n : Numeral) : strtod n.text = some (ofNumeral n, []) := by
  rw [strtod, scanDecimal_text]
  rfl

/-- Two numerals of one sign and one value read as one double. -/
theorem ofNumeral_congr {n m : Numeral} (hneg : n.neg = m.neg) (hvalue : n.value = m.value) :
    ofNumeral n = ofNumeral m := by
  have hsign : (if m.neg = true then -1 else 1 : ℚ) ≠ 0 := by
    split_ifs <;> norm_num
  simp only [Numeral.value, hneg, mul_assoc] at hvalue
  rw [ofNumeral, ofNumeral, hneg]
  exact ofDecimal_congr _ (mul_left_cancel₀ hsign hvalue)

section writing

theorem isDigit_toDigits (n : ℕ) : ∀ c ∈ Nat.toDigits 10 n, isDigit c = true := by
  intro c hc
  have h := Nat.isDigit_of_mem_toDigits (by decide) (by decide) hc
  simp only [Char.isDigit, Bool.and_eq_true, decide_eq_true_eq] at h
  simp only [isDigit, Bool.and_eq_true, decide_eq_true_eq]
  exact h

theorem toDigits_head_ne {n : ℕ} (h : 0 < n) : (Nat.toDigits 10 n).head? ≠ some '0' := by
  induction n using Nat.strong_induction_on with
  | _ n ih =>
    rw [Nat.toDigits_eq_if (by decide)]
    split_ifs with hsmall
    · have hall : ∀ k < 10, 0 < k → [Nat.digitChar k].head? ≠ some '0' := by decide
      exact hall n hsmall h
    · have hquot : 0 < n / 10 := Nat.div_pos (by omega) (by decide)
      rw [List.head?_append_of_ne_nil _ Nat.toDigits_ne_nil]
      exact ih (n / 10) (by omega) hquot

/-- The digits of a number as a whole part. -/
theorem toDigits_leading (n : ℕ) :
    (Nat.toDigits 10 n).head? = some '0' → Nat.toDigits 10 n = ['0'] := by
  intro h
  rcases Nat.eq_zero_or_pos n with rfl | hpos
  · exact Nat.toDigits_zero 10
  · exact absurd h (toDigits_head_ne hpos)

theorem digitsVal_foldl (ds : List Char) (n : ℕ) :
    ds.foldl (fun n c => 10 * n + (c.toNat - '0'.toNat)) n = n * 10 ^ ds.length + digitsVal ds := by
  induction ds generalizing n with
  | nil => simp [digitsVal]
  | cons c ds ih =>
    have hdigit : digitsVal (c :: ds) =
        (10 * 0 + (c.toNat - '0'.toNat)) * 10 ^ ds.length + digitsVal ds := ih _
    rw [List.foldl_cons, ih, hdigit, List.length_cons, pow_succ]
    ring

theorem digitsVal_append (ds es : List Char) :
    digitsVal (ds ++ es) = digitsVal ds * 10 ^ es.length + digitsVal es := by
  rw [digitsVal, List.foldl_append, digitsVal_foldl]
  rfl

theorem digitsVal_digitChar : ∀ k < 10, digitsVal [Nat.digitChar k] = k := by decide

theorem digitsVal_toDigits (n : ℕ) : digitsVal (Nat.toDigits 10 n) = n := by
  induction n using Nat.strong_induction_on with
  | _ n ih =>
    rw [Nat.toDigits_eq_if (by decide)]
    split_ifs with hsmall
    · exact digitsVal_digitChar n hsmall
    · rw [digitsVal_append, ih (n / 10) (by omega),
        digitsVal_digitChar _ (Nat.mod_lt _ (by decide)), List.length_singleton]
      omega

theorem digitsVal_zeros (k : ℕ) (ds : List Char) :
    digitsVal (List.replicate k '0' ++ ds) = digitsVal ds := by
  induction k with
  | zero => rfl
  | succ k ih => exact ih

/-- What `stripZeros` takes away. -/
theorem exists_stripZeros (cs : List Char) :
    ∃ k, cs = stripZeros cs ++ List.replicate k '0' := by
  have hsplit := List.takeWhile_append_dropWhile (p := (· == '0')) (l := cs.reverse)
  have hzeros : ∀ c ∈ cs.reverse.takeWhile (· == '0'), c = '0' := by
    intro c hc
    have h := List.all_takeWhile (p := (· == '0')) (l := cs.reverse)
    exact eq_of_beq (List.all_eq_true.1 h c hc)
  have hreplicate := List.eq_replicate_of_mem hzeros
  refine ⟨(cs.reverse.takeWhile (· == '0')).length, ?_⟩
  rw [← List.reverse_replicate, ← hreplicate, stripZeros, ← List.reverse_append, hsplit,
    List.reverse_reverse]

/-- Trailing zeros of a fraction do not count. -/
theorem digitsVal_stripZeros (whole frac : List Char) (e : ℤ) :
    (digitsVal (whole ++ stripZeros frac) : ℚ) * 10 ^ (e - (stripZeros frac).length) =
      digitsVal (whole ++ frac) * 10 ^ (e - frac.length) := by
  obtain ⟨k, hk⟩ := exists_stripZeros frac
  generalize stripZeros frac = kept at hk
  have hzeros : digitsVal (List.replicate k '0') = 0 := by
    have h := digitsVal_zeros k []
    rwa [List.append_nil] at h
  have hexp : e - kept.length = (e - frac.length) + k := by
    rw [hk, List.length_append, List.length_replicate]
    push_cast
    ring
  have hval : digitsVal (whole ++ frac) = digitsVal (whole ++ kept) * 10 ^ k := by
    rw [hk, ← List.append_assoc, digitsVal_append _ (List.replicate k '0'), hzeros,
      List.length_replicate, Nat.add_zero]
  rw [hval, hexp, zpow_add₀ (by norm_num), zpow_natCast]
  push_cast
  ring

theorem isDigit_stripZeros {cs : List Char} (h : ∀ c ∈ cs, isDigit c = true) :
    ∀ c ∈ stripZeros cs, isDigit c = true := by
  intro c hc
  simp only [stripZeros, List.mem_reverse] at hc
  exact h c (List.mem_reverse.1 (List.dropWhile_sublist _ |>.subset hc))

/-- A text that is the unsigned part of a numeral of a value. -/
def Spells (cs : List Char) (q : ℚ) : Prop :=
  ∀ neg, ∃ n : Numeral, n.neg = neg ∧ n.unsignedText = cs ∧ (n.digits : ℚ) * 10 ^ n.exponent = q

theorem spells_zero : Spells ['0'] 0 := fun neg =>
  ⟨⟨neg, ⟨['0'], by simp [isDigit], by simp⟩, fun _ => rfl, none, none⟩, rfl, rfl, by
    simp [Numeral.digits, Numeral.fracChars, digitsVal]⟩

theorem spells_withFraction {whole frac : List Char} (exp : Option Exponent)
    (hwhole : ∀ c ∈ whole, isDigit c = true) (hnonempty : whole ≠ [])
    (hleading : whole.head? = some '0' → whole = ['0'])
    (hfrac : ∀ c ∈ frac, isDigit c = true) :
    Spells (withFraction whole frac ++ exp.elim [] Exponent.text)
      (digitsVal (whole ++ frac) * 10 ^ (exp.elim 0 Exponent.value - frac.length)) := by
  intro neg
  simp only [withFraction]
  split_ifs with hempty
  · refine ⟨⟨neg, ⟨whole, hwhole, hnonempty⟩, hleading, none, exp⟩, rfl, rfl, ?_⟩
    rw [List.isEmpty_iff.1 hempty]
    rfl
  · have hne : frac ≠ [] := by
      rintro rfl
      exact hempty rfl
    refine ⟨⟨neg, ⟨whole, hwhole, hnonempty⟩, hleading, some ⟨frac, hfrac, hne⟩, exp⟩, rfl, ?_, rfl⟩
    simp [Numeral.unsignedText, Numeral.fracText, Numeral.expText]

theorem exponentChars_value (x : ℤ) :
    ∃ e : Exponent, 'e' :: exponentChars x = e.text ∧ e.value = x := by
  have hdigits : ∀ c ∈ '0' :: Nat.toDigits 10 x.natAbs, isDigit c = true := by
    intro c hc
    rcases List.mem_cons.1 hc with rfl | hc
    · rfl
    · exact isDigit_toDigits _ c hc
  let ds : Digits :=
    if (Nat.toDigits 10 x.natAbs).length < 2 then ⟨'0' :: Nat.toDigits 10 x.natAbs, hdigits, by simp⟩
    else ⟨Nat.toDigits 10 x.natAbs, isDigit_toDigits _, Nat.toDigits_ne_nil⟩
  have hval : digitsVal ds.chars = x.natAbs := by
    have hpad := digitsVal_zeros 1 (Nat.toDigits 10 x.natAbs)
    simp only [ds]
    split_ifs
    · exact hpad.trans (digitsVal_toDigits _)
    · exact digitsVal_toDigits _
  refine ⟨⟨false, if x < 0 then .minus else .plus, ds⟩, ?_, ?_⟩
  · simp only [exponentChars, Exponent.text, ds, Bool.false_eq_true, if_false]
    split_ifs <;> rfl
  · simp only [Exponent.value, hval]
    rcases lt_or_ge x 0 with hneg | hnonneg
    · rw [if_pos hneg, if_pos rfl]
      omega
    · rw [if_neg hnonneg.not_gt, if_neg (by decide)]
      omega

/-- With `p` digits the general format spells its decimal exactly. -/
theorem spells_generalDigits (p n : ℕ) : ∃ q, Spells (generalDigits p n) q ∧
    ((Nat.toDigits 10 (toDecimal p n).1).length = p →
      q = (toDecimal p n).1 * 10 ^ ((toDecimal p n).2 - p + 1)) := by
  -- opened as a function: at its arguments the kernel would compute the powers of ten
  generalize hg : generalDigits = g
  delta generalDigits at hg
  subst hg
  beta_reduce
  generalize toDecimal p n = decimal
  obtain ⟨d, x⟩ := decimal
  dsimp only
  have hdigits := isDigit_toDigits d
  have hval := digitsVal_toDigits d
  have htake (k : ℕ) : ∀ c ∈ (Nat.toDigits 10 d).take k, isDigit c = true :=
    fun c hc => hdigits c (List.mem_of_mem_take hc)
  have hdrop (k : ℕ) : ∀ c ∈ stripZeros ((Nat.toDigits 10 d).drop k), isDigit c = true :=
    isDigit_stripZeros fun c hc => hdigits c (List.mem_of_mem_drop hc)
  have hnonempty (k : ℕ) : (Nat.toDigits 10 d).take (k + 1) ≠ [] := by
    simp [Nat.toDigits_ne_nil]
  have hleading (k : ℕ) : ((Nat.toDigits 10 d).take (k + 1)).head? = some '0' →
      (Nat.toDigits 10 d).take (k + 1) = ['0'] := by
    intro h
    rw [List.head?_take, if_neg (Nat.succ_ne_zero k)] at h
    simp [toDigits_leading d h]
  have hsplit (k : ℕ) (e : ℤ) (hlen : (Nat.toDigits 10 d).length = p) (hk : k ≤ p) :
      (digitsVal ((Nat.toDigits 10 d).take k ++ stripZeros ((Nat.toDigits 10 d).drop k)) : ℚ) *
          10 ^ (e - (stripZeros ((Nat.toDigits 10 d).drop k)).length) =
        d * 10 ^ (e - (p - k)) := by
    rw [digitsVal_stripZeros, List.take_append_drop, hval, List.length_drop, hlen,
      Nat.cast_sub hk]
  split_ifs with hfixed hpos
  · have h := spells_withFraction none (htake (x.toNat + 1)) (hnonempty _) (hleading _)
      (hdrop (x.toNat + 1))
    rw [Option.elim_none, List.append_nil] at h
    refine ⟨_, h, fun hlen => ?_⟩
    rw [Option.elim_none, hsplit _ 0 hlen (by omega)]
    congr 2
    omega
  · have hzeros : ∀ c ∈ stripZeros (List.replicate ((-x).toNat - 1) '0' ++ Nat.toDigits 10 d),
        isDigit c = true := by
      apply isDigit_stripZeros
      intro c hc
      rcases List.mem_append.1 hc with hc | hc
      · rw [List.eq_of_mem_replicate hc]
        rfl
      · exact hdigits c hc
    have h := spells_withFraction none (by simp [isDigit]) (List.cons_ne_nil '0' [])
      (fun _ => rfl) hzeros
    rw [Option.elim_none, List.append_nil] at h
    refine ⟨_, h, fun hlen => ?_⟩
    have hzero : digitsVal (['0'] ++ (List.replicate ((-x).toNat - 1) '0' ++ Nat.toDigits 10 d)) =
        digitsVal (List.replicate ((-x).toNat - 1) '0' ++ Nat.toDigits 10 d) := digitsVal_zeros 1 _
    rw [Option.elim_none, digitsVal_stripZeros, hzero.trans ((digitsVal_zeros _ _).trans hval),
      List.length_append, List.length_replicate, hlen]
    congr 2
    omega
  · obtain ⟨e, he, hvalue⟩ := exponentChars_value x
    rw [he]
    refine ⟨_, spells_withFraction (some e) (htake 1) (hnonempty 0) (hleading 0) (hdrop 1),
      fun hlen => ?_⟩
    have hpos : 0 < (Nat.toDigits 10 d).length := Nat.length_toDigits_pos
    rw [Option.elim_some, hsplit 1 _ hlen (by omega), hvalue]
    congr 2
    push_cast
    ring

end writing

end Nssf.Base.Binary64
