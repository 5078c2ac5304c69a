import Mathlib.Tactic.Linarith
import Mathlib.Tactic.Positivity
import Nssf.Base.Numerals

/-! Seventeen significant digits determine a double: what it prints as reads back as the same
double. The decimal is at most half a unit of its last place away, which is less than a part in
`2 ^ 54` of the double, and no other double is as near. -/

namespace Nssf.Base.Binary64

open JsonText

section rounding

theorem abs_roundDiv_sub_le (num : ℕ) {den : ℕ} (hden : 0 < den) :
    |(roundDiv num den : ℚ) - num / den| ≤ 1 / 2 := by
  have hpos : (0 : ℚ) < den := by exact_mod_cast hden
  have hdiv : ((den * (num / den) + num % den : ℕ) : ℚ) = num :=
    congrArg Nat.cast (Nat.div_add_mod num den)
  have hrem : ((num % den : ℕ) : ℚ) < den := by exact_mod_cast Nat.mod_lt num hden
  have hrem0 : (0 : ℚ) ≤ (num % den : ℕ) := Nat.cast_nonneg _
  simp only [roundDiv]
  generalize num / den = a at hdiv ⊢
  generalize num % den = r at hdiv hrem hrem0 ⊢
  push_cast at hdiv
  have hquot : (num : ℚ) / den = a + r / den := by
    rw [← hdiv]
    field_simp
  have hr0 : (0 : ℚ) ≤ r / den := by positivity
  have hr1 : (r : ℚ) / den ≤ 1 := (div_le_one hpos).2 hrem.le
  rw [hquot, abs_le]
  split_ifs with hlow hhigh
  · have hhalf : (r : ℚ) / den ≤ 1 / 2 := by
      have h : (2 * r : ℚ) < den := by exact_mod_cast hlow
      rw [div_le_iff₀ hpos]
      linarith
    constructor <;> linarith
  · have hhalf : 1 / 2 ≤ (r : ℚ) / den := by
      have h : (den : ℚ) < 2 * r := by exact_mod_cast hhigh
      rw [le_div_iff₀ hpos]
      linarith
    push_cast
    constructor <;> linarith
  · have hhalf : (r : ℚ) / den = 1 / 2 := by
      have h : (den : ℚ) = 2 * r := by exact_mod_cast (by omega : den = 2 * r)
      rw [div_eq_iff hpos.ne']
      linarith
    have hparity : ((a % 2 : ℕ) : ℚ) = 0 ∨ ((a % 2 : ℕ) : ℚ) = 1 := by
      rcases Nat.mod_two_eq_zero_or_one a with h | h
      · simp [h]
      · simp [h]
    push_cast at hparity ⊢
    rcases hparity with h | h <;> rw [h] <;> constructor <;> linarith

/-- Only one integer is nearer than a half. -/
theorem roundDiv_eq {num den q : ℕ} (hlow : 2 * (q * den) < 2 * num + den)
    (hhigh : 2 * num < 2 * (q * den) + den) : roundDiv num den = q := by
  have hden : 0 < den := by omega
  have hpos : (0 : ℚ) < den := by exact_mod_cast hden
  have hround := abs_le.1 (abs_roundDiv_sub_le num hden)
  have hbelow : (q : ℚ) - 1 / 2 < num / den := by
    have h : (2 * (q * den) : ℚ) < 2 * num + den := by exact_mod_cast hlow
    rw [lt_div_iff₀ hpos]
    linarith
  have habove : (num : ℚ) / den < q + 1 / 2 := by
    have h : (2 * num : ℚ) < 2 * (q * den) + den := by exact_mod_cast hhigh
    rw [div_lt_iff₀ hpos]
    linarith
  have hlt : (roundDiv num den : ℚ) < q + 1 := by linarith
  have hgt : (q : ℚ) < roundDiv num den + 1 := by linarith
  have hlt' : roundDiv num den < q + 1 := by exact_mod_cast hlt
  have hgt' : q < roundDiv num den + 1 := by exact_mod_cast hgt
  omega

theorem mag_eq (m : ℕ) : exponent m * 2 ^ 52 + significand m = m := by
  simp only [significand, exponent]
  omega

/-- The rounding of `roundMag`, of a quotient near `s * 2 ^ k`. Below the least significand
the quotient may fall into the binade below, where it rounds up to its end. -/
theorem round_scaled {n den s k : ℕ} (hden : 0 < den) (hs0 : 0 < s) (hs : s < 2 ^ 53)
    (hnormal : 0 < k → 2 ^ 52 ≤ s)
    (hlow : (2 ^ 54 - 1) * (s * 2 ^ k * den) < 2 ^ 54 * n)
    (hhigh : 2 ^ 54 * n < (2 ^ 54 + 1) * (s * 2 ^ k * den)) :
    (Nat.log2 (n / den) - 52) * 2 ^ 52 +
      roundDiv n (den * 2 ^ (Nat.log2 (n / den) - 52)) = k * 2 ^ 52 + s := by
  have hunit : 0 < 2 ^ k * den := by positivity
  have hassoc : s * 2 ^ k * den = s * (2 ^ k * den) := Nat.mul_assoc s _ den
  have hscale : s * (2 ^ k * den) ≤ (2 ^ 53 - 1) * (2 ^ k * den) :=
    Nat.mul_le_mul_right _ (by omega)
  rw [hassoc] at hlow hhigh
  have hupper : n / den < 2 ^ (53 + k) := by
    rw [Nat.div_lt_iff_lt_mul hden, pow_add, Nat.mul_assoc]
    omega
  have hlog : n / den ≠ 0 → Nat.log2 (n / den) < 53 + k := fun h => (Nat.log2_lt h).2 hupper
  by_cases hbinade : k = 0 ∨ 2 ^ (52 + k) ≤ n / den
  · have hexp : Nat.log2 (n / den) - 52 = k := by
      by_cases hzero : n / den = 0
      · rw [hzero, Nat.log2_zero]
        rcases hbinade with rfl | hge
        · rfl
        · have hpow : 0 < 2 ^ (52 + k) := by positivity
          omega
      have hlt := hlog hzero
      rcases hbinade with rfl | hge
      · omega
      · have hle := (Nat.le_log2 hzero).2 hge
        omega
    rw [hexp, Nat.mul_comm den]
    congr 1
    apply roundDiv_eq
    · omega
    · omega
  · rw [not_or, not_le] at hbinade
    obtain ⟨hk, hbelow⟩ := hbinade
    obtain ⟨j, rfl⟩ := Nat.exists_eq_add_one_of_ne_zero hk
    have hsplit (i : ℕ) : 2 ^ (i + (j + 1)) * den = 2 ^ i * (2 ^ (j + 1) * den) := by
      rw [pow_add, Nat.mul_assoc]
    rw [Nat.div_lt_iff_lt_mul hden, hsplit] at hbelow
    have hleast : s = 2 ^ 52 := by
      have hge := hnormal (Nat.succ_pos j)
      by_contra hne
      have hmore : (2 ^ 52 + 1) * (2 ^ (j + 1) * den) ≤ s * (2 ^ (j + 1) * den) :=
        Nat.mul_le_mul_right _ (by omega)
      omega
    subst hleast
    have hge : 2 ^ (51 + (j + 1)) ≤ n / den := by
      rw [Nat.le_div_iff_mul_le hden, hsplit]
      omega
    have hzero : n / den ≠ 0 := by
      have hpow : 0 < 2 ^ (51 + (j + 1)) := by positivity
      omega
    have hexp : Nat.log2 (n / den) - 52 = j := by
      have hlt : Nat.log2 (n / den) < 52 + (j + 1) := by
        rw [Nat.log2_lt hzero, Nat.div_lt_iff_lt_mul hden, hsplit]
        exact hbelow
      have hle := (Nat.le_log2 hzero).2 hge
      omega
    have hhalf : 2 ^ (j + 1) * den = 2 * (den * 2 ^ j) := by
      rw [pow_succ]
      ring
    have hround : roundDiv n (den * 2 ^ j) = 2 ^ 53 := by
      rw [hhalf] at hlow hhigh
      apply roundDiv_eq
      · omega
      · omega
    rw [hexp, hround]
    ring

/-- A quotient nearer to a double than a part in `2 ^ 54` rounds to it. -/
theorem roundMag_eq {num den : ℕ} {x : Binary64} (hden : 0 < den) (hmag : 0 < x.mag.val)
    (hlow : (2 ^ 54 - 1) * (x.scaled * den) < 2 ^ 54 * (num * 2 ^ 1074))
    (hhigh : 2 ^ 54 * (num * 2 ^ 1074) < (2 ^ 54 + 1) * (x.scaled * den)) :
    roundMag num den = x.mag := by
  have hm := mag_eq x.mag
  have hmax := x.mag.isLt
  have hsig : significand x.mag < 2 ^ 53 := by
    simp only [significand, exponent]
    omega
  have hsig0 : 0 < significand x.mag := by
    simp only [significand, exponent]
    omega
  have hnormal : 0 < exponent x.mag → 2 ^ 52 ≤ significand x.mag := by
    simp only [significand, exponent]
    omega
  simp only [scaled] at hlow hhigh
  simp only [roundMag]
  generalize num * 2 ^ 1074 = n at hlow hhigh ⊢
  generalize significand x.mag = s at hlow hhigh hm hsig hsig0 hnormal
  generalize exponent x.mag = k at hlow hhigh hm hnormal ⊢
  have hround := round_scaled hden hsig0 hsig hnormal hlow hhigh
  apply Fin.ext
  rw [hround, hm, clampMag]
  exact min_eq_left (by omega)

end rounding

section digits

theorem scaled_lt (x : Binary64) : ∃ k ≤ 2046, x.scaled < 2 ^ (53 + k) := by
  have hmag := x.mag.isLt
  have hsignificand : significand x.mag < 2 ^ 53 := by
    simp only [significand, exponent]
    omega
  have hexponent : exponent x.mag ≤ 2046 := by
    simp only [exponent, infMag] at hmag ⊢
    omega
  refine ⟨exponent x.mag, hexponent, ?_⟩
  rw [pow_add]
  exact Nat.mul_lt_mul_of_pos_right hsignificand (by positivity)

theorem mul_pow_lt {n a t u v w : ℕ} (h : n < 2 ^ a) (ha : a ≤ 3 * u + v) (hw : t + u = w) :
    n * 10 ^ t < 10 ^ w * 2 ^ v := by
  calc n * 10 ^ t < 2 ^ a * 10 ^ t := Nat.mul_lt_mul_of_pos_right h (by positivity)
    _ ≤ 2 ^ (3 * u + v) * 10 ^ t :=
      Nat.mul_le_mul_right _ (Nat.pow_le_pow_right (by decide) ha)
    _ = 10 ^ t * 8 ^ u * 2 ^ v := by
      rw [pow_add, pow_mul]
      ring
    _ ≤ 10 ^ t * 10 ^ u * 2 ^ v :=
      Nat.mul_le_mul_right _ (Nat.mul_le_mul_left _ (Nat.pow_le_pow_left (by decide) u))
    _ = 10 ^ w * 2 ^ v := by rw [← pow_add, hw]

theorem length_toDigits_div_le {a c k : ℕ} (hc : 0 < c) (hk : 0 < k) (h : a < 10 ^ k * c) :
    (Nat.toDigits 10 (a / c)).length ≤ k := by
  rw [Nat.length_toDigits_le_iff (by decide) hk, Nat.div_lt_iff_lt_mul hc]
  exact h

theorem decimalExponent_ge (n : ℕ) : -324 ≤ decimalExponent n := by
  have hpos : 0 < (Nat.toDigits 10 (n * 10 ^ 324 / 2 ^ 1074)).length := Nat.length_toDigits_pos
  simp only [decimalExponent]
  omega

theorem decimalExponent_lt (x : Binary64) : decimalExponent x.scaled < 342 := by
  obtain ⟨k, hk, hlt⟩ := x.scaled_lt
  have hlarge := mul_pow_lt (t := 324) (u := 342) (v := 1074) hlt (by omega) rfl
  have hlen := length_toDigits_div_le (by positivity) (by decide) hlarge
  simp only [decimalExponent]
  omega

/-- The number of digits of a quotient is its order of magnitude. -/
theorem length_toDigits_div {a c : ℕ} (hc : 0 < c) (h : c ≤ a) :
    10 ^ ((Nat.toDigits 10 (a / c)).length - 1) * c ≤ a ∧
      a < 10 ^ (Nat.toDigits 10 (a / c)).length * c := by
  have hquot : 0 < a / c := Nat.div_pos h hc
  have hpos : 0 < (Nat.toDigits 10 (a / c)).length := Nat.length_toDigits_pos
  constructor
  · rw [← Nat.le_div_iff_mul_le hc]
    by_contra hlt
    rw [not_le] at hlt
    by_cases hone : (Nat.toDigits 10 (a / c)).length = 1
    · rw [hone] at hlt
      simp at hlt
      omega
    · have hle := (Nat.length_toDigits_le_iff (by decide) (by omega)).2 hlt
      omega
  · rw [← Nat.div_lt_iff_lt_mul hc, ← Nat.length_toDigits_le_iff (by decide) hpos]

theorem two_pow_le : 2 ^ 1074 ≤ 10 ^ 324 := by
  calc 2 ^ 1074 = (2 ^ 93) ^ 11 * 2 ^ 51 := by rw [← pow_mul, ← pow_add]
    _ ≤ (10 ^ 28) ^ 11 * 10 ^ 16 :=
      Nat.mul_le_mul (Nat.pow_le_pow_left (by norm_num) 11) (by norm_num)
    _ = 10 ^ 324 := by rw [← pow_mul, ← pow_add]

theorem zpow_decimalExponent {n : ℕ} (hn : 0 < n) :
    (10 : ℚ) ^ decimalExponent n ≤ n / (2 ^ 1074 : ℕ) ∧
      (n : ℚ) / (2 ^ 1074 : ℕ) < 10 ^ (decimalExponent n + 1) := by
  have hc : 0 < 2 ^ 1074 := by positivity
  have hle : 2 ^ 1074 ≤ n * 10 ^ 324 := two_pow_le.trans (Nat.le_mul_of_pos_left _ hn)
  obtain ⟨hlow, hhigh⟩ := length_toDigits_div hc hle
  have hpos : 0 < (Nat.toDigits 10 (n * 10 ^ 324 / 2 ^ 1074)).length := Nat.length_toDigits_pos
  simp only [decimalExponent]
  generalize 2 ^ 1074 = c at *
  generalize (Nat.toDigits 10 (n * 10 ^ 324 / c)).length = l at *
  have hc' : (0 : ℚ) < c := by exact_mod_cast hc
  have hten : (10 : ℚ) ≠ 0 := by norm_num
  have hlow' : (10 : ℚ) ^ (l - 1) * c ≤ n * 10 ^ 324 := by exact_mod_cast hlow
  have hhigh' : (n : ℚ) * 10 ^ 324 < 10 ^ l * c := by exact_mod_cast hhigh
  have hexp : (l : ℤ) - 325 = (l - 1 : ℕ) - (324 : ℕ) := by omega
  have hexp' : (l : ℤ) - 325 + 1 = l - (324 : ℕ) := by omega
  rw [hexp', hexp, zpow_sub₀ hten, zpow_sub₀ hten, zpow_natCast, zpow_natCast, zpow_natCast]
  have ht : (0 : ℚ) < 10 ^ 324 := by positivity
  generalize (10 : ℚ) ^ 324 = t at *
  rw [div_le_div_iff₀ ht hc', div_lt_div_iff₀ hc' ht]
  exact ⟨hlow', hhigh'⟩

/-- The digits of `toDecimal` before a carry, for `n` units of which `c` make one. -/
theorem abs_roundDigits_sub_le (n : ℕ) {c : ℕ} (hc : 0 < c) (e : ℤ) :
    |((if 0 ≤ e then roundDiv n (c * 10 ^ e.toNat) else roundDiv (n * 10 ^ (-e).toNat) c : ℕ) : ℚ)
      - n / c / 10 ^ e| ≤ 1 / 2 := by
  split_ifs with he
  · have h := abs_roundDiv_sub_le n (Nat.mul_pos hc (Nat.pow_pos (n := e.toNat) (by decide : 0 < 10)))
    have hpow : (10 : ℚ) ^ e = 10 ^ e.toNat := by
      rw [← zpow_natCast, Int.toNat_of_nonneg he]
    rw [hpow, div_div]
    push_cast at h
    exact h
  · have h := abs_roundDiv_sub_le (n * 10 ^ (-e).toNat) hc
    have hpow : (10 : ℚ) ^ (-e).toNat = (10 ^ e)⁻¹ := by
      rw [← zpow_natCast, Int.toNat_of_nonneg (by omega), zpow_neg]
    push_cast at h
    rw [hpow] at h
    rwa [div_div, mul_comm (c : ℚ), ← div_div, div_eq_mul_inv (n : ℚ)]

theorem toDecimal_round (p n : ℕ) : ∃ d : ℕ,
    |(d : ℚ) - n / (2 ^ 1074 : ℕ) / 10 ^ (decimalExponent n - p + 1)| ≤ 1 / 2 ∧
      toDecimal p n =
        if d = 10 ^ p then (10 ^ (p - 1), decimalExponent n + 1) else (d, decimalExponent n) :=
  ⟨_, abs_roundDigits_sub_le n (by positivity) _, rfl⟩

/-- The digits of a number to `p` places, at most half a place away. -/
theorem toDecimal_spec {n p : ℕ} (hn : 0 < n) (hp : 0 < p) :
    10 ^ (p - 1) ≤ (toDecimal p n).1 ∧ (toDecimal p n).1 < 10 ^ p ∧
      (decimalExponent n ≤ (toDecimal p n).2 ∧ (toDecimal p n).2 ≤ decimalExponent n + 1) ∧
      |((toDecimal p n).1 : ℚ) * 10 ^ ((toDecimal p n).2 - p + 1) - n / (2 ^ 1074 : ℕ)| ≤
        10 ^ (decimalExponent n - p + 1) / 2 := by
  obtain ⟨hlow, hhigh⟩ := zpow_decimalExponent hn
  obtain ⟨d, hround, heq⟩ := toDecimal_round p n
  rw [heq]
  generalize decimalExponent n = x at *
  generalize (n : ℚ) / (2 ^ 1074 : ℕ) = v at *
  have hten : (10 : ℚ) ≠ 0 := by norm_num
  have hplace : (0 : ℚ) < 10 ^ (x - p + 1) := zpow_pos (by norm_num) _
  have hleast : ((10 ^ (p - 1) : ℕ) : ℚ) ≤ v / 10 ^ (x - p + 1) := by
    have hexp : (10 : ℚ) ^ x = 10 ^ (p - 1) * 10 ^ (x - p + 1) := by
      rw [← zpow_natCast, ← zpow_add₀ hten]
      congr 1
      omega
    rw [le_div_iff₀ hplace]
    push_cast
    rwa [← hexp]
  have hmost : v / 10 ^ (x - p + 1) < ((10 ^ p : ℕ) : ℚ) := by
    have hexp : (10 : ℚ) ^ (x + 1) = 10 ^ p * 10 ^ (x - p + 1) := by
      rw [← zpow_natCast, ← zpow_add₀ hten]
      congr 1
      omega
    rw [div_lt_iff₀ hplace]
    push_cast
    rwa [← hexp]
  have hhalf := abs_le.1 hround
  have hlower : 10 ^ (p - 1) ≤ d := by
    have h : ((10 ^ (p - 1) : ℕ) : ℚ) < d + 1 := by linarith
    have h' : 10 ^ (p - 1) < d + 1 := by exact_mod_cast h
    omega
  have hupper : d ≤ 10 ^ p := by
    have h : (d : ℚ) < (10 ^ p : ℕ) + 1 := by linarith
    have h' : d < 10 ^ p + 1 := by exact_mod_cast h
    omega
  have herror : |(d : ℚ) * 10 ^ (x - p + 1) - v| ≤ 10 ^ (x - p + 1) / 2 := by
    have hfactor : (d : ℚ) * 10 ^ (x - p + 1) - v =
        (d - v / 10 ^ (x - p + 1)) * 10 ^ (x - p + 1) := by
      rw [sub_mul, div_mul_cancel₀ _ hplace.ne']
    rw [hfactor, abs_mul, abs_of_pos hplace]
    calc _ ≤ 1 / 2 * (10 : ℚ) ^ (x - p + 1) := mul_le_mul_of_nonneg_right hround hplace.le
      _ = _ := by ring
  split_ifs with hcarry
  · have hvalue : ((10 ^ (p - 1) : ℕ) : ℚ) * 10 ^ (x + 1 - p + 1) = d * 10 ^ (x - p + 1) := by
      have hexp : (10 : ℚ) ^ (x + 1 - p + 1) = 10 * 10 ^ (x - p + 1) := by
        rw [← zpow_one_add₀ hten]
        congr 1
        omega
      have hpow : (10 : ℚ) ^ p = 10 ^ (p - 1) * 10 := by
        rw [← pow_succ]
        congr 1
        omega
      rw [hexp, hcarry]
      push_cast
      rw [hpow]
      ring
    refine ⟨le_refl _, Nat.pow_lt_pow_right (by decide) (by omega), ⟨by omega, by omega⟩, ?_⟩
    rw [hvalue]
    exact herror
  · exact ⟨hlower, lt_of_le_of_ne hupper hcarry, ⟨by omega, by omega⟩, herror⟩

end digits

section printing

/-- A quotient within the error of seventeen digits is within that of `roundMag_eq`. -/
theorem near_of_abs_le {num den n c : ℕ} (hden : 0 < den) (hc : 0 < c) (hn : 0 < n)
    (h : |(num : ℚ) / den - n / c| * (2 * 10 ^ 16) ≤ n / c) :
    (2 ^ 54 - 1) * (n * den) < 2 ^ 54 * (num * c) ∧
      2 ^ 54 * (num * c) < (2 ^ 54 + 1) * (n * den) := by
  have hden' : (0 : ℚ) < den := by exact_mod_cast hden
  have hc' : (0 : ℚ) < c := by exact_mod_cast hc
  have hprod : (0 : ℚ) < n * den := by
    have h : 0 < n * den := Nat.mul_pos hn hden
    exact_mod_cast h
  have hdiff : (num : ℚ) / den - n / c = (num * c - n * den) / (den * c) := by
    rw [div_sub_div _ _ hden'.ne' hc'.ne', mul_comm (den : ℚ) n]
  have hright : (n : ℚ) / c = n * den / (den * c) := by
    rw [mul_comm (den : ℚ) c, mul_div_mul_right _ _ hden'.ne']
  rw [hdiff, hright, abs_div, abs_of_pos (mul_pos hden' hc'), div_mul_eq_mul_div,
    div_le_div_iff_of_pos_right (mul_pos hden' hc')] at h
  have hbelow := neg_le_abs ((num : ℚ) * c - n * den)
  have habove := le_abs_self ((num : ℚ) * c - n * den)
  constructor
  · have hlt : ((2 ^ 54 - 1) * (n * den) : ℚ) < 2 ^ 54 * (num * c) := by linarith
    have hsub : ((2 ^ 54 - 1 : ℕ) : ℚ) = 2 ^ 54 - 1 := by norm_num
    rw [← hsub] at hlt
    exact_mod_cast hlt
  · have hlt : (2 ^ 54 * (num * c) : ℚ) < (2 ^ 54 + 1) * (n * den) := by linarith
    exact_mod_cast hlt

theorem scaled_pos {x : Binary64} (h : 0 < x.mag.val) : 0 < x.scaled := by
  have hsig : 0 < significand x.mag := by
    simp only [significand, exponent]
    omega
  exact Nat.mul_pos hsig (by positivity)

theorem length_toDigits_eq {d p : ℕ} (hp : 0 < p) (hlow : 10 ^ (p - 1) ≤ d) (hhigh : d < 10 ^ p) :
    (Nat.toDigits 10 d).length = p := by
  have hle := (Nat.length_toDigits_le_iff (b := 10) (by decide) hp).2 hhigh
  by_cases hone : p = 1
  · have hpos : 0 < (Nat.toDigits 10 d).length := Nat.length_toDigits_pos
    omega
  · have hgt : ¬(Nat.toDigits 10 d).length ≤ p - 1 := by
      rw [Nat.length_toDigits_le_iff (by decide) (by omega)]
      omega
    omega

/-- Seventeen digits of a double lead back to it. -/
theorem ofDecimal_toDecimal {x : Binary64} (h : 0 < x.mag.val) :
    ofDecimal x.neg (toDecimal 17 x.scaled).1 ((toDecimal 17 x.scaled).2 - 17 + 1) = x := by
  have hpos := scaled_pos h
  have hmin := decimalExponent_ge x.scaled
  have hmax := decimalExponent_lt x
  obtain ⟨hlow, hhigh, hexp, herror⟩ := toDecimal_spec hpos (by decide : 0 < 17)
  obtain ⟨horder, -⟩ := zpow_decimalExponent hpos
  generalize toDecimal 17 x.scaled = decimal at *
  obtain ⟨d, e⟩ := decimal
  dsimp only at *
  have hlen : (Nat.toDigits 10 d).length = 17 := length_toDigits_eq (by decide) hlow hhigh
  have hnear : |(d : ℚ) * 10 ^ (e - 17 + 1) - x.scaled / (2 ^ 1074 : ℕ)| * (2 * 10 ^ 16) ≤
      x.scaled / (2 ^ 1074 : ℕ) := by
    have hplace : (10 : ℚ) ^ decimalExponent x.scaled =
        10 ^ (decimalExponent x.scaled - 17 + 1) * 10 ^ 16 := by
      rw [← zpow_natCast, ← zpow_add₀ (by norm_num)]
      congr 1
      omega
    have hscale := mul_le_mul_of_nonneg_right herror (by norm_num : (0 : ℚ) ≤ 2 * 10 ^ 16)
    push_cast at hscale
    linarith
  have hround {num den : ℕ} (hden : 0 < den)
      (hvalue : (num : ℚ) / den = d * 10 ^ (e - 17 + 1)) :
      roundMag num den = x.mag := by
    rw [← hvalue] at hnear
    obtain ⟨hbelow, habove⟩ := near_of_abs_le hden (by positivity) hpos hnear
    exact roundMag_eq hden h hbelow habove
  simp only [ofDecimal, hlen]
  rw [if_neg (by push_cast; omega), if_neg (by push_cast; omega)]
  split_ifs with hwhole
  · have hmag : roundMag (d * 10 ^ (e - 17 + 1).toNat) 1 = x.mag := by
      apply hround (by decide)
      have hpow : (10 : ℚ) ^ (e - 17 + 1) = 10 ^ (e - 17 + 1).toNat := by
        rw [← zpow_natCast, Int.toNat_of_nonneg hwhole]
      rw [hpow]
      push_cast
      rw [div_one]
    rw [hmag]
  · have hmag : roundMag d (10 ^ (-(e - 17 + 1)).toNat) = x.mag := by
      apply hround (by positivity)
      have hpow : (10 : ℚ) ^ (e - 17 + 1) = (10 ^ (-(e - 17 + 1)).toNat)⁻¹ := by
        rw [← zpow_natCast, Int.toNat_of_nonneg (by omega), zpow_neg, inv_inv]
      rw [hpow]
      push_cast
      rw [div_eq_mul_inv]
    rw [hmag]

/-- A double prints as a numeral of its sign: a zero as zero, any other with the value of its
digits. -/
theorem printG_numeral {p : ℕ} (hp : 0 < p) (x : Binary64) :
    ∃ n : Numeral, n.neg = x.neg ∧ n.text = printG p x ∧ (n.digits : ℚ) * 10 ^ n.exponent =
      if x.mag.val = 0 then 0
      else ((toDecimal p x.scaled).1 : ℚ) * 10 ^ ((toDecimal p x.scaled).2 - p + 1) := by
  by_cases hzero : x.mag.val = 0
  · obtain ⟨n, hneg, htext, hvalue⟩ := spells_zero x.neg
    refine ⟨n, hneg, ?_, ?_⟩
    · rw [Numeral.text, hneg, htext, printG, if_pos hzero]
    · rw [if_pos hzero, hvalue]
  · obtain ⟨q, hspells, hq⟩ := spells_generalDigits p x.scaled
    obtain ⟨n, hneg, htext, hvalue⟩ := hspells x.neg
    obtain ⟨hlow, hhigh, -⟩ := toDecimal_spec (scaled_pos (Nat.pos_of_ne_zero hzero)) hp
    refine ⟨n, hneg, ?_, ?_⟩
    · rw [Numeral.text, hneg, htext, printG, if_neg hzero]
    · rw [if_neg hzero, hvalue, hq (length_toDigits_eq hp hlow hhigh)]

/-- What a double prints as with seventeen digits reads as the double. -/
theorem printG_seventeen (x : Binary64) :
    ∃ n : Numeral, n.text = printG 17 x ∧ ofNumeral n = x := by
  obtain ⟨n, hneg, htext, hvalue⟩ := printG_numeral (by decide : 0 < 17) x
  refine ⟨n, htext, ?_⟩
  rw [ofNumeral, hneg]
  split_ifs at hvalue with hzero
  · have hcongr : ofDecimal x.neg n.digits n.exponent = ofDecimal x.neg 0 0 := by
      apply ofDecimal_congr
      rw [hvalue, Nat.cast_zero, zero_mul]
    obtain ⟨neg, mag⟩ := x
    have hmax := mag.isLt
    rw [hcongr]
    simp [ofDecimal, clampMag, Fin.ext_iff, hzero.symm]
    omega
  · exact (ofDecimal_congr _ hvalue).trans (ofDecimal_toDecimal (Nat.pos_of_ne_zero hzero))

theorem length_withFraction_le (whole frac : List Char) :
    (withFraction whole frac).length ≤ whole.length + frac.length + 1 := by
  simp only [withFraction]
  split_ifs
  · omega
  · simp only [List.length_append, List.length_cons]
    omega

theorem length_stripZeros_le (cs : List Char) : (stripZeros cs).length ≤ cs.length := by
  obtain ⟨k, hk⟩ := exists_stripZeros cs
  have hlen := congrArg List.length hk
  rw [List.length_append] at hlen
  omega

theorem length_exponentChars_le {x : ℤ} (h : x.natAbs < 1000) :
    (exponentChars x).length ≤ 4 := by
  have hdigits := (Nat.length_toDigits_le_iff (b := 10) (by decide) (by decide : 0 < 3)).2 h
  simp only [exponentChars, List.length_cons]
  split_ifs
  · simp only [List.length_cons]
    omega
  · omega

theorem length_generalDigits_le {p n : ℕ} (hp : 0 < p)
    (hlen : (Nat.toDigits 10 (toDecimal p n).1).length = p)
    (hexp : (toDecimal p n).2.natAbs < 1000) : (generalDigits p n).length ≤ p + 6 := by
  generalize hg : generalDigits = g
  delta generalDigits at hg
  subst hg
  beta_reduce
  generalize toDecimal p n = decimal at hlen hexp ⊢
  obtain ⟨d, x⟩ := decimal
  dsimp only at hlen hexp ⊢
  have hsplit (k : ℕ) (hk : k ≤ p) : (withFraction ((Nat.toDigits 10 d).take k)
      (stripZeros ((Nat.toDigits 10 d).drop k))).length ≤ p + 1 := by
    have hfraction := length_withFraction_le ((Nat.toDigits 10 d).take k)
      (stripZeros ((Nat.toDigits 10 d).drop k))
    have hstrip := length_stripZeros_le ((Nat.toDigits 10 d).drop k)
    rw [List.length_drop, hlen] at hstrip
    rw [List.length_take, hlen] at hfraction
    omega
  split_ifs with hfixed hpos
  · have h := hsplit (x.toNat + 1) (by omega)
    omega
  · have hfraction := length_withFraction_le ['0']
      (stripZeros (List.replicate ((-x).toNat - 1) '0' ++ Nat.toDigits 10 d))
    have hstrip := length_stripZeros_le (List.replicate ((-x).toNat - 1) '0' ++ Nat.toDigits 10 d)
    rw [List.length_append, List.length_replicate, hlen] at hstrip
    rw [List.length_singleton] at hfraction
    omega
  · have h := hsplit 1 (by omega)
    have hchars := length_exponentChars_le hexp
    rw [List.length_append, List.length_cons]
    omega

theorem length_printG_le {p : ℕ} (hp : 0 < p) (x : Binary64) : (printG p x).length ≤ p + 7 := by
  have hsign : (if x.neg then ['-'] else []).length ≤ 1 := by
    split_ifs
    · exact Nat.le_refl 1
    · exact Nat.zero_le 1
  rw [printG, List.length_append]
  by_cases hzero : x.mag.val = 0
  · rw [if_pos hzero, List.length_singleton]
    omega
  · have hmin := decimalExponent_ge x.scaled
    have hmax := decimalExponent_lt x
    obtain ⟨hlow, hhigh, hexp, -⟩ := toDecimal_spec (scaled_pos (Nat.pos_of_ne_zero hzero)) hp
    have h := length_generalDigits_le hp (length_toDigits_eq hp hlow hhigh) (by omega)
    rw [if_neg hzero]
    omega

end printing

end Nssf.Base.Binary64
