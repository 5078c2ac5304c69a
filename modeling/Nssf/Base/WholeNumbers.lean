import Nssf.Base.ReadBack

/-! Integers as double precision numbers. None of 53 bits is rounded. -/

namespace Nssf.Base.Binary64

def ofInt (n : ℤ) : Binary64 := ofDecimal (decide (n < 0)) n.natAbs 0

/-- The double of a significand and an exponent. -/
theorem scaled_of_parts {s k : ℕ} (hlow : 2 ^ 52 ≤ s) (hhigh : s < 2 ^ 53) (hk : k < 2046)
    (neg : Bool) : ∃ x : Binary64, x.neg = neg ∧ x.mag.val = k * 2 ^ 52 + s ∧
      x.scaled = s * 2 ^ k := by
  have hlt : k * 2 ^ 52 + s < infMag + 1 := by
    simp only [infMag]
    omega
  refine ⟨⟨neg, ⟨k * 2 ^ 52 + s, hlt⟩⟩, rfl, rfl, ?_⟩
  have hexp : exponent (k * 2 ^ 52 + s) = k := by
    simp only [exponent]
    omega
  rw [scaled, significand, hexp, Nat.add_sub_cancel_left]

/-- What fits the significand is kept. -/
theorem scaled_roundMag {n : ℕ} (hpos : 0 < n) (hlt : n < 2 ^ 53) (neg : Bool) :
    scaled ⟨neg, roundMag n 1⟩ = n * 2 ^ 1074 := by
  have hlog : Nat.log2 n ≤ 52 := by
    have h := (Nat.log2_lt hpos.ne').2 hlt
    omega
  have hle : 2 ^ Nat.log2 n ≤ n := Nat.log2_self_le hpos.ne'
  have hup : n < 2 ^ (Nat.log2 n + 1) := Nat.lt_log2_self
  have hscale : 2 ^ Nat.log2 n * 2 ^ (52 - Nat.log2 n) = 2 ^ 52 := by
    rw [← pow_add]
    congr 1
    omega
  have hlow : 2 ^ 52 ≤ n * 2 ^ (52 - Nat.log2 n) := by
    rw [← hscale]
    exact Nat.mul_le_mul_right _ hle
  have hhigh : n * 2 ^ (52 - Nat.log2 n) < 2 ^ 53 := by
    have h := Nat.mul_lt_mul_of_pos_right hup (Nat.two_pow_pos (52 - Nat.log2 n))
    rw [pow_succ, Nat.mul_right_comm, hscale] at h
    omega
  obtain ⟨x, hneg, hmag, hscaled⟩ := scaled_of_parts hlow hhigh
    (show Nat.log2 n + 1022 < 2046 by omega) neg
  have hsum : 52 - Nat.log2 n + (Nat.log2 n + 1022) = 1074 := by omega
  have hexact : x.scaled = n * 2 ^ 1074 := by
    rw [hscaled, Nat.mul_assoc, ← pow_add, hsum]
  have hround : roundMag n 1 = x.mag := by
    refine roundMag_eq Nat.one_pos (by omega) ?_ ?_
    · rw [hexact]
      have h := Nat.mul_pos hpos (Nat.two_pow_pos 1074)
      omega
    · rw [hexact]
      have h := Nat.mul_pos hpos (Nat.two_pow_pos 1074)
      omega
  rw [hround, ← hneg, ← hexact]

theorem ofDecimal_nat {n : ℕ} (hpos : 0 < n) (hlt : n < 2 ^ 53) (neg : Bool) :
    ofDecimal neg n 0 = ⟨neg, roundMag n 1⟩ := by
  have hlen : (Nat.toDigits 10 n).length ≤ 16 :=
    (Nat.length_toDigits_le_iff (by decide) (by decide)).2 (by omega)
  have hsmall : ¬(n = 0 ∨ ((Nat.toDigits 10 n).length : ℤ) + 0 < -400) := by omega
  have hshort : ¬400 < ((Nat.toDigits 10 n).length : ℤ) + 0 := by omega
  simp only [ofDecimal]
  rw [if_neg hsmall, if_neg hshort, if_pos (le_refl 0), Int.toNat_zero, pow_zero, Nat.mul_one]

theorem scaled_ofInt {n : ℤ} (h : n.natAbs < 2 ^ 53) :
    (ofInt n).neg = decide (n < 0) ∧ (ofInt n).scaled = n.natAbs * 2 ^ 1074 := by
  by_cases hzero : n = 0
  · subst hzero
    refine ⟨rfl, ?_⟩
    rw [Int.natAbs_zero, Nat.zero_mul]
    rfl
  · have hpos : 0 < n.natAbs := Int.natAbs_pos.2 hzero
    rw [ofInt, ofDecimal_nat hpos h]
    exact ⟨rfl, scaled_roundMag hpos h _⟩

/-- A C `int` comes back. -/
theorem toInt32_ofInt {n : ℤ} (hlow : -2 ^ 31 ≤ n) (hhigh : n < 2 ^ 31) :
    (ofInt n).toInt32 = n := by
  obtain ⟨hneg, hscaled⟩ := @scaled_ofInt n (by omega)
  have hquot : (ofInt n).scaled / 2 ^ 1074 = n.natAbs := by
    rw [hscaled, Nat.mul_div_cancel _ (Nat.two_pow_pos 1074)]
  simp only [toInt32, hquot, hneg]
  by_cases hlt : n < 0
  · rw [if_pos (decide_eq_true hlt)]
    omega
  · rw [if_neg (by simpa using hlt)]
    omega

theorem scaled_of_isInf {x : Binary64} (h : x.isInf = true) :
    x.scaled = 2 ^ 52 * 2 ^ 972 * 2 ^ 1074 := by
  have hmag : x.mag.val = infMag := by simpa [isInf] using h
  have hexp : exponent infMag = 2046 := by
    simp only [exponent, infMag]
    omega
  have hsig : significand infMag = 2 ^ 52 := by
    rw [significand, hexp]
    simp only [infMag]
    omega
  rw [scaled, hmag, hsig, hexp, Nat.mul_assoc, ← pow_add 2 972 1074]

theorem isInf_ofInt {n : ℤ} (h : n.natAbs < 2 ^ 53) : (ofInt n).isInf = false := by
  obtain ⟨-, hscaled⟩ := scaled_ofInt h
  cases hinf : (ofInt n).isInf with
  | false => rfl
  | true =>
    rw [scaled_of_isInf hinf] at hscaled
    have hcancel {k a b : ℕ} (heq : a * 2 ^ k = b * 2 ^ k) : a = b :=
      Nat.eq_of_mul_eq_mul_right (Nat.two_pow_pos k) heq
    have heq := hcancel hscaled
    have hbig : 2 ^ 52 * 2 ^ 1 ≤ 2 ^ 52 * 2 ^ 972 :=
      Nat.mul_le_mul_left _ (Nat.pow_le_pow_right Nat.two_pos (by decide))
    rw [heq, ← pow_add] at hbig
    exact absurd h (not_lt.2 hbig)

end Nssf.Base.Binary64
