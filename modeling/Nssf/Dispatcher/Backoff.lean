import Mathlib.Data.Rat.Floor
import Mathlib.Tactic.Positivity
import Mathlib.Tactic.Ring
import Nssf.Dispatcher.RetryStore
import Nssf.OAuth.Expiry

/-! The delay before the next attempt. The doubling stops below the cap, so it never leaves the
range of a `long`; the jitter is added on top of the cap and can leave it. -/

namespace Nssf

open OAuth

namespace Backoff

/-- The doubling loop on 64 bits. -/
def stepLong (maxMs : ℤ) : ℕ → ℤ → Option ℤ
  | 0, step => some step
  | n + 1, step =>
    if maxMs ≤ step ∨ maxMs / 2 < step then some maxMs
    else (checked (step * 2)).bind (stepLong maxMs n)

/-- `nssf_retry_backoff_delay_ms` on 64 bits: nothing when a step overflows. -/
def delayLong (attemptCount baseMs maxMs : ℤ) (randUnit : ℚ) : Option ℤ :=
  let base := if baseMs < 0 then 0 else baseMs
  let cap := if maxMs < base then base else maxMs
  let count := if attemptCount < 0 then 0 else attemptCount
  (stepLong cap count.toNat base).bind fun step =>
    let capped := if step < cap then step else cap
    let u := if randUnit < 0 then 0 else if 1 ≤ randUnit then 999999 / 1000000 else randUnit
    (checked ⌊u * (capped / 2 : ℤ)⌋).bind fun jitter => checked (capped + jitter)

/-- The deterministic part of a delay. -/
def floorMs (attemptCount baseMs maxMs : ℤ) : ℤ :=
  min (max baseMs 0 * 2 ^ (max attemptCount 0).toNat) (max maxMs (max baseMs 0))

def clampUnit (u : ℚ) : ℚ := if u < 0 then 0 else if 1 ≤ u then 999999 / 1000000 else u

section step

variable {cap step : ℤ}

theorem backoffStep_eq (hstep : 0 ≤ step) (hcap : step ≤ cap) (n : ℕ) :
    backoffStep cap n step = min (step * 2 ^ n) cap := by
  induction n generalizing step with
  | zero =>
    rw [pow_zero, mul_one, min_eq_left hcap]
    rfl
  | succ n ih =>
    have hpow : (1 : ℤ) ≤ 2 ^ n := one_le_pow₀ (by decide)
    rw [backoffStep]
    split_ifs with hstop
    · have hlarge : cap ≤ step * 2 ^ (n + 1) := by
        have hdouble : cap ≤ step * 2 := by omega
        calc cap ≤ step * 2 := hdouble
          _ ≤ step * 2 * 2 ^ n := le_mul_of_one_le_right (by omega) hpow
          _ = step * 2 ^ (n + 1) := by ring
      rw [min_eq_right hlarge]
    · rw [ih (by omega) (by omega)]
      congr 1
      ring

theorem stepLong_eq (hstep : 0 ≤ step) (hcap : step ≤ cap) (hfits : Fits cap) (n : ℕ) :
    stepLong cap n step = some (backoffStep cap n step) := by
  induction n generalizing step with
  | zero => rfl
  | succ n ih =>
    rw [stepLong, backoffStep]
    split_ifs with hstop
    · rfl
    · have hdouble : Fits (step * 2) := by
        unfold Fits at hfits ⊢
        omega
      rw [checked_of_fits hdouble, Option.bind_some, ih (by omega) (by omega)]

end step

section delay

variable {attemptCount baseMs maxMs : ℤ}

theorem backoffCapped_eq : backoffCapped attemptCount baseMs maxMs =
    floorMs attemptCount baseMs maxMs := by
  have hbase : 0 ≤ max baseMs 0 := le_max_right _ _
  have hcount : (max attemptCount 0).toNat = attemptCount.toNat := by omega
  unfold backoffCapped floorMs
  dsimp only
  rw [backoffStep_eq hbase (le_max_right _ _), hcount]
  split_ifs with hlt
  · rfl
  · exact (le_antisymm (min_le_right _ _) (not_lt.1 hlt)).symm

theorem floorMs_nonneg : 0 ≤ floorMs attemptCount baseMs maxMs := by
  have hbase : 0 ≤ max baseMs 0 := le_max_right _ _
  exact le_min (mul_nonneg hbase (by positivity)) (hbase.trans (le_max_right _ _))

theorem floorMs_lt (hb : Fits baseMs) (hm : Fits maxMs) :
    floorMs attemptCount baseMs maxMs < 2 ^ 63 := by
  have hcap : max maxMs (max baseMs 0) < 2 ^ 63 := by
    unfold Fits at hb hm
    omega
  exact (min_le_right _ _).trans_lt hcap

/-- More attempts never bring the deterministic part down. -/
theorem floorMs_mono {more : ℤ} (h : attemptCount ≤ more) :
    floorMs attemptCount baseMs maxMs ≤ floorMs more baseMs maxMs := by
  have hcount : (max attemptCount 0).toNat ≤ (max more 0).toNat := by omega
  have hpow : (2 : ℤ) ^ (max attemptCount 0).toNat ≤ 2 ^ (max more 0).toNat :=
    pow_le_pow_right₀ (by decide) hcount
  exact min_le_min_right _ (mul_le_mul_of_nonneg_left hpow (le_max_right _ _))

theorem clampUnit_nonneg (u : ℚ) : 0 ≤ clampUnit u := by
  unfold clampUnit
  split_ifs with hneg hone
  · exact le_refl 0
  · norm_num
  · exact not_lt.1 hneg

theorem clampUnit_lt_one (u : ℚ) : clampUnit u < 1 := by
  unfold clampUnit
  split_ifs with hneg hone
  · exact one_pos
  · norm_num
  · exact not_le.1 hone

theorem jitter_bounds (u : ℚ) {c : ℤ} (hc : 0 ≤ c) :
    0 ≤ ⌊clampUnit u * (c / 2 : ℤ)⌋ ∧ ⌊clampUnit u * (c / 2 : ℤ)⌋ ≤ c / 2 := by
  have hhalf : (0 : ℚ) ≤ (c / 2 : ℤ) := by
    have hint : 0 ≤ c / 2 := by omega
    exact_mod_cast hint
  constructor
  · exact Int.floor_nonneg.2 (mul_nonneg (clampUnit_nonneg u) hhalf)
  · have hle : clampUnit u * (c / 2 : ℤ) ≤ (c / 2 : ℤ) :=
      mul_le_of_le_one_left hhalf (clampUnit_lt_one u).le
    exact_mod_cast (Int.floor_le _).trans hle

theorem retryBackoffDelayMs_eq (u : ℚ) : retryBackoffDelayMs attemptCount baseMs maxMs u =
    floorMs attemptCount baseMs maxMs +
      ⌊clampUnit u * (floorMs attemptCount baseMs maxMs / 2 : ℤ)⌋ := by
  unfold retryBackoffDelayMs
  rw [backoffCapped_eq]
  rfl

theorem ite_lt_eq_max (a b : ℤ) : (if a < b then b else a) = max a b := by
  split_ifs with h
  · rw [max_eq_right h.le]
  · rw [max_eq_left (not_lt.1 h)]

/-- Only the last addition can overflow. -/
theorem delayLong_eq (hb : Fits baseMs) (hm : Fits maxMs) (u : ℚ) :
    delayLong attemptCount baseMs maxMs u =
      checked (retryBackoffDelayMs attemptCount baseMs maxMs u) := by
  have hfits : Fits (max maxMs (max baseMs 0)) := by
    unfold Fits at hb hm ⊢
    omega
  have hcount : (max attemptCount 0).toNat = attemptCount.toNat := by omega
  unfold delayLong
  simp only [ite_lt_eq_max]
  rw [stepLong_eq (le_max_right _ _) (le_max_right _ _) hfits, Option.bind_some, hcount]
  change (checked ⌊clampUnit u * (backoffCapped attemptCount baseMs maxMs / 2 : ℤ)⌋).bind
    (fun jitter => checked (backoffCapped attemptCount baseMs maxMs + jitter)) = _
  rw [retryBackoffDelayMs_eq, backoffCapped_eq]
  have hnonneg := @floorMs_nonneg attemptCount baseMs maxMs
  have hlt := @floorMs_lt attemptCount baseMs maxMs hb hm
  obtain ⟨hlow, hhigh⟩ := jitter_bounds u hnonneg
  have hjitter : Fits ⌊clampUnit u * (floorMs attemptCount baseMs maxMs / 2 : ℤ)⌋ := by
    unfold Fits
    omega
  rw [checked_of_fits hjitter, Option.bind_some]

theorem checked_eq_some_iff {v d : ℤ} : checked v = some d ↔ Fits v ∧ v = d := by
  unfold checked
  split_ifs with h
  · simp [h]
  · simp [h]

/-- The delay of the schedule is computed just when the jitter has room above the capped step.
It is never below that step, which never decreases, and at most a half of it above. -/
theorem delay_computed_iff (attemptCount : ℤ) {baseMs maxMs : ℤ} (hb : Fits baseMs)
    (hm : Fits maxMs) (u : ℚ) :
    (∃ d, delayLong attemptCount baseMs maxMs u = some d ∧
      d = floorMs attemptCount baseMs maxMs +
        ⌊clampUnit u * (floorMs attemptCount baseMs maxMs / 2 : ℤ)⌋ ∧
      floorMs attemptCount baseMs maxMs ≤ d ∧
      d < floorMs attemptCount baseMs maxMs + floorMs attemptCount baseMs maxMs / 2 + 1 ∧
      ∀ more, attemptCount ≤ more →
        floorMs attemptCount baseMs maxMs ≤ floorMs more baseMs maxMs) ↔
      clampUnit u * (floorMs attemptCount baseMs maxMs / 2 : ℤ) <
        2 ^ 63 - floorMs attemptCount baseMs maxMs := by
  have hnonneg := @floorMs_nonneg attemptCount baseMs maxMs
  have hlt := @floorMs_lt attemptCount baseMs maxMs hb hm
  obtain ⟨hlow, hhigh⟩ := jitter_bounds u hnonneg
  have hroom : clampUnit u * (floorMs attemptCount baseMs maxMs / 2 : ℤ) <
      2 ^ 63 - floorMs attemptCount baseMs maxMs ↔
      ⌊clampUnit u * (floorMs attemptCount baseMs maxMs / 2 : ℤ)⌋ <
        2 ^ 63 - floorMs attemptCount baseMs maxMs := by
    rw [Int.floor_lt]
    push_cast
    rfl
  rw [hroom, delayLong_eq hb hm, retryBackoffDelayMs_eq]
  constructor
  · intro h
    obtain ⟨d, hd, -⟩ := h
    obtain ⟨hfits, -⟩ := checked_eq_some_iff.1 hd
    unfold Fits at hfits
    omega
  · intro h
    refine ⟨_, checked_eq_some_iff.2 ⟨?_, rfl⟩, rfl, by omega, by omega, fun _ => floorMs_mono⟩
    unfold Fits
    omega

/-- The delay after two attempts in the dispatcher's own schedule. -/
theorem delay_computed_second : ∃ d,
    delayLong 2 dispatchBackoffBaseMs dispatchBackoffMaxMs (1 / 2) = some d ∧ d = 1000 := by
  have hfloor : floorMs 2 dispatchBackoffBaseMs dispatchBackoffMaxMs = 800 := by decide
  have hunit : clampUnit (1 / 2) = 1 / 2 := by norm_num [clampUnit]
  have hhalf : (1 / 2 : ℚ) * ((800 : ℤ) / 2 : ℤ) = (200 : ℤ) := by norm_num
  have hbase : Fits dispatchBackoffBaseMs := by decide
  have hmax : Fits dispatchBackoffMaxMs := by decide
  have hroom := delay_computed_iff 2 hbase hmax (1 / 2)
  rw [hfloor, hunit, hhalf, Int.floor_intCast] at hroom
  obtain ⟨d, hd, hvalue, -⟩ := hroom.2 (by norm_num)
  exact ⟨d, hd, hvalue⟩

/-- Above the largest base there is no room for the jitter. -/
theorem largest_base_overflows : Fits (2 ^ 63 - 1) ∧
    ¬∃ d, delayLong 0 (2 ^ 63 - 1) (2 ^ 63 - 1) (1 / 2) = some d := by
  refine ⟨by decide, ?_⟩
  intro h
  obtain ⟨d, hd⟩ := h
  have hnone : delayLong 0 (2 ^ 63 - 1) (2 ^ 63 - 1) (1 / 2) = none := by decide +kernel
  rw [hnone] at hd
  cases hd

end delay

end Backoff

end Nssf
