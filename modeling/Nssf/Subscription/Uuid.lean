import Mathlib.Data.Nat.Bitwise
import Mathlib.Data.Nat.ModEq
import Mathlib.Tactic.Linarith
import Mathlib.Tactic.LinearCombination
import Nssf.Subscription.Store

/-! The ids of subscriptions. The octets of an id mix the clock and a counter, and the marks of
version and variant overwrite six bits of them. The low half of an id still fixes the clock, and
with the clock the counter. -/

namespace Nssf.Subscription

open Base Run

def uuidHigh (c t : ℕ) : ℕ :=
  Nat.xor (t * 2 ^ 16 % 2 ^ 64) (c * 0x9E3779B97F4A7C15 % 2 ^ 64)

/-- The product of the clock that goes into the low half. -/
def clockWord (t : ℕ) : ℕ := t * 0xC2B2AE3D27D4EB4F % 2 ^ 64

def uuidLow (c t : ℕ) : ℕ := Nat.xor (c * 2 % 2 ^ 64) (clockWord t)

/-- The sixteen octets with their marks. -/
def uuidOctets (hi lo : ℕ) : List ℕ :=
  ((bytesOf hi ++ bytesOf lo).modify 6 fun x => x % 16 + 0x40).modify 8 fun x => x % 64 + 0x80

def hexDashed (b : List ℕ) : List Char :=
  (b.take 4).flatMap hexByte ++ '-' :: ((b.drop 4).take 2).flatMap hexByte ++
    '-' :: ((b.drop 6).take 2).flatMap hexByte ++ '-' :: ((b.drop 8).take 2).flatMap hexByte ++
      '-' :: (b.drop 10).flatMap hexByte

theorem uuidText_eq (c t : ℕ) :
    uuidText c t = String.ofList (hexDashed (uuidOctets (uuidHigh c t) (uuidLow c t))) := rfl

section digits

theorem hexByte_inj {b b' : ℕ} (hb : b < 256) (hb' : b' < 256) (h : hexByte b = hexByte b') :
    b = b' := by
  have hdigit : ∀ x < 16, ∀ y < 16, Nat.digitChar x = Nat.digitChar y → x = y := by decide
  simp only [hexByte, List.cons.injEq, and_true] at h
  have hhigh := hdigit (b / 16) (by omega) (b' / 16) (by omega) h.1
  have hlow := hdigit (b % 16) (by omega) (b' % 16) (by omega) h.2
  omega

theorem length_flatMap_hexByte (l : List ℕ) : (l.flatMap hexByte).length = 2 * l.length := by
  induction l with
  | nil => rfl
  | cons b l ih =>
    rw [List.flatMap_cons, List.length_append, ih]
    simp only [hexByte, List.length_cons, List.length_nil]
    omega

theorem flatMap_hexByte_inj {l m : List ℕ} (hl : ∀ b ∈ l, b < 256) (hm : ∀ b ∈ m, b < 256)
    (h : l.flatMap hexByte = m.flatMap hexByte) : l = m := by
  induction l generalizing m with
  | nil =>
    have hlen := congrArg List.length h
    rw [length_flatMap_hexByte, length_flatMap_hexByte] at hlen
    have hnil : m.length = 0 := by
      rw [List.length_nil] at hlen
      omega
    exact (List.length_eq_zero_iff.1 hnil).symm
  | cons b l ih =>
    cases m with
    | nil => cases h
    | cons c m =>
      obtain ⟨hfirst, hrest⟩ := List.append_inj h rfl
      rw [hexByte_inj (hl b List.mem_cons_self) (hm c List.mem_cons_self) hfirst,
        ih (fun x hx => hl x (List.mem_cons_of_mem _ hx))
          (fun x hx => hm x (List.mem_cons_of_mem _ hx)) hrest]

theorem length_hexDashed {b : List ℕ} (h : b.length = 16) : (hexDashed b).length = 36 := by
  simp only [hexDashed, List.length_append, List.length_cons, length_flatMap_hexByte,
    List.length_take, List.length_drop, h]
  omega

theorem hexDashed_inj {l m : List ℕ} (hlen : l.length = 16) (hlen' : m.length = 16)
    (hl : ∀ b ∈ l, b < 256) (hm : ∀ b ∈ m, b < 256) (h : hexDashed l = hexDashed m) : l = m := by
  have hpart {p q : List ℕ} (hp : p.Sublist l) (hq : q.Sublist m)
      (heq : p.flatMap hexByte = q.flatMap hexByte) : p = q :=
    flatMap_hexByte_inj (fun b hb => hl b (hp.subset hb)) (fun b hb => hm b (hq.subset hb)) heq
  have hsub (n k : ℕ) (p : List ℕ) : ((p.drop n).take k).Sublist p :=
    (List.take_sublist _ _).trans (List.drop_sublist _ _)
  have hsize (n k : ℕ) : ('-' :: ((l.drop n).take k).flatMap hexByte).length =
      ('-' :: ((m.drop n).take k).flatMap hexByte).length := by
    simp only [List.length_cons, length_flatMap_hexByte, List.length_take, List.length_drop, hlen,
      hlen']
  have hsizeEnd : ('-' :: (l.drop 10).flatMap hexByte).length =
      ('-' :: (m.drop 10).flatMap hexByte).length := by
    simp only [List.length_cons, length_flatMap_hexByte, List.length_drop, hlen, hlen']
  obtain ⟨h, hfive⟩ := List.append_inj' h hsizeEnd
  obtain ⟨h, hfour⟩ := List.append_inj' h (hsize 8 2)
  obtain ⟨h, hthree⟩ := List.append_inj' h (hsize 6 2)
  obtain ⟨hone, htwo⟩ := List.append_inj' h (hsize 4 2)
  have hten := hpart (List.drop_sublist 10 l) (List.drop_sublist 10 m) (List.cons.inj hfive).2
  have height := hpart (hsub 8 2 l) (hsub 8 2 m) (List.cons.inj hfour).2
  have hsix := hpart (hsub 6 2 l) (hsub 6 2 m) (List.cons.inj hthree).2
  have hmid := hpart (hsub 4 2 l) (hsub 4 2 m) (List.cons.inj htwo).2
  have hstart := hpart (List.take_sublist 4 l) (List.take_sublist 4 m) hone
  have hsplit (p : List ℕ) : p = p.take 4 ++ ((p.drop 4).take 2 ++ ((p.drop 6).take 2 ++
      ((p.drop 8).take 2 ++ p.drop 10))) := by
    conv_lhs => rw [← List.take_append_drop 4 p, ← List.take_append_drop 2 (p.drop 4),
      List.drop_drop, ← List.take_append_drop 2 (p.drop 6), List.drop_drop,
      ← List.take_append_drop 2 (p.drop 8), List.drop_drop]
  rw [hsplit l, hsplit m, hten, height, hsix, hmid, hstart]

end digits

section octets

theorem uuidOctets_eq (hi lo : ℕ) : uuidOctets hi lo =
    [hi % 256, hi / 2 ^ 8 % 256, hi / 2 ^ 16 % 256, hi / 2 ^ 24 % 256, hi / 2 ^ 32 % 256,
      hi / 2 ^ 40 % 256, hi / 2 ^ 48 % 256 % 16 + 0x40, hi / 2 ^ 56 % 256,
      lo % 256 % 64 + 0x80, lo / 2 ^ 8 % 256, lo / 2 ^ 16 % 256, lo / 2 ^ 24 % 256,
      lo / 2 ^ 32 % 256, lo / 2 ^ 40 % 256, lo / 2 ^ 48 % 256, lo / 2 ^ 56 % 256] := by
  simp [uuidOctets, bytesOf, List.range, List.range.loop, List.modify, List.modifyTailIdx,
    List.modifyTailIdx.go, List.modifyHead]

theorem uuidOctets_lt {hi lo : ℕ} : ∀ b ∈ uuidOctets hi lo, b < 256 := by
  have hbyte (x : ℕ) : x % 256 < 256 := Nat.mod_lt x (by decide)
  have hversion (x : ℕ) : x % 16 + 0x40 < 256 := by omega
  have hvariant (x : ℕ) : x % 64 + 0x80 < 256 := by omega
  rw [uuidOctets_eq]
  simp only [List.forall_mem_cons, hbyte, hversion, hvariant, true_and]
  intro b hb
  cases hb

theorem div_eq_of_byte {x y k n : ℕ} (hn : n = k + 8) (h : x / 2 ^ k % 256 = y / 2 ^ k % 256)
    (hrest : x / 2 ^ n = y / 2 ^ n) : x / 2 ^ k = y / 2 ^ k := by
  rw [hn, Nat.pow_add, ← Nat.div_div_eq_div_mul, ← Nat.div_div_eq_div_mul] at hrest
  have hx := Nat.div_add_mod (x / 2 ^ k) 256
  have hy := Nat.div_add_mod (y / 2 ^ k) 256
  rw [← hx, ← hy, h]
  exact congrArg (fun q => 256 * q + y / 2 ^ k % 256) hrest

theorem mod_eq_of_bytes {x y : ℕ} (h₀ : x % 256 = y % 256)
    (h₁ : x / 2 ^ 8 % 256 = y / 2 ^ 8 % 256) : x % 2 ^ 16 = y % 2 ^ 16 := by
  omega

theorem mod_eq_of_marked {x y : ℕ} (h : x % 256 % 64 + 0x80 = y % 256 % 64 + 0x80) :
    x % 2 ^ 6 = y % 2 ^ 6 := by
  omega

/-- All bits that the marks leave can be read back. -/
theorem uuidOctets_inj {hi lo hi' lo' : ℕ} (hlo : lo / 2 ^ 64 = 0) (hlo' : lo' / 2 ^ 64 = 0)
    (h : uuidOctets hi lo = uuidOctets hi' lo') :
    hi % 2 ^ 16 = hi' % 2 ^ 16 ∧ lo % 2 ^ 6 = lo' % 2 ^ 6 ∧ lo / 2 ^ 8 = lo' / 2 ^ 8 := by
  rw [uuidOctets_eq, uuidOctets_eq] at h
  simp only [List.cons.injEq, and_true] at h
  obtain ⟨h₀, h₁, -, -, -, -, -, -, h₈, h₉, h₁₀, h₁₁, h₁₂, h₁₃, h₁₄, h₁₅⟩ := h
  refine ⟨mod_eq_of_bytes h₀ h₁, mod_eq_of_marked h₈, ?_⟩
  have h₆₄ : lo / 2 ^ 64 = lo' / 2 ^ 64 := hlo.trans hlo'.symm
  have h₄₈ := div_eq_of_byte rfl h₁₄ (div_eq_of_byte rfl h₁₅ h₆₄)
  have h₃₂ := div_eq_of_byte rfl h₁₂ (div_eq_of_byte rfl h₁₃ h₄₈)
  have h₁₆ := div_eq_of_byte rfl h₁₀ (div_eq_of_byte rfl h₁₁ h₃₂)
  exact div_eq_of_byte rfl h₉ h₁₆

end octets

section words

/-- A small multiple of the factor is no small number of this form: times 121616223 both sides
are small against the modulus, and 229231441 divides neither. -/
theorem eq_zero_of_product {d s q : ℤ} (h : 0xC2B2AE3D27D4EB4F * d = s + 2 ^ 58 * q)
    (hd : -2 ^ 28 < d ∧ d < 2 ^ 28) (hs : -2 ^ 27 < s ∧ s < 2 ^ 27) : d = 0 := by
  have hscaled : 229231441 * d - 121616223 * s = 2 ^ 58 * (121616223 * q - 5919607970 * d) := by
    linear_combination 121616223 * h
  have hexact : 229231441 * d - 121616223 * s = 0 := by
    have hleft : -2 ^ 57 < 229231441 * d ∧ 229231441 * d < 2 ^ 57 := ⟨by linarith, by linarith⟩
    have hright : -2 ^ 57 < 121616223 * s ∧ 121616223 * s < 2 ^ 57 := ⟨by linarith, by linarith⟩
    generalize 121616223 * q - 5919607970 * d = r at hscaled
    generalize 229231441 * d = x at hleft hscaled ⊢
    generalize 121616223 * s = y at hright hscaled ⊢
    clear h hd hs
    omega
  have hmultiple : s = 229231441 * (14402818 * s + (-27147519) * d) := by
    linear_combination 27147519 * hexact
  have hs : s = 0 := by
    clear h hscaled hexact hd
    generalize 14402818 * s + (-27147519) * d = k at hmultiple
    omega
  rw [hs] at hexact
  omega

theorem word_split (y : ℕ) : y = y % 2 ^ 6 + 2 ^ 6 * (y / 2 ^ 6 % 4) +
    2 ^ 8 * (y / 2 ^ 8 % 2 ^ 9) + 2 ^ 17 * (y / 2 ^ 17 % 2 ^ 16) + 2 ^ 33 * (y / 2 ^ 33) := by
  omega

/-- Products that agree outside the two windows differ by a number of that form. -/
theorem product_difference {y y' : ℕ} (h₆ : y % 2 ^ 6 = y' % 2 ^ 6)
    (h₈ : y / 2 ^ 8 % 2 ^ 9 = y' / 2 ^ 8 % 2 ^ 9) (h₃₃ : y / 2 ^ 33 = y' / 2 ^ 33) :
    ∃ s : ℤ, (y : ℤ) - y' = 2 ^ 6 * s ∧ -2 ^ 27 < s ∧ s < 2 ^ 27 := by
  have hy := word_split y
  have hy' := word_split y'
  rw [h₆, h₈, h₃₃] at hy
  have hlow : y / 2 ^ 6 % 4 < 4 := Nat.mod_lt _ (by decide)
  have hlow' : y' / 2 ^ 6 % 4 < 4 := Nat.mod_lt _ (by decide)
  have hmid : y / 2 ^ 17 % 2 ^ 16 < 2 ^ 16 := Nat.mod_lt _ (by decide)
  have hmid' : y' / 2 ^ 17 % 2 ^ 16 < 2 ^ 16 := Nat.mod_lt _ (by decide)
  clear h₆ h₈ h₃₃
  generalize y / 2 ^ 6 % 4 = a at hy hlow
  generalize y' / 2 ^ 6 % 4 = a' at hy' hlow'
  generalize y / 2 ^ 17 % 2 ^ 16 = b at hy hmid
  generalize y' / 2 ^ 17 % 2 ^ 16 = b' at hy' hmid'
  generalize y' % 2 ^ 6 = p at hy hy'
  generalize y' / 2 ^ 8 % 2 ^ 9 = q at hy hy'
  generalize y' / 2 ^ 33 = r at hy hy'
  refine ⟨(a - a' : ℤ) + 2 ^ 11 * (b - b' : ℤ), ?_, ?_, ?_⟩
  · omega
  · omega
  · omega

theorem exists_clockWord (t : ℕ) :
    ∃ q : ℤ, (t : ℤ) * 0xC2B2AE3D27D4EB4F = 2 ^ 64 * q + clockWord t := by
  refine ⟨(t * 0xC2B2AE3D27D4EB4F / 2 ^ 64 : ℕ), ?_⟩
  exact_mod_cast (Nat.div_add_mod (t * 0xC2B2AE3D27D4EB4F) (2 ^ 64)).symm

/-- The clock is fixed by what the low half keeps of its product. -/
theorem clock_eq_of_product {t t' : ℕ} (ht : t < 2 ^ 34) (ht' : t' < 2 ^ 34) {s : ℤ}
    (hs : -2 ^ 27 < s ∧ s < 2 ^ 27) (h : (clockWord t : ℤ) - clockWord t' = 2 ^ 6 * s) :
    t = t' := by
  obtain ⟨q, hq⟩ := exists_clockWord t
  obtain ⟨q', hq'⟩ := exists_clockWord t'
  have hproduct : 0xC2B2AE3D27D4EB4F * ((t : ℤ) - t') = 2 ^ 6 * (s + 2 ^ 58 * (q - q')) := by
    linear_combination hq - hq' + h
  have hdiv : (t : ℤ) - t' =
      2 ^ 6 * (47 * (s + 2 ^ 58 * (q - q')) - 10302890097564998862 * ((t : ℤ) - t')) := by
    linear_combination 47 * hproduct
  generalize (47 * (s + 2 ^ 58 * (q - q')) - 10302890097564998862 * ((t : ℤ) - t') : ℤ) = d at hdiv
  have hbound : -2 ^ 28 < d ∧ d < 2 ^ 28 := by
    clear hproduct hq hq' h hs
    omega
  have hsmall : 0xC2B2AE3D27D4EB4F * d = s + 2 ^ 58 * ((q : ℤ) - q') := by
    rw [hdiv] at hproduct
    have hscaled : (2 : ℤ) ^ 6 * (0xC2B2AE3D27D4EB4F * d) = 2 ^ 6 * (s + 2 ^ 58 * (q - q')) := by
      linear_combination hproduct
    exact mul_left_cancel₀ (by decide) hscaled
  have hzero := eq_zero_of_product hsmall hbound hs
  rw [hzero] at hdiv
  clear hproduct hq hq' h hs hsmall
  omega

theorem uuidLow_lt (c t : ℕ) : uuidLow c t / 2 ^ 64 = 0 := by
  apply Nat.div_eq_of_lt
  exact Nat.xor_lt_two_pow (Nat.mod_lt _ (by decide)) (Nat.mod_lt _ (by decide))

/-- The clock does not reach the last two octets of the high half. -/
theorem counter_low {c c' t t' : ℕ} (h : uuidHigh c t % 2 ^ 16 = uuidHigh c' t' % 2 ^ 16) :
    c % 2 ^ 16 = c' % 2 ^ 16 := by
  have hmix (c t : ℕ) : uuidHigh c t % 2 ^ 16 = c * 0x9E3779B97F4A7C15 % 2 ^ 16 := by
    have hclock : t * 2 ^ 16 % 2 ^ 64 % 2 ^ 16 = 0 := by
      rw [Nat.mod_mod_of_dvd _ (by decide), Nat.mul_mod_left]
    have hcounter : c * 0x9E3779B97F4A7C15 % 2 ^ 64 % 2 ^ 16 = c * 0x9E3779B97F4A7C15 % 2 ^ 16 :=
      Nat.mod_mod_of_dvd _ (by decide)
    change (_ ^^^ _) % 2 ^ 16 = _
    rw [Nat.xor_mod_two_pow, hclock, hcounter, Nat.zero_xor]
  rw [hmix, hmix] at h
  exact Nat.ModEq.cancel_right_of_coprime (by decide) h

theorem xor_mod_cancel {x x' y y' k : ℕ} (hx : x % 2 ^ k = x' % 2 ^ k)
    (h : Nat.xor x y % 2 ^ k = Nat.xor x' y' % 2 ^ k) : y % 2 ^ k = y' % 2 ^ k := by
  change (x ^^^ y) % 2 ^ k = (x' ^^^ y') % 2 ^ k at h
  rw [Nat.xor_mod_two_pow, Nat.xor_mod_two_pow, hx] at h
  exact Nat.xor_right_inj.1 h

theorem xor_div (x y k : ℕ) : Nat.xor x y / 2 ^ k = Nat.xor (x / 2 ^ k) (y / 2 ^ k) :=
  Nat.xor_div_two_pow

end words

section ids

variable {c c' t t' : ℕ}

/-- Two ids of one process differ when their counters do. -/
theorem uuidText_ne (hc : c < 2 ^ 32) (hc' : c' < 2 ^ 32) (ht : t < 2 ^ 34) (ht' : t' < 2 ^ 34)
    (hne : c ≠ c') : uuidText c t ≠ uuidText c' t' := by
  intro h
  rw [uuidText_eq, uuidText_eq, String.ofList_inj] at h
  have hoctets := hexDashed_inj rfl rfl uuidOctets_lt uuidOctets_lt h
  obtain ⟨hhigh, hlow, hrest⟩ := uuidOctets_inj (uuidLow_lt c t) (uuidLow_lt c' t') hoctets
  have hcounter := counter_low hhigh
  have hdouble : c * 2 % 2 ^ 64 = c * 2 := Nat.mod_eq_of_lt (by omega)
  have hdouble' : c' * 2 % 2 ^ 64 = c' * 2 := Nat.mod_eq_of_lt (by omega)
  unfold uuidLow at hlow hrest
  rw [hdouble, hdouble'] at hlow hrest
  have h₆ : clockWord t % 2 ^ 6 = clockWord t' % 2 ^ 6 := xor_mod_cancel (by omega) hlow
  rw [xor_div, xor_div] at hrest
  have h₈ : clockWord t / 2 ^ 8 % 2 ^ 9 = clockWord t' / 2 ^ 8 % 2 ^ 9 :=
    xor_mod_cancel (by omega) (congrArg (· % 2 ^ 9) hrest)
  have h₃₃ : clockWord t / 2 ^ 33 = clockWord t' / 2 ^ 33 := by
    have hshift := congrArg (· / 2 ^ 25) hrest
    have hzero : c * 2 / 2 ^ 8 / 2 ^ 25 = 0 := by omega
    have hzero' : c' * 2 / 2 ^ 8 / 2 ^ 25 = 0 := by omega
    simp only [xor_div, hzero, hzero'] at hshift
    rw [Nat.div_div_eq_div_mul, Nat.div_div_eq_div_mul] at hshift
    exact Nat.xor_right_inj.1 hshift
  obtain ⟨s, hs, hbound⟩ := product_difference h₆ h₈ h₃₃
  have hclock : t = t' := clock_eq_of_product ht ht' hbound hs
  subst hclock
  have hwhole : c * 2 / 2 ^ 8 = c' * 2 / 2 ^ 8 := Nat.xor_left_inj.1 hrest
  omega

/-- What a call draws: the next counter and the clock, as 64-bit words. -/
def drawnCounter (e : Env) : ℕ := (e.uuids + 1) % 2 ^ 64

def drawnClock (e : Env) : ℕ := (e.time.head % 2 ^ 64).toNat

theorem genUuid_apply (e : Env) : genUuid e =
    .ok (RecordId.cut (uuidText (drawnCounter e) (drawnClock e)),
      { e with uuids := e.uuids + 1, time := e.time.tail }) := rfl

theorem text_drawn (c t : ℕ) :
    (RecordId.cut (uuidText c t)).text = uuidText c t ∧ (uuidText c t).length = 36 := by
  have hlen : (uuidText c t).length = 36 := by
    rw [uuidText_eq, String.length_ofList]
    exact length_hexDashed rfl
  refine ⟨?_, hlen⟩
  change String.ofList ((uuidText c t).toList.take 36) = _
  rw [List.take_of_length_le (by rw [String.length_toList, hlen]), String.ofList_toList]

theorem genUuid_distinct {e e' e₁ e₁' : Env} {id id' : RecordId} (h : genUuid e = .ok (id, e₁))
    (h' : genUuid e' = .ok (id', e₁')) (hne : drawnCounter e ≠ drawnCounter e')
    (hc : drawnCounter e < 2 ^ 32) (hc' : drawnCounter e' < 2 ^ 32)
    (ht : drawnClock e < 2 ^ 34) (ht' : drawnClock e' < 2 ^ 34) :
    id.text ≠ id'.text ∧ id.text.length = 36 ∧ id'.text.length = 36 := by
  rw [genUuid_apply] at h h'
  have hid := (Prod.mk.inj (Except.ok.inj h)).1
  have hid' := (Prod.mk.inj (Except.ok.inj h')).1
  obtain ⟨htext, hlen⟩ := text_drawn (drawnCounter e) (drawnClock e)
  obtain ⟨htext', hlen'⟩ := text_drawn (drawnCounter e') (drawnClock e')
  rw [← hid, ← hid', htext, htext']
  exact ⟨uuidText_ne hc hc' ht ht' hne, hlen, hlen'⟩

/-- The first two ids of a process. -/
theorem genUuid_distinct_first : ∃ id id' e₁ e₂, genUuid Env.quiet = .ok (id, e₁) ∧
    genUuid e₁ = .ok (id', e₂) ∧ id.text ≠ id'.text := by
  have hfirst := genUuid_apply Env.quiet
  have hsecond := genUuid_apply { Env.quiet with uuids := 1, time := Env.quiet.time.tail }
  exact ⟨_, _, _, _, hfirst, hsecond, (genUuid_distinct hfirst hsecond (by decide) (by decide)
    (by decide) (by decide) (by decide)).1⟩

end ids

end Nssf.Subscription
