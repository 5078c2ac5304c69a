import Nssf.Base.Base64Url
import Nssf.OAuth.Outbound
import Nssf.Runtime.Allocating

/-! The decoding of a token's payload. The accumulator is never cleared; what it gives out at each
step depends on its last bits alone, and those are the ones that were shifted in last. -/

namespace Nssf.OAuth

open Base Base64Url Run

section symbols

theorem decodeByte_symbol : ∀ v < 64, b64urlDecodeByte (symbol v) = some v := by
  decide

theorem symbol_ne_dot : ∀ v < 64, symbol v ≠ '.' := by
  decide

theorem dot_notMem_encode (bytes : List UInt8) : '.' ∉ encode bytes := by
  intro h
  obtain ⟨v, hv, hdot⟩ := mem_encode h
  exact symbol_ne_dot v hv hdot.symm

end symbols

section loop

variable {rest : List Char} {v acc bits : ℕ}

/-- The accumulator with six more bits, in the width that it has. -/
def shiftIn (acc v : ℕ) : ℕ := (acc * 64 + v) % 2 ^ 32

theorem b64urlLoop_fill (hv : v < 64) (hbits : bits + 6 < 8) :
    b64urlLoop (symbol v :: rest) acc bits = b64urlLoop rest (shiftIn acc v) (bits + 6) := by
  rw [b64urlLoop, decodeByte_symbol v hv, Option.bind_eq_bind, Option.bind_some,
    if_neg (by omega), shiftIn]

theorem b64urlLoop_emit (hv : v < 64) (hbits : 8 ≤ bits + 6) :
    b64urlLoop (symbol v :: rest) acc bits =
      (b64urlLoop rest (shiftIn acc v) (bits - 2)).map
        fun tail => Char.ofNat (shiftIn acc v / 2 ^ (bits - 2) % 256) :: tail := by
  have hleft : bits + 6 - 8 = bits - 2 := by omega
  rw [b64urlLoop, decodeByte_symbol v hv, Option.bind_eq_bind, Option.bind_some, if_pos hbits,
    hleft, shiftIn]
  exact (Option.map_eq_bind ..).symm

/-- The byte of two symbols does not depend on what the accumulator held before them. -/
theorem shiftIn_first {a : ℕ} (ha : a < 256) {x : ℕ} (hx : x < 16) (acc : ℕ) :
    shiftIn (shiftIn acc (a / 4)) (a % 4 * 16 + x) / 2 ^ (6 - 2) % 256 = a := by
  simp only [shiftIn, Nat.reducePow, Nat.reduceSub]
  omega

theorem shiftIn_second {b : ℕ} (hb : b < 256) {x y : ℕ} (hy : y < 4) (acc : ℕ) :
    shiftIn (shiftIn acc (x * 16 + b / 16)) (b % 16 * 4 + y) / 2 ^ (6 - 2 - 2) % 256 = b := by
  simp only [shiftIn, Nat.reducePow, Nat.reduceSub]
  omega

theorem shiftIn_third {c : ℕ} (hc : c < 256) {x : ℕ} (acc : ℕ) :
    shiftIn (shiftIn acc (x * 4 + c / 64)) (c % 64) / 2 ^ (6 - 2 - 2 - 2) % 256 = c := by
  simp only [shiftIn, Nat.reducePow, Nat.reduceSub]
  omega

/-- An encoding is decoded from the start of any block. -/
theorem b64urlLoop_encode (bytes : List UInt8) (acc : ℕ) :
    b64urlLoop (encode bytes) acc 0 = some (text bytes) := by
  have hbyte (x : UInt8) : x.toNat < 256 := x.toNat_lt
  induction bytes using encode.induct generalizing acc with
  | case1 a b c rest ih =>
    have ha := hbyte a
    have hb := hbyte b
    have hc := hbyte c
    rw [encode, b64urlLoop_fill (by omega) (by omega), b64urlLoop_emit (by omega) (by omega),
      b64urlLoop_emit (by omega) (by omega), b64urlLoop_emit (by omega) (by omega),
      shiftIn_first ha (by omega), shiftIn_second hb (by omega), shiftIn_third hc, ih]
    rfl
  | case2 a b =>
    have ha := hbyte a
    have hb := hbyte b
    rw [encode, b64urlLoop_fill (by omega) (by omega), b64urlLoop_emit (by omega) (by omega),
      b64urlLoop_emit (by omega) (by omega), shiftIn_first ha (by omega)]
    have hlast := shiftIn_second (x := a.toNat % 4) hb (by decide : 0 < 4)
      (shiftIn acc (a.toNat / 4))
    rw [Nat.add_zero] at hlast
    rw [hlast]
    rfl
  | case3 a =>
    have ha := hbyte a
    rw [encode, b64urlLoop_fill (by omega) (by omega), b64urlLoop_emit (by omega) (by omega)]
    have hlast := shiftIn_first ha (by decide : 0 < 16) acc
    rw [Nat.add_zero] at hlast
    rw [hlast]
    rfl
  | case4 => rfl

end loop

section buffer

/-- A byte that is written to a buffer. -/
def putByte (buf : List Char) (o : ℕ) (c : Char) : Except Fault (List Char) :=
  if o < buf.length then .ok (buf.set o c) else .error .outOfBounds

/-- The loop with the buffer that it fills, from the place `o` on. -/
def decodeInto : List Char → List Char → ℕ → UInt32 → ℕ → Except Fault (Option (List Char))
  | [], buf, o, _, _ => (putByte buf o '\x00').map some
  | c :: rest, buf, o, acc, bits =>
    match b64urlDecodeByte c with
    | none => .ok none
    | some v =>
      let acc := (acc <<< 6) ||| UInt32.ofNat v
      let bits := bits + 6
      if 8 ≤ bits then
        let bits := bits - 8
        (putByte buf o (Char.ofNat ((acc >>> UInt32.ofNat bits) &&& 0xff).toNat)).bind fun buf =>
          decodeInto rest buf (o + 1) acc bits
      else decodeInto rest buf o acc bits

theorem toNat_shiftIn (acc : UInt32) {v : ℕ} (hv : v < 64) :
    ((acc <<< 6) ||| UInt32.ofNat v).toNat = shiftIn acc.toNat v := by
  have hacc := acc.toNat_lt
  have hsmall : (UInt32.ofNat v).toNat = v := UInt32.toNat_ofNat_of_lt' (by
    simp only [UInt32.size]
    omega)
  have hshift : acc.toNat <<< 6 % 2 ^ 32 = (acc.toNat % 2 ^ 26) <<< 6 := by
    simp only [Nat.shiftLeft_eq, Nat.reducePow]
    omega
  rw [UInt32.toNat_or, UInt32.toNat_shiftLeft, hsmall]
  change acc.toNat <<< 6 % 2 ^ 32 ||| v = _
  rw [hshift, ← Nat.shiftLeft_add_eq_or_of_lt (by omega : v < 2 ^ 6), shiftIn, Nat.shiftLeft_eq]
  simp only [Nat.reducePow]
  omega

theorem toNat_byte (acc : UInt32) {bits : ℕ} (hbits : bits < 32) :
    ((acc >>> UInt32.ofNat bits) &&& 0xff).toNat = acc.toNat / 2 ^ bits % 256 := by
  have hsmall : (UInt32.ofNat bits).toNat = bits := UInt32.toNat_ofNat_of_lt' (by
    simp only [UInt32.size]
    omega)
  rw [UInt32.toNat_and, UInt32.toNat_shiftRight, hsmall, Nat.mod_eq_of_lt hbits,
    Nat.shiftRight_eq_div_pow]
  change _ &&& (2 ^ 8 - 1) = _
  rw [Nat.and_two_pow_sub_one_eq_mod]

theorem decodeByte_lt {c : Char} {v : ℕ} (h : b64urlDecodeByte c = some v) : v < 64 := by
  have hle {x y : Char} (hxy : x ≤ y) : x.toNat ≤ y.toNat := hxy
  unfold b64urlDecodeByte at h
  split_ifs at h with hupper hlower hdigit
  · have hlow := hle hupper.1
    have hhigh := hle hupper.2
    have hv := Option.some.inj h
    simp only [Char.reduceToNat] at hlow hhigh hv
    omega
  · have hlow := hle hlower.1
    have hhigh := hle hlower.2
    have hv := Option.some.inj h
    simp only [Char.reduceToNat] at hlow hhigh hv
    omega
  · have hlow := hle hdigit.1
    have hhigh := hle hdigit.2
    have hv := Option.some.inj h
    simp only [Char.reduceToNat] at hlow hhigh hv
    omega
  · have hv := Option.some.inj h
    omega
  · have hv := Option.some.inj h
    omega

/-- With room for the bytes and the terminator the loop fills the buffer and stays within it. -/
theorem decodeInto_eq {cs buf : List Char} {o bits : ℕ} {acc : UInt32} (hbits : bits < 8)
    (hroom : 8 * o + bits + 6 * cs.length < 8 * buf.length) :
    decodeInto cs buf o acc bits =
      .ok ((b64urlLoop cs acc.toNat bits).map fun out =>
        buf.take o ++ (out ++ '\x00' :: buf.drop (o + out.length + 1))) := by
  induction cs generalizing buf o acc bits with
  | nil =>
    have ho : o < buf.length := by
      rw [List.length_nil] at hroom
      omega
    rw [decodeInto, putByte, if_pos ho, b64urlLoop, Option.map_some, Except.map,
      List.set_eq_take_append_cons_drop, if_pos ho]
    rfl
  | cons c rest ih =>
    rw [List.length_cons] at hroom
    rw [decodeInto, b64urlLoop]
    cases hc : b64urlDecodeByte c with
    | none => rfl
    | some v =>
      have hv := decodeByte_lt hc
      simp only [Option.bind_eq_bind, Option.bind_some]
      have hacc := toNat_shiftIn acc hv
      split_ifs with hfull
      · have ho : o < buf.length := by omega
        rw [putByte, if_pos ho, Except.bind, ih (by omega) (by rw [List.length_set]; omega), hacc,
          toNat_byte _ (by omega), hacc, ← shiftIn]
        cases b64urlLoop rest (shiftIn acc.toNat v) (bits + 6 - 8) with
        | none => rfl
        | some out =>
          have htake {x : Char} : (buf.set o x).take (o + 1) = buf.take o ++ [x] := by
            have ho' : o < (buf.set o x).length := by rwa [List.length_set]
            rw [List.take_succ_eq_append_getElem ho', List.take_set_of_le (Nat.le_refl o),
              List.getElem_set_self]
          have hdrop {x : Char} : (buf.set o x).drop (o + 1 + out.length + 1) =
              buf.drop (o + (out.length + 1) + 1) := by
            rw [List.drop_set_of_lt (by omega)]
            congr 1
            omega
          simp only [Option.map_some, htake, hdrop, List.append_assoc, List.singleton_append]
          rfl
      · rw [ih (by omega) (by omega), hacc, shiftIn]

end buffer

section token

variable {header payload signature : List Char}

theorem dropWhile_dot (hheader : '.' ∉ header) (rest : List Char) :
    (header ++ '.' :: rest).dropWhile (· != '.') = '.' :: rest := by
  have hall : ∀ c ∈ header, (c != '.') = true := by
    intro c hc
    rw [bne_iff_ne]
    rintro rfl
    exact hheader hc
  rw [List.dropWhile_append_of_pos hall, List.dropWhile_cons_of_neg (by simp)]

/-- The second of three parts is the payload. -/
theorem jwsPayload_parts (hheader : '.' ∉ header) (hpayload : '.' ∉ payload) :
    jwsPayload (header ++ '.' :: (payload ++ '.' :: signature)) = some payload := by
  have hall : ∀ c ∈ payload, (c != '.') = true := by
    intro c hc
    rw [bne_iff_ne]
    rintro rfl
    exact hpayload hc
  have htake : (payload ++ '.' :: signature).takeWhile (· != '.') = payload := by
    rw [List.takeWhile_append_of_pos hall, List.takeWhile_cons_of_neg (by simp), List.append_nil]
  have hdot : (payload ++ '.' :: signature).contains '.' = true := by simp
  unfold jwsPayload
  rw [dropWhile_dot hheader]
  simp only [hdot, if_true, htake]

theorem yields_jwsExp_parts {text : List Char} (hheader : '.' ∉ header) (hpayload : '.' ∉ payload)
    (hdecode : b64urlLoop payload 0 0 = some text) :
    Yields (jwsExp (String.ofList (header ++ '.' :: (payload ++ '.' :: signature))))
      (jsonGetNumber (Json.cutAtNul text) "exp".toList) := by
  have hrun : Yields (b64urlDecode payload) (some text) := by
    refine Yields.bind yields_alloc ?_
    rw [if_pos rfl, hdecode]
    exact yields_pure _
  unfold jwsExp
  rw [String.toList_ofList, jwsPayload_parts hheader hpayload]
  exact Yields.bind hrun (yields_pure _)

end token

/-- An encoding is decoded to its bytes with a terminator behind them, no text is decoded past
the end of its buffer, and the expiry of a token is the one in the payload that was encoded. -/
theorem b64urlDecode_encode (bytes : List UInt8) :
    (∀ buf : List Char, buf.length = (encode bytes).length + 4 →
      decodeInto (encode bytes) buf 0 0 0 =
        .ok (some (text bytes ++ '\x00' :: buf.drop (bytes.length + 1)))) ∧
    (∀ cs buf : List Char, buf.length = cs.length + 4 →
      ∃ found, decodeInto cs buf 0 0 0 = .ok found) ∧
    ∀ header signature : List Char, '.' ∉ header →
      Yields (jwsExp (String.ofList (header ++ '.' :: (encode bytes ++ '.' :: signature))))
        (jsonGetNumber (Json.cutAtNul (text bytes)) "exp".toList) := by
  have hdecode := b64urlLoop_encode bytes 0
  refine ⟨fun buf hbuf => ?_, fun cs buf hbuf => ?_, fun header signature hheader => ?_⟩
  · have hlength : (text bytes).length = bytes.length := List.length_map _
    have hzero : (0 : UInt32).toNat = 0 := rfl
    rw [decodeInto_eq (by decide) (by omega), hzero, hdecode, Option.map_some, hlength,
      List.take_zero, Nat.zero_add, List.nil_append]
  · exact ⟨_, decodeInto_eq (by decide) (by omega)⟩
  · exact yields_jwsExp_parts hheader (dot_notMem_encode bytes) hdecode

/-- The payload is an object with the expiry 7. -/
theorem jwsExp_seven : Yields
    (jwsExp (String.ofList ("h".toList ++
      '.' :: (encode [123, 34, 101, 120, 112, 34, 58, 55, 125] ++ '.' :: "s".toList)))) (some 7) :=
  (b64urlDecode_encode [123, 34, 101, 120, 112, 34, 58, 55, 125]).2.2 "h".toList "s".toList
    (by decide)

end Nssf.OAuth
