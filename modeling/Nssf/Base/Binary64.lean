import Mathlib.Algebra.Group.Nat.Defs
import Mathlib.Data.Nat.Log

/-! Double precision numbers as the C library reads and prints them. A number is a sign and
the bit pattern of its magnitude, so the order of magnitudes is the order of naturals and
the last magnitude is infinity. There is no NaN: no decimal text denotes one. -/

namespace Nssf.Base

def infMag : ℕ := 2047 * 2 ^ 52

structure Binary64 where
  neg : Bool
  mag : Fin (infMag + 1)
  deriving DecidableEq, Repr

namespace Binary64

def clampMag (m : ℕ) : Fin (infMag + 1) := ⟨min m infMag, by omega⟩

instance : Inhabited Binary64 := ⟨false, clampMag 0⟩

def isInf (x : Binary64) : Bool := x.mag.val == infMag

def exponent (m : ℕ) : ℕ := m / 2 ^ 52 - 1

def significand (m : ℕ) : ℕ := m - exponent m * 2 ^ 52

/-- The magnitude in units of `2 ^ (-1074)`, the least subnormal. -/
def scaled (x : Binary64) : ℕ := significand x.mag * 2 ^ exponent x.mag

def roundDiv (num den : ℕ) : ℕ :=
  let q := num / den
  let r := num % den
  if 2 * r < den then q else if den < 2 * r then q + 1 else q + q % 2

def roundMag (num den : ℕ) : Fin (infMag + 1) :=
  let n := num * 2 ^ 1074
  let k := Nat.log2 (n / den) - 52
  clampMag (k * 2 ^ 52 + roundDiv n (den * 2 ^ k))

/-- `digits * 10 ^ e`. Texts far outside the double range are decided by their length, so
that the power of ten stays small. -/
def ofDecimal (neg : Bool) (digits : ℕ) (e : ℤ) : Binary64 :=
  let len : ℤ := (Nat.toDigits 10 digits).length
  if digits = 0 ∨ len + e < -400 then ⟨neg, clampMag 0⟩
  else if 400 < len + e then ⟨neg, clampMag infMag⟩
  else if 0 ≤ e then ⟨neg, roundMag (digits * 10 ^ e.toNat) 1⟩
  else ⟨neg, roundMag digits (10 ^ (-e).toNat)⟩

def ofNat (n : ℕ) : Binary64 := ofDecimal false n 0

def eqC (x y : Binary64) : Bool :=
  x.mag == y.mag && (x.neg == y.neg || x.mag.val == 0)

/-- Conversion to `int`, towards zero and saturated at both ends. -/
def toInt32 (x : Binary64) : ℤ :=
  let n := x.scaled / 2 ^ 1074
  if x.neg then -(min n (2 ^ 31) : ℕ) else (min n (2 ^ 31 - 1) : ℕ)

def decimalExponent (n : ℕ) : ℤ :=
  (Nat.toDigits 10 (n * 10 ^ 324 / 2 ^ 1074)).length - 325

def toDecimal (p n : ℕ) : ℕ × ℤ :=
  let x := decimalExponent n
  let e := x - p + 1
  let d := if 0 ≤ e then roundDiv n (2 ^ 1074 * 10 ^ e.toNat)
    else roundDiv (n * 10 ^ (-e).toNat) (2 ^ 1074)
  if d = 10 ^ p then (10 ^ (p - 1), x + 1) else (d, x)

def stripZeros (cs : List Char) : List Char :=
  (cs.reverse.dropWhile (· == '0')).reverse

def withFraction (whole frac : List Char) : List Char :=
  if frac.isEmpty then whole else whole ++ '.' :: frac

def exponentChars (x : ℤ) : List Char :=
  let ds := Nat.toDigits 10 x.natAbs
  (if x < 0 then '-' else '+') :: (if ds.length < 2 then '0' :: ds else ds)

/-- The digits of `%1.<p>g` for a positive number: fixed notation for exponents from `-4`
below the precision, scientific notation otherwise, trailing zeros removed. -/
def generalDigits (p n : ℕ) : List Char :=
  let (d, x) := toDecimal p n
  let ds := Nat.toDigits 10 d
  if -4 ≤ x ∧ x < p then
    if 0 ≤ x then
      withFraction (ds.take (x.toNat + 1)) (stripZeros (ds.drop (x.toNat + 1)))
    else
      withFraction ['0'] (stripZeros (List.replicate ((-x).toNat - 1) '0' ++ ds))
  else
    withFraction (ds.take 1) (stripZeros (ds.drop 1)) ++ 'e' :: exponentChars x

/-- `printf("%1.<p>g")` of a finite number. -/
def printG (p : ℕ) (x : Binary64) : List Char :=
  (if x.neg then ['-'] else []) ++
    (if x.mag.val = 0 then ['0'] else generalDigits p x.scaled)

structure Decimal where
  neg : Bool
  digits : ℕ
  exponent : ℤ
  rest : List Char

def isDigit (c : Char) : Bool := '0' ≤ c && c ≤ '9'

def digitsVal (ds : List Char) : ℕ :=
  ds.foldl (fun n c => 10 * n + (c.toNat - '0'.toNat)) 0

def scanExponent (cs : List Char) : ℤ × List Char :=
  match cs with
  | c :: rest =>
    if c = 'e' ∨ c = 'E' then
      let (neg, ds) := match rest with
        | '-' :: r => (true, r)
        | '+' :: r => (false, r)
        | r => (false, r)
      let v : ℤ := digitsVal (ds.takeWhile isDigit)
      if (ds.takeWhile isDigit).isEmpty then (0, cs)
      else (if neg then -v else v, ds.dropWhile isDigit)
    else (0, cs)
  | [] => (0, cs)

def scanDecimal (cs : List Char) : Option Decimal :=
  let (neg, body) := match cs with
    | '-' :: r => (true, r)
    | '+' :: r => (false, r)
    | r => (false, r)
  let whole := body.takeWhile isDigit
  let (frac, rest) := match body.dropWhile isDigit with
    | '.' :: r => (r.takeWhile isDigit, r.dropWhile isDigit)
    | r => ([], r)
  if whole.isEmpty && frac.isEmpty then none
  else
    let (e, rest) := scanExponent rest
    some ⟨neg, digitsVal (whole ++ frac), e - frac.length, rest⟩

/-- `strtod` on a text of digits, signs, points and exponent marks: the value and what
follows it, or nothing where no digit is read. -/
def strtod (cs : List Char) : Option (Binary64 × List Char) :=
  (scanDecimal cs).map fun d => (ofDecimal d.neg d.digits d.exponent, d.rest)

theorem eqC_refl (x : Binary64) : x.eqC x = true := by
  simp [eqC]

end Binary64

end Nssf.Base
