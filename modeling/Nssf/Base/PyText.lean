import Mathlib.Data.List.DropRight
import Mathlib.Data.Nat.Notation

/-! Characters and strings as Python classifies and trims them. -/

namespace Nssf.Base.PyText

/-- `str.isspace`, which is also what `\s` stands for. -/
def isSpace (c : Char) : Bool :=
  let n := c.toNat
  (9 ≤ n && n ≤ 13) || (28 ≤ n && n ≤ 32) || n == 0x85 || n == 0xA0 || n == 0x1680 ||
    (0x2000 ≤ n && n ≤ 0x200A) || n == 0x2028 || n == 0x2029 || n == 0x202F || n == 0x205F ||
    n == 0x3000

/-- The zeros of the decimal digits; the other nine follow each of them. -/
def decimalZeros : List ℕ :=
  [0x30, 0x660, 0x6F0, 0x7C0, 0x966, 0x9E6, 0xA66, 0xAE6, 0xB66, 0xBE6, 0xC66, 0xCE6, 0xD66,
    0xDE6, 0xE50, 0xED0, 0xF20, 0x1040, 0x1090, 0x17E0, 0x1810, 0x1946, 0x19D0, 0x1A80, 0x1A90,
    0x1B50, 0x1BB0, 0x1C40, 0x1C50, 0xA620, 0xA8D0, 0xA900, 0xA9D0, 0xA9F0, 0xAA50, 0xABF0,
    0xFF10, 0x104A0, 0x10D30, 0x11066, 0x110F0, 0x11136, 0x111D0, 0x112F0, 0x11450, 0x114D0,
    0x11650, 0x116C0, 0x11730, 0x118E0, 0x11950, 0x11C50, 0x11D50, 0x11DA0, 0x16A60, 0x16AC0,
    0x16B50, 0x1D7CE, 0x1D7D8, 0x1D7E2, 0x1D7EC, 0x1D7F6, 0x1E140, 0x1E2F0, 0x1E950, 0x1FBF0]

/-- The value of a decimal digit. -/
def digit? (c : Char) : Option ℕ :=
  (decimalZeros.find? fun z => z ≤ c.toNat && c.toNat < z + 10).map fun z => c.toNat - z

/-- `\d`. -/
def isDigit (c : Char) : Bool := (digit? c).isSome

/-- `int` of a string of digits. -/
def intOf (cs : List Char) : ℕ := cs.foldl (fun n c => 10 * n + (digit? c).getD 0) 0

/-- `%02d`. -/
def twoDigits (n : ℕ) : String := if n < 10 then "0" ++ toString n else toString n

def rstrip (cs : List Char) : List Char := cs.rdropWhile isSpace

def lstrip (cs : List Char) : List Char := cs.dropWhile isSpace

def strip (cs : List Char) : List Char := lstrip (rstrip cs)

def rstripText (s : String) : String := String.ofList (rstrip s.toList)

def stripText (s : String) : String := String.ofList (strip s.toList)

/-- `"\n".join`. -/
def joinLines (ls : List String) : String := "\n".intercalate ls

end Nssf.Base.PyText
