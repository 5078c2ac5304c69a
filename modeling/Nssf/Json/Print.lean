import Nssf.Json.Value

/-! Unformatted printing of a tree. Numbers are printed with fifteen significant digits, and
with seventeen where reading the shorter text back does not give the number. -/

namespace Nssf.Json

open Base

def hexDigit (n : ℕ) : Char := Nat.digitChar n

def escapeChar (c : Char) : List Char :=
  if c = '"' then ['\\', '"']
  else if c = '\\' then ['\\', '\\']
  else if c = '\x08' then ['\\', 'b']
  else if c = '\x0c' then ['\\', 'f']
  else if c = '\n' then ['\\', 'n']
  else if c = '\r' then ['\\', 'r']
  else if c = '\t' then ['\\', 't']
  else if c.toNat < 32 then
    ['\\', 'u', '0', '0', hexDigit (c.toNat / 16), hexDigit (c.toNat % 16)]
  else [c]

def printString (s : String) : List Char :=
  '"' :: (s.toList.flatMap escapeChar ++ ['"'])

def printNumber (d : Binary64) : List Char :=
  if d.isInf then "null".toList
  else
    let short := d.printG 15
    match Binary64.strtod short with
    | some (back, _) => if back.eqC d then short else d.printG 17
    | none => d.printG 17

mutual

def printValue : Json → List Char
  | .null => "null".toList
  | .bool false => "false".toList
  | .bool true => "true".toList
  | .number d => printNumber d
  | .string s => printString s
  | .array xs => '[' :: (printItems xs ++ [']'])
  | .object ms => '{' :: (printMembers ms ++ ['}'])

def printItems : List Json → List Char
  | [] => []
  | x :: xs => printValue x ++ (if xs.isEmpty then [] else ',' :: printItems xs)

def printMembers : List (String × Json) → List Char
  | [] => []
  | (k, x) :: ms =>
    printString k ++ ':' :: (printValue x ++ (if ms.isEmpty then [] else ',' :: printMembers ms))

end

/-- `cJSON_PrintUnformatted` when its buffers can be had. -/
def printText (j : Json) : String := String.ofList (printValue j)

theorem printText_object (ms : List (String × Json)) :
    (printText (.object ms)).toList = '{' :: (printMembers ms ++ ['}']) := by
  simp only [printText, printValue, String.toList_ofList]

end Nssf.Json
