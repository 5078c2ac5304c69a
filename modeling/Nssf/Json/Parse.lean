import Nssf.Json.Print

/-! The bundled parser. It reads one value from the start of the text and leaves what follows
unread; bytes up to the space count as blanks; a bad `\u` escape reads as the code zero, and
the zero byte ends the string it stands in. A text is the list of its bytes before the
terminator, so running out of bytes is meeting the terminator. -/

namespace Nssf.Json

open Base

def nestingLimit : ℕ := 1000

def skipWhitespace (cs : List Char) : List Char := cs.dropWhile fun c => c.toNat ≤ 32

def skipUtf8Bom (cs : List Char) : List Char :=
  match cs with
  | '\xef' :: '\xbb' :: '\xbf' :: c :: rest => c :: rest
  | _ => cs

def hexVal (c : Char) : Option ℕ :=
  if '0' ≤ c ∧ c ≤ '9' then some (c.toNat - '0'.toNat)
  else if 'A' ≤ c ∧ c ≤ 'F' then some (10 + c.toNat - 'A'.toNat)
  else if 'a' ≤ c ∧ c ≤ 'f' then some (10 + c.toNat - 'a'.toNat)
  else none

def parseHex4 (a b c d : Char) : ℕ :=
  match hexVal a, hexVal b, hexVal c, hexVal d with
  | some a, some b, some c, some d => ((a * 16 + b) * 16 + c) * 16 + d
  | _, _, _, _ => 0

def utf8Bytes (n : ℕ) : List Char :=
  if n < 0x80 then [Char.ofNat n]
  else if n < 0x800 then [Char.ofNat (0xc0 + n / 64), Char.ofNat (0x80 + n % 64)]
  else if n < 0x10000 then
    [Char.ofNat (0xe0 + n / 4096), Char.ofNat (0x80 + n / 64 % 64), Char.ofNat (0x80 + n % 64)]
  else
    [Char.ofNat (0xf0 + n / 262144), Char.ofNat (0x80 + n / 4096 % 64),
      Char.ofNat (0x80 + n / 64 % 64), Char.ofNat (0x80 + n % 64)]

def utf16LiteralToUtf8 (h : ℕ) (rest : List Char) : Option (List Char × List Char) :=
  if 0xdc00 ≤ h ∧ h ≤ 0xdfff then none
  else if 0xd800 ≤ h ∧ h ≤ 0xdbff then
    match rest with
    | '\\' :: 'u' :: a :: b :: c :: d :: rest =>
      let l := parseHex4 a b c d
      if l < 0xdc00 ∨ 0xdfff < l then none
      else some (utf8Bytes (0x10000 + (h % 0x400) * 0x400 + l % 0x400), rest)
    | _ => none
  else some (utf8Bytes h, rest)

/-- The bytes of a literal up to its closing quote, and what follows the quote. -/
def scanLiteral : List Char → Option (List Char × List Char)
  | [] => none
  | '"' :: rest => some ([], rest)
  | '\\' :: c :: rest => (scanLiteral rest).map fun r => ('\\' :: c :: r.1, r.2)
  | c :: rest => (scanLiteral rest).map fun r => (c :: r.1, r.2)

/-- The unescaped literal. After a bad `\u` the reading position may split an escape, so a
last backslash can meet the closing quote. -/
def unescape : ℕ → List Char → Option (List Char)
  | 0, _ => some []
  | _, [] => some []
  | n + 1, '\\' :: 'u' :: a :: b :: c :: d :: rest => do
    let (out, rest) ← utf16LiteralToUtf8 (parseHex4 a b c d) rest
    let tail ← unescape n rest
    return out ++ tail
  | n + 1, '\\' :: c :: rest => do
    let out ← match c with
      | 'b' => some '\x08'
      | 'f' => some '\x0c'
      | 'n' => some '\n'
      | 'r' => some '\r'
      | 't' => some '\t'
      | '"' => some '"'
      | '\\' => some '\\'
      | '/' => some '/'
      | _ => none
    let tail ← unescape n rest
    return out :: tail
  | _, ['\\'] => some ['"']
  | n + 1, c :: rest => (unescape n rest).map (c :: ·)

def cutAtNul (cs : List Char) : List Char := cs.takeWhile fun c => c != '\x00'

def parseString : List Char → Option (String × List Char)
  | '"' :: rest => do
    let (body, rest) ← scanLiteral rest
    let out ← unescape body.length body
    return (String.ofList (cutAtNul out), rest)
  | _ => none

def isNumberChar (c : Char) : Bool :=
  Binary64.isDigit c || c == '+' || c == '-' || c == 'e' || c == 'E' || c == '.'

/-- The number is read from a buffer of at most 63 bytes. -/
def parseNumber (cs : List Char) : Option (Json × List Char) :=
  let buf := (cs.take 63).takeWhile isNumberChar
  (Binary64.strtod buf).map fun (d, rest) => (.number d, cs.drop (buf.length - rest.length))

def parseItems (value : List Char → Option (Json × List Char)) :
    ℕ → List Char → Option (List Json × List Char)
  | 0, _ => none
  | n + 1, cs => do
    let (v, rest) ← value (skipWhitespace cs)
    match skipWhitespace rest with
    | ',' :: rest =>
      let (vs, rest) ← parseItems value n rest
      return (v :: vs, rest)
    | ']' :: rest => return ([v], rest)
    | _ => none

def parseMembers (value : List Char → Option (Json × List Char)) :
    ℕ → List Char → Option (List (String × Json) × List Char)
  | 0, _ => none
  | n + 1, cs => do
    let (k, rest) ← parseString (skipWhitespace cs)
    match skipWhitespace rest with
    | ':' :: rest =>
      let (v, rest) ← value (skipWhitespace rest)
      match skipWhitespace rest with
      | ',' :: rest =>
        let (ms, rest) ← parseMembers value n rest
        return ((k, v) :: ms, rest)
      | '}' :: rest => return ([(k, v)], rest)
      | _ => none
    | _ => none

def parseArray (value : List Char → Option (Json × List Char)) (cs : List Char) :
    Option (Json × List Char) :=
  match skipWhitespace cs with
  | ']' :: rest => some (.array [], rest)
  | cs => (parseItems value (cs.length + 1) cs).map fun r => (.array r.1, r.2)

def parseObject (value : List Char → Option (Json × List Char)) (cs : List Char) :
    Option (Json × List Char) :=
  match skipWhitespace cs with
  | '}' :: rest => some (.object [], rest)
  | cs => (parseMembers value (cs.length + 1) cs).map fun r => (.object r.1, r.2)

/-- `parse_value` with `depth` levels of nesting left. -/
def parseValue : ℕ → List Char → Option (Json × List Char)
  | _, 'n' :: 'u' :: 'l' :: 'l' :: rest => some (.null, rest)
  | _, 'f' :: 'a' :: 'l' :: 's' :: 'e' :: rest => some (.bool false, rest)
  | _, 't' :: 'r' :: 'u' :: 'e' :: rest => some (.bool true, rest)
  | _, '"' :: rest => (parseString ('"' :: rest)).map fun r => (.string r.1, r.2)
  | depth + 1, '[' :: rest => parseArray (parseValue depth) rest
  | depth + 1, '{' :: rest => parseObject (parseValue depth) rest
  | _, c :: rest =>
    if c = '-' ∨ Binary64.isDigit c = true then parseNumber (c :: rest) else none
  | _, [] => none

/-- `cJSON_Parse` when its nodes can be had. -/
def parseText (s : String) : Option Json :=
  (parseValue nestingLimit (skipWhitespace (skipUtf8Bom s.toList))).map Prod.fst

end Nssf.Json
