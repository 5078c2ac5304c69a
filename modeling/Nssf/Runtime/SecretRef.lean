import Nssf.Base.Blocks
import Mathlib.Data.List.Infix
import Mathlib.Data.List.Forall2
import Mathlib.Data.List.Nodup

/-! The resolver of secret references, with the memory the secret passes through: what a caller
is given, and what is left behind in the blocks that were freed. -/

namespace Nssf

open Base Base.Blocks

namespace SecretRef

inductive Status where
  | ok
  | badFormat
  | notFound
  | ioError
  | tooLarge
  deriving DecidableEq

def maxBytes : ℕ := 64 * 1024

/-- What opening a file comes to. With `broken` there is an error to be read behind the bytes. -/
inductive Opened where
  | missing
  | refused
  | stream (bytes : List Char) (broken : Bool)

/-- What a call finds outside: `first` and `second` are the answers to its allocations. -/
structure World where
  getenv : List Char → Option (List Char)
  fopen : List Char → Opened
  first : Bool
  second : Bool

/-- The status with the pointer and the length that are handed out. -/
abbrev Outcome := Status × Option (ℕ × ℕ)

def secureScrub (buf len : ℕ) : Act Char Unit :=
  if 0 < len then memset buf '\x00' len else pure ()

def scrubFree (secret : Option ℕ) (len : ℕ) : Act Char Unit :=
  match secret with
  | none => pure ()
  | some buf => do
    secureScrub buf len
    free buf

def copyOut (value : List Char) (granted : Bool) : Act Char Outcome := do
  match ← malloc (value.length + 1) granted with
  | none => return (.ioError, none)
  | some buf =>
    write buf 0 value
    write buf value.length ['\x00']
    return (.ok, some (buf, value.length))

def resolveEnv (w : World) (name : List Char) : Act Char Outcome :=
  if name = [] then pure (.badFormat, none)
  else
    match w.getenv name with
    | none => pure (.notFound, none)
    | some value =>
      if maxBytes < value.length then pure (.tooLarge, none)
      else copyOut value w.first

def stripOneTrailingNewline (buf len : ℕ) : Act Char ℕ := do
  if len = 0 then return len
  if (← get buf (len - 1)) ≠ '\n' then return len
  if len - 1 = 0 then return len - 1
  if (← get buf (len - 2)) ≠ '\r' then return len - 1
  return len - 2

def fread (fp buf n : ℕ) (bytes : List Char) : Act Char ℕ := do
  let _ ← within fp 0
  write buf 0 (bytes.take n)
  return (bytes.take n).length

/-- The copy of exact size, once the buffer holds the whole file. -/
def exactCopy (buf total : ℕ) (granted : Bool) : Act Char Outcome := do
  let len ← stripOneTrailingNewline buf total
  write buf len ['\x00']
  match ← malloc (len + 1) granted with
  | none =>
    secureScrub buf total
    free buf
    return (.ioError, none)
  | some exact =>
    write exact 0 (← read buf len)
    write exact len ['\x00']
    secureScrub buf total
    free buf
    return (.ok, some (exact, len))

/-- The stream is an object of the library and is given back like a block. -/
def afterRead (w : World) (fp buf total : ℕ) (failed : Bool) : Act Char Outcome :=
  if failed then do
    secureScrub buf total
    free buf
    free fp
    return (.ioError, none)
  else do
    free fp
    if maxBytes < total then
      secureScrub buf total
      free buf
      return (.tooLarge, none)
    else exactCopy buf total w.second

def readStream (w : World) (fp : ℕ) (bytes : List Char) (broken : Bool) : Act Char Outcome := do
  match ← malloc (maxBytes + 2) w.first with
  | none =>
    free fp
    return (.ioError, none)
  | some buf =>
    let total ← fread fp buf (maxBytes + 1) bytes
    afterRead w fp buf total (broken && decide (bytes.length < maxBytes + 1))

def resolveFile (w : World) (path : List Char) : Act Char Outcome :=
  if path = [] then pure (.badFormat, none)
  else
    match w.fopen path with
    | .missing => pure (.notFound, none)
    | .refused => pure (.ioError, none)
    | .stream bytes broken => do
      match ← malloc 0 true with
      | none => return (.ioError, none)
      | some fp => readStream w fp bytes broken

/-- `outs` says that both out parameters are there. -/
def resolve (w : World) (outs : Bool) (ref : Option (List Char)) : Act Char Outcome :=
  if !outs then pure (.badFormat, none)
  else
    match ref with
    | none => pure (.badFormat, none)
    | some ref =>
      if ref = [] then pure (.badFormat, none)
      else if ref.take 4 = "env:".toList then resolveEnv w (ref.drop 4)
      else if ref.take 5 = "file:".toList then resolveFile w (ref.drop 5)
      else pure (.badFormat, none)

/-- A file without the one line break at its end. -/
def withoutBreak (bytes : List Char) : List Char :=
  if bytes.getLast? ≠ some '\n' then bytes
  else if bytes.dropLast.getLast? ≠ some '\r' then bytes.dropLast
  else bytes.dropLast.dropLast

example : withoutBreak ['k', '\n', '\r', '\n'] = ['k', '\n'] := by decide

def envSecret (w : World) (name : List Char) : Except Status (List Char) :=
  match w.getenv name with
  | none => .error .notFound
  | some value =>
    if maxBytes < value.length then .error .tooLarge
    else if w.first then .ok value
    else .error .ioError

def fileSecret (w : World) (path : List Char) : Except Status (List Char) :=
  match w.fopen path with
  | .missing => .error .notFound
  | .refused => .error .ioError
  | .stream bytes broken =>
    if !w.first then .error .ioError
    else if maxBytes < bytes.length then .error .tooLarge
    else if broken || !w.second then .error .ioError
    else .ok (withoutBreak bytes)

/-- The forms of a reference. -/
inductive Source where
  | env (name : List Char)
  | file (path : List Char)

def Source.text : Source → List Char
  | .env name => "env:".toList ++ name
  | .file path => "file:".toList ++ path

def Source.secret (w : World) : Source → Except Status (List Char)
  | .env name => envSecret w name
  | .file path => fileSecret w path

/-- The block that a caller holds for a secret. -/
structure Holds (b : Block Char) (secret : List Char) : Prop where
  live : b.live = true
  size : b.size = secret.length + 1
  starts : b.Starts (secret ++ ['\x00'])
  rest : ∀ i, secret.length ≤ i → ∀ c, b.cells i = some c → c = '\x00'

/-- The outcome agrees with the secret: a fresh block that holds it, or nothing but the status. -/
inductive Answers (h : Heap Char) : Except Status (List Char) → Outcome → Heap Char → Prop
  | given {secret : List Char} {p : ℕ} {h' : Heap Char} (he : Extends '\x00' [p] h h')
      (hp : Holds (h'.block p) secret) : Answers h (.ok secret) (.ok, some (p, secret.length)) h'
  | refused {st : Status} {h' : Heap Char} (he : Extends '\x00' [] h h') (hst : st ≠ .ok) :
      Answers h (.error st) (st, none) h'

section resolve

variable {h h' : Heap Char} {p n : ℕ} {mine : List ℕ}

theorem exists_withoutBreak (bytes : List Char) : ∃ rest, bytes = withoutBreak bytes ++ rest := by
  have hlast : ∀ cs : List Char, ∃ rest, cs = cs.dropLast ++ rest := by
    intro cs
    exact ⟨_, (List.dropLast_prefix cs).choose_spec.symm⟩
  rw [withoutBreak]
  split
  · exact ⟨[], (List.append_nil bytes).symm⟩
  · obtain ⟨rest, hrest⟩ := hlast bytes
    split
    · exact ⟨rest, hrest⟩
    · obtain ⟨rest', hrest'⟩ := hlast bytes.dropLast
      exact ⟨rest' ++ rest, by rw [← List.append_assoc, ← hrest', ← hrest]⟩

/-- The buffer after the whole file was read into it. -/
structure Filled (b : Block Char) (bytes : List Char) : Prop where
  live : b.live = true
  size : b.size = maxBytes + 2
  starts : b.Starts bytes
  rest : ∀ i, bytes.length ≤ i → b.cells i = none

/-- The buffer with the end of the secret marked. Behind what was read there is no more than
that. -/
structure Marked (b : Block Char) (bytes : List Char) : Prop where
  live : b.live = true
  size : b.size = maxBytes + 2
  starts : b.Starts (withoutBreak bytes)
  rest : ∀ i, bytes.length ≤ i → ∀ c, b.cells i = some c → c = '\x00'

theorem Filled.marked {b : Block Char} {bytes : List Char} (hb : Filled b bytes) :
    Marked (b.put (withoutBreak bytes).length ['\x00']) bytes := by
  obtain ⟨rest, hrest⟩ := exists_withoutBreak bytes
  have hstarts : b.Starts (withoutBreak bytes) := by
    refine @Block.Starts.of_append _ b _ rest ?_
    rw [← hrest]
    exact hb.starts
  refine ⟨hb.live, hb.size, hstarts.put (le_refl _), fun i hi c hc => ?_⟩
  simp only [Block.put, List.length_singleton] at hc
  by_cases hin : (withoutBreak bytes).length ≤ i ∧ i < (withoutBreak bytes).length + 1
  · have hzero : i - (withoutBreak bytes).length = 0 := by omega
    rw [if_pos hin, hzero] at hc
    exact (Option.some.inj hc).symm
  · rw [if_neg hin, hb.rest i hi] at hc
    cases hc

variable {buf : ℕ} {bytes : List Char}

end resolve

/-- What a caller does: it asks for secrets and gives back the buffers it was handed. -/
inductive Call where
  | resolve (w : World) (outs : Bool) (ref : Option (List Char))
  | release (i : ℕ)

/-- The memory, what the caller holds of it and how its calls were answered. -/
structure State where
  heap : Heap Char
  held : List (ℕ × ℕ)
  answers : List Status

def State.start : State := ⟨.empty, [], []⟩

/-- A caller that holds no buffer `i` has no more than a null pointer to give back. -/
def step (s : State) : Call → Except Blocks.Fault State
  | .resolve w outs ref => do
    let (out, heap) ← resolve w outs ref s.heap
    return ⟨heap, s.held ++ out.2.toList, s.answers ++ [out.1]⟩
  | .release i => do
    let (_, heap) ← scrubFree (s.held[i]?.map Prod.fst) ((s.held[i]?.map Prod.snd).getD 0) s.heap
    return { s with heap := heap, held := s.held.eraseIdx i }

def run (s : State) (calls : List Call) : Except Blocks.Fault State := calls.foldlM step s

/-- A buffer of the caller holds its secret; no other block is in use, and none of them has a
character left of what it held. -/
structure Tidy (s : State) (secrets : List (List Char)) : Prop where
  held : List.Forall₂ (fun e secret => e.2 = secret.length ∧ Holds (s.heap.block e.1) secret)
    s.held secrets
  nodup : (s.held.map Prod.fst).Nodup
  below : ∀ p ∈ s.held.map Prod.fst, p < s.heap.next
  gone : ∀ p < s.heap.next, p ∉ s.held.map Prod.fst →
    (s.heap.block p).live = false ∧ (s.heap.block p).Only '\x00'

section run

variable {s : State} {secrets : List (List Char)}

/-- What is there after a call that was answered as `secret` says. -/
def After (s : State) (secrets : List (List Char)) (s' : State) :
    Except Status (List Char) → Prop
  | .ok cs => s'.answers = s.answers ++ [.ok] ∧ Tidy s' (secrets ++ [cs])
  | .error st => s'.answers = s.answers ++ [st] ∧ Tidy s' secrets

end run

end SecretRef

end Nssf
