import Mathlib.Data.Finset.Basic
import Mathlib.Data.Finset.Image
import Mathlib.Data.Finset.Option
import Mathlib.Data.Fintype.Card
import Mathlib.Data.String.Basic
import Nssf.Base.Tally
import Nssf.Design.UserBlocks

/-! What a file of a specification says of the network function it belongs to: by its name, by the
title of its document and by the heads of its paths. -/

namespace Nssf.Design.NfRegistry

open Base PyText Tally UserBlocks

/-- What of Python's tables the patterns ask for. -/
structure Unicode where
  words : WordClass
  lower : List Char → List Char

/-- The title is there if it is a string, and the paths are the keys that are strings. -/
structure YamlDoc where
  title : Option String
  paths : List String

/-- There is no document where the text is no YAML or no mapping. -/
structure SpecFile where
  name : String
  doc : Option YamlDoc

inductive SignalType where
  | filename
  | title
  | path
  deriving DecidableEq

instance : Fintype SignalType where
  elems := {.filename, .title, .path}
  complete t := by cases t <;> simp

section signals

variable (u : Unicode)

def normNf (token : List Char) : String := String.ofList (u.lower (strip token))

/-- A letter for a pattern that takes no notice of case. -/
def isLetter (c : Char) : Bool :=
  ('a' ≤ c && c ≤ 'z') || ('A' ≤ c && c ≤ 'Z') || c.toNat == 0x130 || c.toNat == 0x131 ||
    c.toNat == 0x17F || c.toNat == 0x212A

/-- What stands before the last underscore. -/
def beforeLast (run : List Char) : List Char := (run.rdropWhile (· != '_')).dropLast

/-- `^TS\d+_N([A-Za-z][\w]*)_`, in any case. -/
def signalFilename (name : String) : Option String :=
  match name.toList with
  | t :: s :: cs =>
    if (t == 'T' || t == 't') && (s == 'S' || s == 's' || s.toNat == 0x17F) then
      match cs.takeWhile isDigit, cs.dropWhile isDigit with
      | _ :: _, '_' :: n :: rest =>
        let token := beforeLast (rest.takeWhile u.words.word)
        if (n == 'N' || n == 'n') && token.head?.any isLetter then some (normNf u token) else none
      | _, _ => none
    else none
  | _ => none

def isLower (c : Char) : Bool := 'a' ≤ c && c ≤ 'z'

def isUpper (c : Char) : Bool := 'A' ≤ c && c ≤ 'Z'

/-- Two to six letters and what may follow them. -/
def code? (letter : Char → Bool) (ends : Option Char → Bool) (cs : List Char) :
    Option (List Char) :=
  let run := cs.takeWhile letter
  if 2 ≤ run.length && run.length ≤ 6 && ends (cs.dropWhile letter).head? then some run else none

/-- The patterns `^N([a-z]{2,6})[_\s]`, `^([A-Z]{2,6})\b` and, in lower case,
`^([a-z][a-z]{1,5})\b`, one after the other. -/
def signalTitle (title : Option String) : Option String :=
  title.bind fun title =>
    let s := strip title.toList
    let boundary := fun c : Option Char => !c.any u.words.word
    let service :=
      if s.head? = some 'N' then code? isLower (·.any fun c => c == '_' || isSpace c) s.tail
      else none
    let found := (service.orElse fun _ => code? isUpper boundary s).map u.lower
    (found.orElse fun _ => code? isLower boundary (u.lower s)).map String.ofList

/-- A lower-case word behind `/n`, up to a dash or a slash. -/
def signalPath (path : String) : Option String :=
  match u.lower path.toList with
  | '/' :: 'n' :: cs =>
    let run := cs.takeWhile isLower
    let next := (cs.dropWhile isLower).head?
    if run ≠ [] ∧ (next = some '-' ∨ next = some '/') then some (normNf u run) else none
  | _ => none

def signalPaths (paths : List String) : Finset String := (paths.filterMap (signalPath u)).toFinset

end signals

def knownNfCodes : List String :=
  ["amf", "smf", "upf", "nrf", "nssf", "nef", "udm", "udr", "udsf", "ausf", "pcf", "smsf", "chf",
    "bsf", "nwdaf", "scp", "sepp", "n3iwf", "tngf", "twif", "wagf", "lmf", "gmlc", "ucmf", "mnpf",
    "tsctsf", "easdf", "mfaf", "dccf", "anlf"]

/-- What is observed under a type: a name, or a set of them. -/
inductive Observed where
  | one (nf : String)
  | several (nfs : Finset String)

/-- How the sets of one file are gone through. -/
structure Iteration where
  types : SetOrder SignalType
  nfs : SetOrder String

section votes

variable (u : Unicode) (it : Iteration)

def filenameNf (f : SpecFile) : Option String := (signalFilename u f.name).filter (· ≠ "")

def titleNf (f : SpecFile) : Option String :=
  (f.doc.bind fun d => signalTitle u d.title).filter fun nf => nf ∈ knownNfCodes

def pathNfs (f : SpecFile) : Finset String := f.doc.elim ∅ fun d => signalPaths u d.paths

/-- `nfs` of `_scan_yaml`. -/
def observed (f : SpecFile) : SignalType → Option Observed
  | .filename => (filenameNf u f).map .one
  | .title => (titleNf u f).map .one
  | .path =>
    if 1 < (pathNfs u f).card then some (.several (pathNfs u f))
    else (it.nfs.list (pathNfs u f)).head?.map .one

def signalTypes (f : SpecFile) : Finset SignalType :=
  Finset.univ.filter fun t => (observed u it f t).isSome

def ballotsOf : Option Observed → List String
  | none => []
  | some (.one nf) => [nf]
  | some (.several nfs) => it.nfs.list nfs

def isMulti : Option Observed → Bool
  | some (.several nfs) => 1 < nfs.card
  | _ => false

def dominantNf (observed : SignalType → Option Observed) (signals : Finset SignalType) :
    Option String × Bool :=
  let order := it.types.list signals
  match standings (order.flatMap fun t => ballotsOf it (observed t)) with
  | [] => (none, false)
  | (top, topCount) :: rest =>
    let runnerUp := rest.head?.elim 0 Prod.snd
    (some top, (order.any fun t => isMulti (observed t)) || decide (topCount ≤ runnerUp))

structure FileVote where
  types : Finset SignalType
  nf : Option String
  conflict : Bool

def fileVote (f : SpecFile) : FileVote :=
  let signals := signalTypes u it f
  let dominant := dominantNf it (observed u it f) signals
  ⟨signals, dominant.1, dominant.2⟩

end votes

section named

variable (u : Unicode)

/-- The network functions that a type of signal names. -/
def namedBy (f : SpecFile) : SignalType → Finset String
  | .filename => (filenameNf u f).toFinset
  | .title => (titleNf u f).toFinset
  | .path => pathNfs u f

/-- How many types of signal name it. -/
def votesFor (f : SpecFile) (nf : String) : ℕ :=
  (Finset.univ.filter fun t => nf ∈ namedBy u f t).card

/-- The paths name several, or two are named by as many types as any. -/
def Contested (f : SpecFile) : Prop :=
  1 < (namedBy u f .path).card ∨ ∃ a b, a ≠ b ∧ 0 < votesFor u f a ∧
    votesFor u f a = votesFor u f b ∧ ∀ c, votesFor u f c ≤ votesFor u f a

/-- Some signal names another network function. -/
def Dissents (f : SpecFile) (nf : String) : Prop := ∃ t, ∃ n ∈ namedBy u f t, n ≠ nf

variable {u} (it : Iteration) (f : SpecFile)

theorem card_toFinset_le (o : Option String) : ¬1 < o.toFinset.card := by
  cases o <;> simp

theorem ballotsOf_one (o : Option String) : ballotsOf it (o.map .one) = o.toList := by
  cases o <;> rfl

theorem not_isMulti_one (o : Option String) : isMulti (o.map .one) = false := by
  cases o <;> rfl

theorem list_head {s : Finset String} (h : ¬1 < s.card) :
    (it.nfs.list s).head?.toList = it.nfs.list s := by
  have hset : (it.nfs.list s).toFinset = s := by
    ext a
    rw [List.mem_toFinset, it.nfs.mem]
  have hlen := List.toFinset_card_of_nodup (it.nfs.nodup s)
  rw [hset] at hlen
  cases hs : it.nfs.list s with
  | nil => rfl
  | cons a l =>
    rw [hs, List.length_cons] at hlen
    obtain rfl : l = [] := List.length_eq_zero_iff.1 (by omega)
    rfl

theorem count_ballotsOf (t : SignalType) (nf : String) :
    (ballotsOf it (observed u it f t)).count nf = if nf ∈ namedBy u f t then 1 else 0 := by
  have hone : ∀ o : Option String, o.toList.count nf = if nf ∈ o.toFinset then 1 else 0 := by
    intro o
    cases o with
    | none => rfl
    | some n =>
      by_cases hn : nf = n
      · simp [hn]
      · simp [hn, Ne.symm hn]
  cases t with
  | filename => rw [observed, ballotsOf_one, hone, namedBy]
  | title => rw [observed, ballotsOf_one, hone, namedBy]
  | path =>
    simp only [observed, namedBy]
    by_cases hcard : 1 < (pathNfs u f).card
    · rw [if_pos hcard, ballotsOf, it.nfs.count]
      exact if_congr Iff.rfl rfl rfl
    · rw [if_neg hcard, ballotsOf_one, list_head it hcard, it.nfs.count]
      exact if_congr Iff.rfl rfl rfl

theorem isMulti_observed (t : SignalType) :
    isMulti (observed u it f t) = true ↔ t = .path ∧ 1 < (pathNfs u f).card := by
  cases t with
  | filename => simp [observed, not_isMulti_one]
  | title => simp [observed, not_isMulti_one]
  | path =>
    simp only [observed]
    by_cases hcard : 1 < (pathNfs u f).card
    · simp [isMulti, hcard]
    · simp [not_isMulti_one, hcard]

theorem mem_signalTypes (t : SignalType) :
    t ∈ signalTypes u it f ↔ (namedBy u f t).Nonempty := by
  have hone : ∀ o : Option String, (o.map Observed.one).isSome = true ↔ o.toFinset.Nonempty := by
    intro o
    cases o <;> simp
  rw [signalTypes, Finset.mem_filter_univ]
  cases t with
  | filename => exact hone _
  | title => exact hone _
  | path =>
    simp only [observed, namedBy]
    by_cases hcard : 1 < (pathNfs u f).card
    · rw [if_pos hcard]
      exact ⟨fun _ => Finset.card_pos.1 (by omega), fun _ => rfl⟩
    · rw [if_neg hcard, hone]
      constructor
      · rintro ⟨a, ha⟩
        refine ⟨a, (it.nfs.mem _ a).1 ?_⟩
        rw [← list_head it hcard]
        simpa using ha
      · rintro ⟨a, ha⟩
        refine ⟨a, ?_⟩
        have hin := (it.nfs.mem _ a).2 ha
        rw [← list_head it hcard] at hin
        simpa using hin

/-- The ballots of a file in the order in which they are met. -/
def ballots (u : Unicode) : List String :=
  (it.types.list (signalTypes u it f)).flatMap fun t => ballotsOf it (observed u it f t)

theorem count_ballots (nf : String) : (ballots it f u).count nf = votesFor u f nf := by
  have hcount : ∀ ts : List SignalType,
      (ts.flatMap fun t => ballotsOf it (observed u it f t)).count nf =
        (ts.filter fun t => nf ∈ namedBy u f t).length := by
    intro ts
    induction ts with
    | nil => rfl
    | cons t ts ih =>
      rw [List.flatMap_cons, List.count_append, count_ballotsOf, ih, List.filter_cons]
      by_cases hmem : nf ∈ namedBy u f t
      · simp [hmem, Nat.add_comm]
      · simp [hmem]
  rw [ballots, hcount, ← List.toFinset_card_of_nodup ((it.types.nodup _).filter _), votesFor]
  congr 1
  ext t
  rw [List.mem_toFinset, List.mem_filter, it.types.mem, mem_signalTypes, Finset.mem_filter_univ,
    decide_eq_true_iff]
  exact ⟨fun h => h.2, fun h => ⟨⟨nf, h⟩, h⟩⟩

theorem mem_ballots (nf : String) : nf ∈ ballots it f u ↔ ∃ t, nf ∈ namedBy u f t := by
  rw [← List.count_pos_iff, count_ballots, votesFor, Finset.card_pos]
  exact ⟨fun ⟨t, ht⟩ => ⟨t, (Finset.mem_filter_univ t).1 ht⟩,
    fun ⟨t, ht⟩ => ⟨t, (Finset.mem_filter_univ t).2 ht⟩⟩

theorem ballots_perm (it' : Iteration) : (ballots it f u).Perm (ballots it' f u) :=
  List.perm_iff_count.2 fun nf => by rw [count_ballots, count_ballots]

def hasMulti (u : Unicode) : Bool :=
  (it.types.list (signalTypes u it f)).any fun t => isMulti (observed u it f t)

theorem hasMulti_iff : hasMulti it f u = true ↔ 1 < (namedBy u f .path).card := by
  rw [hasMulti, List.any_eq_true]
  constructor
  · rintro ⟨t, -, ht⟩
    exact ((isMulti_observed it f t).1 ht).2
  · intro hcard
    refine ⟨.path, (it.types.mem _ _).2 ((mem_signalTypes it f _).2 ?_),
      (isMulti_observed it f _).2 ⟨rfl, hcard⟩⟩
    exact Finset.card_pos.1 (by omega)

theorem fileVote_nf : (fileVote u it f).nf = (standings (ballots it f u)).head?.map Prod.fst := by
  have hstand : (fileVote u it f).nf =
      (match standings (ballots it f u) with
      | [] => (none, false)
      | (top, topCount) :: rest =>
        (some top, hasMulti it f u || decide (topCount ≤ rest.head?.elim 0 Prod.snd))).1 := rfl
  rw [hstand]
  cases standings (ballots it f u) <;> rfl

theorem fileVote_conflict_iff : (fileVote u it f).conflict = true ↔ Contested u f := by
  have hstand : dominantNf it (observed u it f) (signalTypes u it f) =
      match standings (ballots it f u) with
      | [] => (none, false)
      | (top, topCount) :: rest =>
        (some top, hasMulti it f u || decide (topCount ≤ rest.head?.elim 0 Prod.snd)) := rfl
  rw [fileVote, hstand]
  cases h : standings (ballots it f u) with
  | nil =>
    have hnone : ∀ t nf, nf ∉ namedBy u f t := fun t nf hin => by
      have hmem := (mem_ballots it f nf).2 ⟨t, hin⟩
      rw [standings_eq_nil_iff.1 h] at hmem
      cases hmem
    refine ⟨fun hfalse => absurd hfalse Bool.false_ne_true, ?_⟩
    rintro (hcard | ⟨a, -, -, hpos, -⟩)
    · obtain ⟨nf, hin⟩ := Finset.card_pos.1 (by omega : 0 < (namedBy u f .path).card)
      exact absurd hin (hnone _ nf)
    · obtain ⟨t, ht⟩ := Finset.card_pos.1 hpos
      exact absurd ((Finset.mem_filter_univ t).1 ht) (hnone t a)
  | cons top rest =>
    obtain ⟨top, n⟩ := top
    have hrunner := runner_up_iff h
    simp only [count_ballots] at hrunner
    simp only [Bool.or_eq_true, hasMulti_iff, decide_eq_true_eq, hrunner, Contested]

/-- The order in which the sets are gone through does not show. -/
theorem fileVote_order (it' : Iteration) : fileVote u it f = fileVote u it' f := by
  have htypes : (fileVote u it f).types = (fileVote u it' f).types := by
    ext t
    exact (mem_signalTypes it f t).trans (mem_signalTypes it' f t).symm
  have hnf : (fileVote u it f).nf = (fileVote u it' f).nf := by
    rw [fileVote_nf, fileVote_nf, standings_perm (ballots_perm it f it')]
  have hconflict : (fileVote u it f).conflict = (fileVote u it' f).conflict := by
    rw [Bool.eq_iff_iff, fileVote_conflict_iff, fileVote_conflict_iff]
  cases hvote : fileVote u it f
  cases hvote' : fileVote u it' f
  rw [hvote, hvote'] at htypes hnf hconflict
  cases htypes
  cases hnf
  cases hconflict
  rfl

/-- A file goes to a network function that some signal of it names. -/
theorem exists_named {nf : String} (h : (fileVote u it f).nf = some nf) :
    ∃ t, nf ∈ namedBy u f t := by
  rw [fileVote_nf] at h
  obtain ⟨v, hv, rfl⟩ := Option.map_eq_some_iff.1 h
  obtain ⟨a, n⟩ := v
  exact (mem_ballots it f a).1 (mem_standings.1 (List.mem_of_mem_head? hv)).1

theorem card_namedBy_le {t : SignalType} (ht : t ≠ .path) : (namedBy u f t).card ≤ 1 := by
  cases t with
  | filename => exact not_lt.1 (card_toFinset_le _)
  | title => exact not_lt.1 (card_toFinset_le _)
  | path => exact absurd rfl ht

variable {f}

theorem Contested.dissents {nf : String} (h : Contested u f) : Dissents u f nf := by
  have htwo : ∀ {a b : String} {t t' : SignalType}, a ≠ b → a ∈ namedBy u f t →
      b ∈ namedBy u f t' → Dissents u f nf := by
    intro a b t t' hne ha hb
    by_cases hanf : a = nf
    · subst hanf
      exact ⟨t', b, hb, hne.symm⟩
    · exact ⟨t, a, ha, hanf⟩
  obtain hcard | ⟨a, b, hne, hpos, heq, -⟩ := h
  · obtain ⟨a, ha, b, hb, hne⟩ := Finset.one_lt_card.1 hcard
    exact htwo hne ha hb
  · obtain ⟨t, ht⟩ := Finset.card_pos.1 hpos
    obtain ⟨t', ht'⟩ := Finset.card_pos.1 (heq ▸ hpos : 0 < votesFor u f b)
    exact htwo hne ((Finset.mem_filter_univ t).1 ht) ((Finset.mem_filter_univ t').1 ht')

/-- Where the name and another one stand side by side, they do so under two types. -/
theorem two_types {nf : String} (hcalm : ¬Contested u f) (hnamed : ∃ t, nf ∈ namedBy u f t)
    (hdissents : Dissents u f nf) : 2 ≤ (signalTypes u it f).card := by
  obtain ⟨t, ht⟩ := hnamed
  obtain ⟨t', n, hn, hne⟩ := hdissents
  have hapart : t ≠ t' := by
    rintro rfl
    have hcard : 1 < (namedBy u f t).card := Finset.one_lt_card.2 ⟨nf, ht, n, hn, hne.symm⟩
    by_cases hpath : t = .path
    · subst hpath
      exact hcalm (.inl hcard)
    · have hle := @card_namedBy_le u f t hpath
      omega
  exact Finset.one_lt_card.2 ⟨t, (mem_signalTypes it f t).2 ⟨nf, ht⟩, t',
    (mem_signalTypes it f t').2 ⟨n, hn⟩, hapart⟩

end named

end Nssf.Design.NfRegistry
