import Nssf.Availability.ListFold

/-! The index at the end of a patch path. The digits are gathered in a `long` that is left as
soon as it passes the length of the array, and zeros in front of them are not refused. -/

namespace Nssf

section accumulator

/-- A value that a `long` of 64 bits can take. -/
def long? (v : ℕ) : Option ℕ := if v < 2 ^ 63 then some v else none

/-- The loop over the digits; nothing where its accumulator overflows. -/
def gatherDigits (len : ℕ) : ℕ → List Char → Option (Option ℕ)
  | v, [] => some (some v)
  | v, c :: cs =>
    if c.isDigit then
      (long? (v * 10 + (c.toNat - '0'.toNat))).bind fun v =>
        if len < v then some (some v) else gatherDigits len v cs
    else some none

def gatherArrayIndex (path : String) (len : ℕ) (allowAppend : Bool) : Option (Option ℕ) :=
  match path.toList with
  | '/' :: tail =>
    if allowAppend && tail == ['-'] then some (some len)
    else if tail = [] then some none
    else
      (gatherDigits len 0 tail).map fun found => found.filter fun v =>
        decide (v ≤ len) && (allowAppend || decide (v < len))
  | _ => some none

theorem digit_le {c : Char} (h : c.isDigit = true) : c.toNat - '0'.toNat ≤ 9 := by
  have hle : c.toNat ≤ '9'.toNat := by
    simp only [Char.isDigit, Bool.and_eq_true, decide_eq_true_eq] at h
    exact h.2
  simp only [Char.reduceToNat] at hle ⊢
  omega

/-- With the length of an array in an `int` the accumulator does not overflow, however many
digits there are. -/
theorem gatherDigits_eq {len v : ℕ} (hlen : len < 2 ^ 31) (hv : v ≤ len) (cs : List Char) :
    gatherDigits len v cs = some (parseDigits len v cs) := by
  induction cs generalizing v with
  | nil => rfl
  | cons c cs ih =>
    simp only [gatherDigits, parseDigits]
    split_ifs with hc hpast
    · have hdigit := digit_le hc
      rw [long?, if_pos (by omega), Option.bind_some, if_pos hpast]
    · have hdigit := digit_le hc
      rw [long?, if_pos (by omega), Option.bind_some, if_neg hpast]
      exact ih (by omega)
    · rfl

theorem gatherArrayIndex_eq {len : ℕ} (hlen : len < 2 ^ 31) (path : String) (append : Bool) :
    gatherArrayIndex path len append = some (parseArrayIndex path len append) := by
  unfold gatherArrayIndex parseArrayIndex
  generalize path.toList = cs
  cases cs with
  | nil => rfl
  | cons c tail =>
    by_cases hc : c = '/'
    · subst hc
      have hdigits := gatherDigits_eq hlen (Nat.zero_le len) tail
      by_cases hdash : (append && tail == ['-']) = true
      · simp [hdash]
      · by_cases hnil : tail = []
        · simp [hnil]
        · simp [hdash, hnil, hdigits]
    · simp [hc]

end accumulator

section grammar

/-- An array index of a JSON Pointer: a single zero, or digits that do not begin with one. -/
def arrayIndex? (tail : List Char) : Option ℕ :=
  if tail = ['0'] then some 0
  else if tail ≠ [] ∧ tail.all Char.isDigit = true ∧ tail.head? ≠ some '0' then
    some (readDigits 0 tail)
  else none

/-- An operation may use the place: an item of the list, or the one behind the last to append. -/
def usable (len : ℕ) (append : Bool) (i : ℕ) : Bool :=
  decide (i < len) || (append && decide (i = len))

/-- The place that a path names for an operation. -/
def patchIndex? (path : String) (len : ℕ) (append : Bool) : Option ℕ :=
  match path.toList with
  | '/' :: tail =>
    if tail = ['-'] then if append then some len else none
    else (arrayIndex? tail).filter (usable len append)
  | _ => none

/-- Further digits behind a zero. -/
def LeadingZero (tail : List Char) : Prop :=
  ∃ digits, tail = '0' :: digits ∧ digits ≠ [] ∧ digits.all Char.isDigit = true

/-- Digits behind a leading zero that name a place all the same. -/
def Padded (path : String) (len : ℕ) (append : Bool) : Prop :=
  ∃ tail, path.toList = '/' :: tail ∧ LeadingZero tail ∧
    usable len append (readDigits 0 tail) = true

variable {path : String} {len : ℕ} {append : Bool} {tail : List Char}

theorem usable_eq (len : ℕ) (append : Bool) (i : ℕ) :
    (decide (i ≤ len) && (append || decide (i < len))) = usable len append i := by
  unfold usable
  cases append with
  | true =>
    rw [Bool.true_or, Bool.and_true, Bool.true_and, ← Bool.decide_or, decide_eq_decide]
    omega
  | false =>
    rw [Bool.false_or, Bool.false_and, Bool.or_false, ← Bool.decide_and, decide_eq_decide]
    omega

theorem parseArrayIndex_slash (h : path.toList = '/' :: tail) :
    parseArrayIndex path len append =
      if tail = ['-'] then if append then some len else none
      else if tail ≠ [] ∧ tail.all Char.isDigit = true then
        (some (readDigits 0 tail)).filter (usable len append)
      else none := by
  rw [parseArrayIndex_eq]
  simp only [usable_eq, listPosition, h]
  split_ifs with hdash happend hdigits
  · simp [Option.filter_some, usable, happend]
  · simp [Option.filter_some, usable, happend]
  · rfl
  · rfl

theorem patchIndex?_slash (h : path.toList = '/' :: tail) :
    patchIndex? path len append =
      if tail = ['-'] then if append then some len else none
      else (arrayIndex? tail).filter (usable len append) := by
  simp only [patchIndex?, h]

theorem LeadingZero.digits (h : LeadingZero tail) : tail ≠ [] ∧ tail.all Char.isDigit = true := by
  obtain ⟨digits, rfl, -, hall⟩ := h
  refine ⟨by simp, ?_⟩
  rw [List.all_cons, hall]
  rfl

theorem LeadingZero.arrayIndex (h : LeadingZero tail) : arrayIndex? tail = none := by
  obtain ⟨digits, rfl, hne, -⟩ := h
  rw [arrayIndex?, if_neg (by simpa using hne), if_neg (by simp)]

/-- All other digits are an index as they stand. -/
theorem arrayIndex?_digits (h : ¬LeadingZero tail) :
    arrayIndex? tail =
      if tail ≠ [] ∧ tail.all Char.isDigit = true then some (readDigits 0 tail) else none := by
  by_cases hzero : tail = ['0']
  · rw [hzero]
    rfl
  · rw [arrayIndex?, if_neg hzero]
    by_cases hdigits : tail ≠ [] ∧ tail.all Char.isDigit = true
    · have hhead : tail.head? ≠ some '0' := by
        intro hhead
        obtain ⟨c, digits, rfl⟩ := List.exists_cons_of_ne_nil hdigits.1
        obtain rfl : c = '0' := Option.some.inj hhead
        have hall := hdigits.2
        rw [List.all_cons, Bool.and_eq_true] at hall
        have hne : digits ≠ [] := by
          rintro rfl
          exact hzero rfl
        exact h ⟨digits, rfl, hne, hall.2⟩
      rw [if_pos ⟨hdigits.1, hdigits.2, hhead⟩, if_pos hdigits]
    · rw [if_neg hdigits, if_neg fun hindex => hdigits ⟨hindex.1, hindex.2.1⟩]

theorem padded_iff (h : path.toList = '/' :: tail) : Padded path len append ↔
    LeadingZero tail ∧ usable len append (readDigits 0 tail) = true := by
  constructor
  · intro hpadded
    obtain ⟨tail', htail, hrest⟩ := hpadded
    obtain rfl : tail' = tail := (List.cons.inj (htail.symm.trans h)).2
    exact hrest
  · intro hrest
    exact ⟨tail, h, hrest⟩

theorem parseArrayIndex_eq_iff :
    parseArrayIndex path len append = patchIndex? path len append ↔
      ¬Padded path len append := by
  by_cases hslash : ∃ tail, path.toList = '/' :: tail
  · obtain ⟨tail, htail⟩ := hslash
    rw [parseArrayIndex_slash htail, patchIndex?_slash htail, padded_iff htail]
    by_cases hzero : LeadingZero tail
    · have hdash : tail ≠ ['-'] := by
        rintro rfl
        have hall := hzero.digits.2
        simp [Char.isDigit] at hall
      rw [if_neg hdash, if_neg hdash, if_pos hzero.digits, hzero.arrayIndex, Option.filter_none,
        Option.filter_some]
      split_ifs with huse
      · simp [hzero, huse]
      · simp [huse]
    · have hplain : (arrayIndex? tail).filter (usable len append) =
          if tail ≠ [] ∧ tail.all Char.isDigit = true then
            (some (readDigits 0 tail)).filter (usable len append)
          else none := by
        rw [arrayIndex?_digits hzero]
        split_ifs
        · rfl
        · rfl
      rw [hplain]
      exact iff_of_true rfl fun hpadded => hzero hpadded.1
  · have hno : ∀ tail, path.toList ≠ '/' :: tail := fun tail htail => hslash ⟨tail, htail⟩
    have hnot : ¬Padded path len append := by
      intro hpadded
      obtain ⟨tail, htail, -⟩ := hpadded
      exact hno tail htail
    have hcode : parseArrayIndex path len append = none := by
      unfold parseArrayIndex
      split
      · rename_i heq
        exact absurd heq (hno _)
      · rfl
    have hspec : patchIndex? path len append = none := by
      unfold patchIndex?
      split
      · rename_i heq
        exact absurd heq (hno _)
      · rfl
    rw [hcode, hspec]
    exact iff_of_true rfl hnot

end grammar

/-- The path is read as the place that it names, but for digits behind a leading zero. -/
theorem gatherArrayIndex_iff (path : String) {len : ℕ} (hlen : len < 2 ^ 31) (append : Bool) :
    gatherArrayIndex path len append = some (patchIndex? path len append) ↔
      ¬Padded path len append := by
  rw [gatherArrayIndex_eq hlen, Option.some.injEq]
  exact parseArrayIndex_eq_iff

theorem gatherArrayIndex_two :
    gatherArrayIndex "/2" 2 true = some (patchIndex? "/2" 2 true) :=
  (gatherArrayIndex_iff "/2" (by decide) true).2 fun h => by
    have hpadded := (@padded_iff "/2" 2 true ['2'] rfl).1 h
    obtain ⟨⟨digits, hzero, -⟩, -⟩ := hpadded
    simp at hzero

theorem gatherArrayIndex_padded : ¬∀ (path : String) (len : ℕ) (append : Bool), len < 2 ^ 31 →
    gatherArrayIndex path len append = some (patchIndex? path len append) := by
  intro h
  have hread : some (some 1) = some none := h "/01" 2 false (by decide)
  cases hread

end Nssf
