import Nssf.OAuth.Expiry
import Nssf.OAuth.FieldScan

/-! The fields of a token response as the JSON text has them, beside what the search for a quoted
key reads. -/

namespace Nssf.OAuth

open Base JsonText Run

/-- The keys that are looked for in a token response and in the payload of a token. -/
def tokenKeys : List String := ["access_token", "token_type", "error", "expires_in", "exp"]

theorem isKey_of_mem {key : String} (h : key ∈ tokenKeys) : IsKey key.toList := by
  have hall : (tokenKeys.all fun k => !k.toList.isEmpty && k.toList.all isKeyChar) = true := by
    decide +kernel
  have hkey := List.all_eq_true.1 hall key h
  rw [Bool.and_eq_true, List.all_eq_true] at hkey
  exact ⟨by simpa using hkey.1, hkey.2⟩

section fields

def lookup (key : List Char) : Members → Option Tree
  | .nil => none
  | .cons _ name _ _ t _ rest => if decode name = key then some t else lookup key rest

/-- The value of the member of the outermost object that is named so. -/
def member? (key : List Char) : Tree → Option Tree
  | .object _ members => lookup key members
  | _ => none

def namesOf : Members → List (List Char)
  | .nil => []
  | .cons _ name _ _ _ _ rest => decode name :: namesOf rest

/-- An object that has each name once. -/
def HasNamesOnce : Tree → Prop
  | .object _ members => (namesOf members).Nodup
  | _ => False

def string? : Tree → Option (List Char)
  | .string ps => some (decode ps)
  | _ => none

/-- An integral number in the range of `long long`. -/
def integer? : Tree → Option ℤ
  | .number n => if n.value.den = 1 ∧ Fits n.value.num then some n.value.num else none
  | _ => none

/-- What the two readers are to make of the text: the decoded string, the integral number. -/
def FieldAgrees (body : String) (t : Tree) (key : String) : Prop :=
  Yields (jsonGetString body key) (((member? key.toList t).bind string?).map String.ofList) ∧
    jsonGetNumber body.toList key.toList = (member? key.toList t).bind integer?

/-- Where the search stops in the text, against the member that is meant. A string there is spelled
as the member's content, a number there has the member's value in front of any fraction. -/
structure StopsRight (t : Tree) (key : List Char) : Prop where
  string : ∀ ps, member? key t = some (.string ps) →
    ∃ qs, seek key t = some (.string qs) ∧ piecesText qs = decode ps
  integer : ∀ v, (member? key t).bind integer? = some v →
    ∃ n, seek key t = some (.number n) ∧ wholePart n = v
  noString : (∀ ps, member? key t ≠ some (.string ps)) → ∀ qs, seek key t ≠ some (.string qs)
  noInteger : (member? key t).bind integer? = none → ∀ n, seek key t ≠ some (.number n)

end fields

section agreement

variable {body key : String} {w w' : Blanks} {t : Tree} {o : Option Tree} {s : List Char} {v : ℤ}

theorem bind_string_eq_some : o.bind string? = some s ↔ ∃ ps, o = some (.string ps) ∧ decode ps = s := by
  cases o with
  | none => simp
  | some v => cases v <;> simp [string?]

theorem bind_spelled_eq_some :
    o.bind spelled = some s ↔ ∃ qs, o = some (.string qs) ∧ piecesText qs = s := by
  cases o with
  | none => simp
  | some v => cases v <;> simp [spelled]

theorem bind_leading_eq_some :
    o.bind leading = some v ↔ ∃ n, o = some (.number n) ∧ wholePart n = v := by
  cases o with
  | none => simp
  | some v => cases v <;> simp [leading]

theorem eq_iff_of_some {α : Type} {a b : Option α} :
    a = b ↔ (∀ x, b = some x → a = some x) ∧ (b = none → a = none) := by
  constructor
  · rintro rfl
    exact ⟨fun _ => id, id⟩
  · rintro ⟨hsome, hnone⟩
    cases b with
    | none => exact hnone rfl
    | some x => exact hsome x rfl

theorem stopsRight_iff {key : List Char} : StopsRight t key ↔
    (seek key t).bind spelled = (member? key t).bind string? ∧
      (seek key t).bind leading = (member? key t).bind integer? := by
  constructor
  · intro h
    refine ⟨eq_iff_of_some.2 ⟨?_, ?_⟩, eq_iff_of_some.2 ⟨?_, ?_⟩⟩
    · intro s hs
      obtain ⟨ps, hps, rfl⟩ := bind_string_eq_some.1 hs
      exact bind_spelled_eq_some.2 (h.string ps hps)
    · intro hnone
      rw [Option.eq_none_iff_forall_ne_some]
      intro s hs
      obtain ⟨qs, hqs, -⟩ := bind_spelled_eq_some.1 hs
      refine h.noString (fun ps hps => ?_) qs hqs
      rw [bind_string_eq_some.2 ⟨ps, hps, rfl⟩] at hnone
      cases hnone
    · intro v hv
      exact bind_leading_eq_some.2 (h.integer v hv)
    · intro hnone
      rw [Option.eq_none_iff_forall_ne_some]
      intro v hv
      obtain ⟨n, hn, -⟩ := bind_leading_eq_some.1 hv
      exact h.noInteger hnone n hn
  · rintro ⟨hstring, hinteger⟩
    refine ⟨?_, ?_, ?_, ?_⟩
    · intro ps hps
      exact bind_spelled_eq_some.1 (hstring.trans (bind_string_eq_some.2 ⟨ps, hps, rfl⟩))
    · intro v hv
      exact bind_leading_eq_some.1 (hinteger.trans hv)
    · intro hno qs hqs
      have hread := hstring.symm.trans (bind_spelled_eq_some.2 ⟨qs, hqs, rfl⟩)
      obtain ⟨ps, hps, -⟩ := bind_string_eq_some.1 hread
      exact hno ps hps
    · intro hnone n hn
      have hread := hinteger.symm.trans (bind_leading_eq_some.2 ⟨n, hn, rfl⟩)
      rw [hnone] at hread
      cases hread

theorem ofList_map_injective : Function.Injective (Option.map String.ofList) :=
  Option.map_injective fun _ _ h => String.ofList_injective h

theorem yields_unique {α : Type} {m : Run α} {a b : α} (h : Yields m a) (h' : Yields m b) :
    a = b := by
  obtain ⟨e, hrun, -⟩ := h .quiet fun _ => rfl
  exact ((h'.eq_of_ok (fun _ => rfl) hrun).1)

/-- The readers agree with the JSON text for a key exactly when the search stops right. -/
theorem fieldAgrees_iff (hkey : key ∈ tokenKeys)
    (hbody : body.toList = w.chars ++ (t.text ++ w'.chars)) :
    FieldAgrees body t key ↔ StopsRight t key.toList := by
  have hiskey := isKey_of_mem hkey
  have hread : Yields (jsonGetString body key)
      (((seek key.toList t).bind spelled).map String.ofList) := by
    rw [jsonGetString_eq, ← jsonString?_body hiskey hbody]
    exact yields_dupOrNull _
  rw [FieldAgrees, jsonGetNumber_body hiskey hbody, stopsRight_iff]
  refine and_congr_left fun _ => ?_
  constructor
  · intro h
    exact ofList_map_injective (yields_unique hread h)
  · intro h
    rwa [← h]

end agreement

section sample

def errorName : List Piece :=
  [.raw 'e' rfl, .raw 'r' rfl, .raw 'r' rfl, .raw 'o' rfl, .raw 'r' rfl]

/-- The tree of `{"error":"e"}`. -/
def plainError : Tree :=
  .object Blanks.none (.cons Blanks.none errorName Blanks.none Blanks.none
    (.string [.raw 'e' rfl]) Blanks.none .nil)

/-- The tree of `{"x":{"error":"e"}}`. -/
def nestedError : Tree :=
  .object Blanks.none (.cons Blanks.none [.raw 'x' rfl] Blanks.none Blanks.none plainError
    Blanks.none .nil)

theorem fieldAgrees_plain : FieldAgrees "\x7b\"error\":\"e\"\x7d" plainError "error" := by
  have hbody : "\x7b\"error\":\"e\"\x7d".toList =
      Blanks.none.chars ++ (plainError.text ++ Blanks.none.chars) := rfl
  refine (fieldAgrees_iff (by simp [tokenKeys]) hbody).2 ?_
  have hmember : member? "error".toList plainError = some (.string [.raw 'e' rfl]) := rfl
  have hseek : seek "error".toList plainError = some (.string [.raw 'e' rfl]) := rfl
  refine ⟨?_, ?_, ?_, ?_⟩
  · intro ps hps
    rw [hmember] at hps
    cases hps
    exact ⟨_, hseek, rfl⟩
  · intro v hv
    rw [hmember] at hv
    cases hv
  · intro hno
    exact absurd hmember (hno _)
  · intro _ n hn
    rw [hseek] at hn
    cases hn

def nestedBody : String := "\x7b\"x\":\x7b\"error\":\"e\"\x7d\x7d"

/-- A member of an inner object is taken for one of the response. -/
theorem not_fieldAgrees_nested : "error" ∈ tokenKeys ∧ HasNamesOnce nestedError ∧
    nestedBody.toList = nestedError.text ∧ ¬FieldAgrees nestedBody nestedError "error" := by
  refine ⟨by simp [tokenKeys], List.pairwise_singleton _ _, rfl, ?_⟩
  rintro ⟨hstring, -⟩
  have hread : Prog.result? (jsonGetString nestedBody "error") Env.quiet = some (some "e") := by
    decide +kernel
  obtain ⟨e, hrun⟩ := Prog.exists_of_result? hread
  cases (hstring.eq_of_ok (fun _ => rfl) hrun).1

end sample

end Nssf.OAuth
