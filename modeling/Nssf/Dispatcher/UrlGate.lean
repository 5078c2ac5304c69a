import Nssf.Runtime.Env

/-! The outbound URL policy and the header-injection guard of the dispatcher. The same scheme
policy guards the token endpoint. Production admits `https` only; the test constructors also
admit plain `http` to a loopback host. -/

namespace Nssf

def tolower (c : Char) : Char := if 'A' ≤ c ∧ c ≤ 'Z' then Char.ofNat (c.toNat + 32) else c

def hasPrefixCi : List Char → List Char → Bool
  | _, [] => true
  | [], _ :: _ => false
  | c :: s, p :: pre => tolower c == tolower p && hasPrefixCi s pre

def strcasecmpEq (s t : String) : Bool :=
  s.toList.map tolower == t.toList.map tolower

def urlHasUserinfoOrFragment (url : List Char) : Bool :=
  url.any fun c => c == '@' || c == '#'

/-- The text after the first `://`. -/
def afterScheme : List Char → Option (List Char)
  | [] => none
  | ':' :: '/' :: '/' :: rest => some rest
  | _ :: rest => afterScheme rest

def urlAuthorityNonempty (url : List Char) : Bool :=
  match afterScheme url with
  | some (c :: _) => c != '/' && c != '?'
  | _ => false

def loopbackPrefixes : List String :=
  ["http://127.0.0.1", "http://[::1]", "http://localhost"]

def loopbackPrefixMatches (url : List Char) (pre : String) : Bool :=
  hasPrefixCi url pre.toList &&
    match url.drop pre.length with
    | [] => true
    | c :: _ => c == ':' || c == '/'

def hostIsLoopback (url : List Char) : Bool :=
  hasPrefixCi url "http://".toList &&
    (((url.drop 7).takeWhile fun c => c != '/' && c != '?' && c != '#').all fun c => c != '@') &&
    loopbackPrefixes.any (loopbackPrefixMatches url)

/-- The gate with an optional URL, absent where the row has none. -/
def callbackUrlAllowed (url : Option String) (allowInsecureLoopback : Bool) : Bool :=
  match url with
  | none => false
  | some u =>
    let cs := u.toList
    !cs.isEmpty && !urlHasUserinfoOrFragment cs && urlAuthorityNonempty cs &&
      (hasPrefixCi cs "https://".toList || (allowInsecureLoopback && hostIsLoopback cs))

/-- The production posture that the POST handler reuses. -/
def notificationCallbackUrlAllowed (url : Option String) : Bool := callbackUrlAllowed url false

def correlationIdMax : ℕ := 128

def correlationIdIsSafe (id : String) : Bool :=
  let cs := id.toList
  !cs.isEmpty && decide (cs.length ≤ correlationIdMax) &&
    cs.all fun c => decide (0x20 ≤ c.toNat) && c.toNat != 0x7f

theorem callbackUrlAllowed_mono {url : Option String}
    (h : callbackUrlAllowed url false = true) : callbackUrlAllowed url true = true := by
  cases url with
  | none => exact h
  | some u =>
    simp only [callbackUrlAllowed, Bool.false_and, Bool.or_false, Bool.and_eq_true] at h
    simp only [callbackUrlAllowed, Bool.true_and, Bool.and_eq_true, Bool.or_eq_true]
    exact ⟨h.1, Or.inl h.2⟩

theorem callbackUrlAllowed_isSome {url : Option String} {b : Bool}
    (h : callbackUrlAllowed url b = true) : ∃ u, url = some u := by
  cases url with
  | none => cases h
  | some u => exact ⟨u, rfl⟩

end Nssf
