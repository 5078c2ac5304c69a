import Mathlib.Data.List.TakeWhile

/-! Texts of absolute URIs that name a host: where the authority ends, how it splits into a host
and a port, and which characters may stand where. -/

namespace Nssf.Base.Uri

section authority

/-- The authority ends at the first `/`, `?` or `#`. -/
def endsAuthority (c : Char) : Bool := c == '/' || c == '?' || c == '#'

/-- The authority of what stands after the two slashes. -/
def authority (rest : List Char) : List Char := rest.takeWhile fun c => !endsAuthority c

theorem authority_stop {c : Char} (rest : List Char) (h : endsAuthority c = true) :
    authority (c :: rest) = [] := by
  simp only [authority]
  exact List.takeWhile_cons_of_neg (by simp [h])

theorem authority_step {c : Char} (rest : List Char) (h : endsAuthority c = false) :
    authority (c :: rest) = c :: authority rest := by
  simp only [authority]
  exact List.takeWhile_cons_of_pos (by simp [h])

/-- An authority that starts with a text without end characters. -/
theorem authority_append (a b : List Char) (h : ∀ c ∈ a, endsAuthority c = false) :
    authority (a ++ b) = a ++ authority b := by
  simp only [authority]
  apply List.takeWhile_append_of_pos
  intro c hc
  simp [h c hc]

def Bracketed (host : List Char) : Prop :=
  ∃ inner, host = '[' :: (inner ++ [']']) ∧ ']' ∉ inner

/-- An authority without user information, as its host and what follows the colon of its port. -/
structure HostPort (text host : List Char) (port : Option (List Char)) : Prop where
  split : text = host ++ (port.map fun p => ':' :: p).getD []
  shape : Bracketed host ∨ (':' ∉ host ∧ host.head? ≠ some '[')

theorem append_cons_inj {c : Char} {a b s t : List Char} (ha : c ∉ a) (hb : c ∉ b)
    (h : a ++ c :: s = b ++ c :: t) : a = b ∧ s = t := by
  induction a generalizing b with
  | nil =>
    cases b with
    | nil => exact ⟨rfl, (List.cons.inj h).2⟩
    | cons x b => exact absurd (List.mem_cons.2 (Or.inl (List.cons.inj h).1)) hb
  | cons x a ih =>
    cases b with
    | nil => exact absurd (List.mem_cons.2 (Or.inl (List.cons.inj h).1.symm)) ha
    | cons y b =>
      obtain ⟨hxy, htail⟩ := List.cons.inj h
      have hrest := ih (fun hm => ha (List.mem_cons_of_mem x hm))
        (fun hm => hb (List.mem_cons_of_mem y hm)) htail
      exact ⟨by rw [hxy, hrest.1], hrest.2⟩

theorem takeWhile_append_stop {p : Char → Bool} {a b : List Char} (ha : ∀ c ∈ a, p c = true)
    (hb : ∀ c rest, b = c :: rest → p c = false) : (a ++ b).takeWhile p = a := by
  rw [List.takeWhile_append_of_pos ha]
  cases b with
  | nil => simp
  | cons c rest => rw [List.takeWhile_cons_of_neg (by simp [hb c rest rfl]), List.append_nil]

theorem HostPort.plain {text host : List Char} {port : Option (List Char)}
    (h : HostPort text host port) (hcolon : ':' ∉ host) :
    text.takeWhile (fun c => c != ':') = host := by
  rw [h.split]
  apply takeWhile_append_stop
  · intro c hc
    apply bne_iff_ne.2
    rintro rfl
    exact hcolon hc
  · intro c rest hrest
    cases port with
    | none => cases hrest
    | some p =>
      obtain ⟨rfl, -⟩ := List.cons.inj hrest
      rfl

/-- An authority has one host. -/
theorem HostPort.host_unique {text host host' : List Char} {port port' : Option (List Char)}
    (h : HostPort text host port) (h' : HostPort text host' port') : host = host' := by
  have hhead {inner other tail : List Char} {p : Option (List Char)}
      (hno : other.head? ≠ some '[')
      (heq : '[' :: (inner ++ [']']) ++ tail = other ++ (p.map fun p => ':' :: p).getD []) :
      False := by
    cases other with
    | nil =>
      cases p with
      | none => cases heq
      | some p => exact absurd (List.cons.inj heq).1 (by decide)
    | cons c other =>
      apply hno
      rw [List.head?_cons, (List.cons.inj heq).1]
  rcases h.shape with ⟨inner, rfl, hinner⟩ | ⟨hcolon, hno⟩
  · rcases h'.shape with ⟨inner', rfl, hinner'⟩ | ⟨-, hno'⟩
    · have heq := h.split.symm.trans h'.split
      simp only [List.cons_append, List.append_assoc, List.nil_append, List.cons.injEq,
        true_and] at heq
      rw [(append_cons_inj hinner hinner' heq).1]
    · exact (hhead hno' (h.split.symm.trans h'.split)).elim
  · rcases h'.shape with ⟨inner', rfl, hinner'⟩ | ⟨hcolon', -⟩
    · exact (hhead hno (h'.split.symm.trans h.split)).elim
    · rw [← h.plain hcolon, ← h'.plain hcolon']

end authority

section grammar

def isDigit (c : Char) : Bool := decide ('0' ≤ c ∧ c ≤ '9')

def isHexdig (c : Char) : Bool :=
  isDigit c || decide ('a' ≤ c ∧ c ≤ 'f') || decide ('A' ≤ c ∧ c ≤ 'F')

def isAlpha (c : Char) : Bool := decide ('a' ≤ c ∧ c ≤ 'z') || decide ('A' ≤ c ∧ c ≤ 'Z')

def isUnreserved (c : Char) : Bool :=
  isAlpha c || isDigit c || c == '-' || c == '.' || c == '_' || c == '~'

def isSubDelim (c : Char) : Bool :=
  ['!', '$', '&', '\x27', '(', ')', '*', '+', ',', ';', '='].contains c

def isNameChar (c : Char) : Bool := isUnreserved c || isSubDelim c

def isPchar (c : Char) : Bool := isNameChar c || c == ':' || c == '@'

/-- A text over the characters of a class and percent escapes. -/
inductive Word (p : Char → Bool) : List Char → Prop
  | nil : Word p []
  | char {c : Char} {s : List Char} (hc : p c = true) (h : Word p s) : Word p (c :: s)
  | escape {a b : Char} {s : List Char} (ha : isHexdig a = true) (hb : isHexdig b = true)
      (h : Word p s) : Word p ('%' :: a :: b :: s)

def octetValue (s : List Char) : ℕ := s.foldl (fun n c => 10 * n + (c.toNat - '0'.toNat)) 0

/-- A number up to 255 without leading zeros. -/
def DecOctet (s : List Char) : Prop :=
  s.all isDigit = true ∧ s ≠ [] ∧ (s.head? = some '0' → s.length = 1) ∧ octetValue s ≤ 255

def Ipv4Address (s : List Char) : Prop :=
  ∃ a b c d, DecOctet a ∧ DecOctet b ∧ DecOctet c ∧ DecOctet d ∧
    s = a ++ '.' :: (b ++ '.' :: (c ++ '.' :: d))

def H16 (s : List Char) : Prop := s.all isHexdig = true ∧ 1 ≤ s.length ∧ s.length ≤ 4

/-- Groups of sixteen bits with colons between them. Where it is allowed, the last two may be
written as an IPv4 address. -/
inductive Groups (v4 : Prop) : ℕ → List Char → Prop
  | last {g : List Char} (hg : H16 g) : Groups v4 1 g
  | address {a : List Char} (hv4 : v4) (ha : Ipv4Address a) : Groups v4 2 a
  | cons {n : ℕ} {g s : List Char} (hg : H16 g) (hs : Groups v4 n s) :
      Groups v4 (n + 1) (g ++ ':' :: s)

def GroupsOrNone (v4 : Prop) (n : ℕ) (s : List Char) : Prop := (n = 0 ∧ s = []) ∨ Groups v4 n s

/-- Eight groups, or fewer with one gap for the zeros that are left out. -/
def Ipv6Address (s : List Char) : Prop :=
  Groups True 8 s ∨ ∃ n m a b, GroupsOrNone False n a ∧ GroupsOrNone True m b ∧ n + m ≤ 7 ∧
    s = a ++ ':' :: ':' :: b

def IpvFuture (s : List Char) : Prop :=
  ∃ c version rest, (c = 'v' ∨ c = 'V') ∧ s = c :: (version ++ '.' :: rest) ∧
    version ≠ [] ∧ version.all isHexdig = true ∧
    rest ≠ [] ∧ (rest.all fun x => isNameChar x || x == ':') = true

def IpLiteral (s : List Char) : Prop := Ipv6Address s ∨ IpvFuture s

/-- A dotted address is a registered name as well. -/
def Host (s : List Char) : Prop :=
  (∃ inner, s = '[' :: (inner ++ [']']) ∧ IpLiteral inner) ∨ Word isNameChar s

def PathAbempty (s : List Char) : Prop :=
  Word (fun c => isPchar c || c == '/') s ∧ (s = [] ∨ ∃ rest, s = '/' :: rest)

def Query (s : List Char) : Prop := Word (fun c => isPchar c || c == '/' || c == '?') s

/-- An absolute URI of the scheme, with a host that is not empty, without user information and
without a fragment. -/
def HostUri (scheme text : List Char) : Prop :=
  ∃ host port path query,
    text = scheme ++ ':' :: '/' :: '/' ::
      (host ++ (Option.map (fun p => ':' :: p) port).getD [] ++
        (path ++ (Option.map (fun q => '?' :: q) query).getD [])) ∧
    Host host ∧ host ≠ [] ∧ (∀ p, port = some p → p.all isDigit = true) ∧
    PathAbempty path ∧ ∀ q, query = some q → Query q

end grammar

section words

/-- The two digits of an escape. -/
def escapeHead : List Char → Bool
  | a :: b :: _ => isHexdig a && isHexdig b
  | _ => false

/-- Every percent sign is followed by two digits. -/
def escapesOk : List Char → Bool
  | [] => true
  | c :: rest => (c != '%' || escapeHead rest) && escapesOk rest

theorem escapeHead_append {a b : List Char} (hb : ∀ c rest, b = c :: rest → isHexdig c = false) :
    escapeHead (a ++ b) = escapeHead a := by
  have hnil : escapeHead b = false := by
    cases b with
    | nil => rfl
    | cons c rest =>
      cases rest with
      | nil => rfl
      | cons d rest => simp [escapeHead, hb c (d :: rest) rfl]
  cases a with
  | nil => exact hnil
  | cons x a =>
    cases a with
    | nil =>
      cases b with
      | nil => rfl
      | cons c rest => simp [escapeHead, hb c rest rfl]
    | cons y a => rfl

/-- No escape reaches over a character that is not a digit. -/
theorem escapesOk_append {a b : List Char} (hb : ∀ c rest, b = c :: rest → isHexdig c = false) :
    escapesOk (a ++ b) = (escapesOk a && escapesOk b) := by
  induction a with
  | nil => rfl
  | cons x a ih =>
    simp only [List.cons_append, escapesOk, escapeHead_append hb, ih, Bool.and_assoc]

theorem escapesOk_cons {c : Char} {rest : List Char} (h : c ≠ '%') :
    escapesOk (c :: rest) = escapesOk rest := by
  rw [escapesOk, bne_iff_ne.2 h, Bool.true_or, Bool.true_and]

theorem escapesOk_of_not_mem {s : List Char} (h : '%' ∉ s) : escapesOk s = true := by
  induction s with
  | nil => rfl
  | cons c s ih =>
    rw [List.mem_cons, not_or] at h
    rw [escapesOk_cons (Ne.symm h.1), ih h.2]

variable {p : Char → Bool}

theorem Word.mono {p q : Char → Bool} (hpq : ∀ c, p c = true → q c = true) {s : List Char}
    (h : Word p s) : Word q s := by
  induction h with
  | nil => exact .nil
  | char hc _ ih => exact .char (hpq _ hc) ih
  | escape ha hb _ ih => exact .escape ha hb ih

theorem Word.escapesOk {s : List Char} (hp : p '%' = false) (h : Word p s) :
    Uri.escapesOk s = true := by
  have hhex {c : Char} (hc : isHexdig c = true) : c ≠ '%' := by
    rintro rfl
    cases hc
  induction h with
  | nil => rfl
  | char hc _ ih =>
    rw [escapesOk_cons, ih]
    rintro rfl
    rw [hp] at hc
    cases hc
  | escape ha hb _ ih =>
    rw [Uri.escapesOk, escapesOk_cons (hhex ha), escapesOk_cons (hhex hb), ih]
    simp [escapeHead, ha, hb]

theorem Word.chars {s : List Char} (hhex : ∀ c, isHexdig c = true → p c = true) (h : Word p s) :
    ∀ c ∈ s, p c = true ∨ c = '%' := by
  induction h with
  | nil => simp
  | char hc _ ih =>
    intro x hx
    rcases List.mem_cons.1 hx with rfl | hx
    · exact Or.inl hc
    · exact ih x hx
  | escape ha hb _ ih =>
    intro x hx
    rcases List.mem_cons.1 hx with rfl | hx
    · exact Or.inr rfl
    · rcases List.mem_cons.1 hx with rfl | hx
      · exact Or.inl (hhex x ha)
      · rcases List.mem_cons.1 hx with rfl | hx
        · exact Or.inl (hhex x hb)
        · exact ih x hx

theorem word_of_chars {s : List Char} (h : ∀ c ∈ s, p c = true ∨ c = '%')
    (hescapes : escapesOk s = true) : Word p s := by
  -- an escape takes three characters at once, so the induction is on the length
  induction hn : s.length using Nat.strongRecOn generalizing s with
  | ind n ih =>
    cases s with
    | nil => exact .nil
    | cons c rest =>
      rw [List.length_cons] at hn
      simp only [escapesOk, Bool.and_eq_true, Bool.or_eq_true, bne_iff_ne] at hescapes
      rcases h c List.mem_cons_self with hc | rfl
      · refine .char hc (ih rest.length (by omega) ?_ hescapes.2 rfl)
        intro x hx
        exact h x (List.mem_cons_of_mem c hx)
      · have hhead : escapeHead rest = true := hescapes.1.resolve_left fun hne => hne rfl
        cases rest with
        | nil => cases hhead
        | cons a rest =>
          cases rest with
          | nil => cases hhead
          | cons b rest =>
            simp only [escapeHead, Bool.and_eq_true] at hhead
            simp only [List.length_cons] at hn
            simp only [escapesOk, Bool.and_eq_true] at hescapes
            refine .escape hhead.1 hhead.2 (ih rest.length (by omega) ?_ hescapes.2.2.2 rfl)
            intro x hx
            apply h x
            simp [hx]

end words

end Nssf.Base.Uri
