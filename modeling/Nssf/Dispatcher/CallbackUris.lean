import Nssf.Dispatcher.LoopbackHost

/-! The production gate for callback URLs beside the grammar of URIs. The gate reads the scheme,
looks for two characters and for the start of the authority; what it lets through is a URI only
if the rest of the text is one. -/

namespace Nssf

open Base

def HttpsUri (url : List Char) : Prop :=
  ∃ scheme, scheme.map tolower = "https".toList ∧ Uri.HostUri scheme url

/-- Neither a space nor a control byte nor a byte above `~`. -/
def isGraphic (c : Char) : Bool := decide (0x21 ≤ c.toNat ∧ c.toNat ≤ 0x7e)

/-- The characters of URIs, without the two that the gate refuses itself. -/
def isUriChar (c : Char) : Bool :=
  Uri.isNameChar c || [':', '/', '?', '%', '[', ']'].contains c

/-- What the gate does not look at in the text after the slashes: the bytes, the escapes, the
host and its port, and brackets outside of an IP literal. -/
structure Dialable (rest : List Char) : Prop where
  chars : ∀ c ∈ rest, isUriChar c = true
  escapes : Uri.escapesOk rest = true
  host : ∃ host port, Uri.HostPort (Uri.authority rest) host port ∧ host ≠ [] ∧
    (∀ p, port = some p → p.all Uri.isDigit = true) ∧
    ((∃ inner, host = '[' :: (inner ++ [']']) ∧ Uri.IpLiteral inner) ∨
      ('[' ∉ host ∧ ']' ∉ host)) ∧
    ∀ c ∈ rest.drop host.length, c ≠ '[' ∧ c ≠ ']'

section classes

theorem isDigit_range {c : Char} (h : Uri.isDigit c = true) : 0x30 ≤ c.toNat ∧ c.toNat ≤ 0x39 :=
  of_decide_eq_true h

theorem isAlpha_range {c : Char} (h : Uri.isAlpha c = true) :
    (0x61 ≤ c.toNat ∧ c.toNat ≤ 0x7a) ∨ (0x41 ≤ c.toNat ∧ c.toNat ≤ 0x5a) := by
  simp only [Uri.isAlpha, Bool.or_eq_true] at h
  rcases h with h | h
  · exact Or.inl (of_decide_eq_true h)
  · exact Or.inr (of_decide_eq_true h)

theorem isNameChar_of_hexdig {c : Char} (h : Uri.isHexdig c = true) : Uri.isNameChar c = true := by
  simp only [Uri.isHexdig, Bool.or_eq_true, decide_eq_true_eq] at h
  have hname : Uri.isAlpha c = true ∨ Uri.isDigit c = true := by
    simp only [Uri.isAlpha, Bool.or_eq_true, decide_eq_true_eq]
    rcases h with (h | ⟨hl, hr⟩) | ⟨hl, hr⟩
    · exact Or.inr h
    · exact Or.inl (Or.inl ⟨hl, Char.le_trans hr (show 'f' ≤ 'z' by decide)⟩)
    · exact Or.inl (Or.inr ⟨hl, Char.le_trans hr (show 'F' ≤ 'Z' by decide)⟩)
  simp only [Uri.isNameChar, Uri.isUnreserved, Bool.or_eq_true]
  tauto

theorem isGraphic_of_nameChar {c : Char} (h : Uri.isNameChar c = true) : isGraphic c = true := by
  simp only [Uri.isNameChar, Uri.isUnreserved, Bool.or_eq_true, beq_iff_eq] at h
  rcases h with (((((h | h) | rfl) | rfl) | rfl) | rfl) | h
  · have hrange := isAlpha_range h
    exact decide_eq_true (by omega)
  · have hrange := isDigit_range h
    exact decide_eq_true (by omega)
  · rfl
  · rfl
  · rfl
  · rfl
  · simp only [Uri.isSubDelim, List.contains_eq_mem, List.mem_cons, List.not_mem_nil, or_false,
      decide_eq_true_eq] at h
    rcases h with rfl | rfl | rfl | rfl | rfl | rfl | rfl | rfl | rfl | rfl | rfl <;> rfl

theorem isGraphic_of_uriChar {c : Char} (h : isUriChar c = true) : isGraphic c = true := by
  simp only [isUriChar, Bool.or_eq_true, List.contains_eq_mem, List.mem_cons, List.not_mem_nil,
    or_false, decide_eq_true_eq] at h
  rcases h with h | rfl | rfl | rfl | rfl | rfl | rfl
  · exact isGraphic_of_nameChar h
  · rfl
  · rfl
  · rfl
  · rfl
  · rfl
  · rfl

theorem isUriChar_cases {c : Char} (h : isUriChar c = true) (hopen : c ≠ '[') (hclose : c ≠ ']') :
    Uri.isNameChar c = true ∨ c = ':' ∨ c = '/' ∨ c = '?' ∨ c = '%' := by
  simp only [isUriChar, Bool.or_eq_true, List.contains_eq_mem, List.mem_cons, List.not_mem_nil,
    or_false, decide_eq_true_eq] at h
  tauto

end classes

section literals

variable {v4 : Prop}

theorem octet_chars {s : List Char} (h : Uri.DecOctet s) : ∀ c ∈ s, Uri.isNameChar c = true := by
  intro c hc
  apply isNameChar_of_hexdig
  simp only [Uri.isHexdig, List.all_eq_true.1 h.1 c hc, Bool.true_or]

theorem ipv4_chars {s : List Char} (h : Uri.Ipv4Address s) :
    ∀ c ∈ s, Uri.isNameChar c = true := by
  obtain ⟨a, b, c, d, ha, hb, hc, hd, rfl⟩ := h
  intro x hx
  simp only [List.mem_append, List.mem_cons] at hx
  rcases hx with hx | rfl | hx | rfl | hx | rfl | hx
  · exact octet_chars ha x hx
  · rfl
  · exact octet_chars hb x hx
  · rfl
  · exact octet_chars hc x hx
  · rfl
  · exact octet_chars hd x hx

theorem h16_chars {s : List Char} (h : Uri.H16 s) : ∀ c ∈ s, Uri.isNameChar c = true := by
  intro c hc
  exact isNameChar_of_hexdig (List.all_eq_true.1 h.1 c hc)

theorem groups_chars {n : ℕ} {s : List Char} (h : Uri.Groups v4 n s) :
    ∀ c ∈ s, Uri.isNameChar c = true ∨ c = ':' := by
  induction h with
  | last hg => exact fun c hc => Or.inl (h16_chars hg c hc)
  | address _ ha => exact fun c hc => Or.inl (ipv4_chars ha c hc)
  | cons hg _ ih =>
    intro c hc
    rcases List.mem_append.1 hc with hc | hc
    · exact Or.inl (h16_chars hg c hc)
    · rcases List.mem_cons.1 hc with rfl | hc
      · exact Or.inr rfl
      · exact ih c hc

theorem groupsOrNone_chars {n : ℕ} {s : List Char} (h : Uri.GroupsOrNone v4 n s) :
    ∀ c ∈ s, Uri.isNameChar c = true ∨ c = ':' := by
  rcases h with ⟨-, rfl⟩ | h
  · simp
  · exact groups_chars h

theorem ipLiteral_chars {s : List Char} (h : Uri.IpLiteral s) :
    ∀ c ∈ s, Uri.isNameChar c = true ∨ c = ':' := by
  rcases h with (h | ⟨n, m, a, b, ha, hb, -, rfl⟩) | ⟨x, version, rest, hx, rfl, -, hv, -, hr⟩
  · exact groups_chars h
  · intro c hc
    simp only [List.mem_append, List.mem_cons] at hc
    rcases hc with hc | rfl | rfl | hc
    · exact groupsOrNone_chars ha c hc
    · exact Or.inr rfl
    · exact Or.inr rfl
    · exact groupsOrNone_chars hb c hc
  · intro c hc
    simp only [List.mem_append, List.mem_cons] at hc
    rcases hc with rfl | hc | rfl | hc
    · rcases hx with rfl | rfl
      · exact Or.inl rfl
      · exact Or.inl rfl
    · exact Or.inl (isNameChar_of_hexdig (List.all_eq_true.1 hv c hc))
    · exact Or.inl rfl
    · have hc := List.all_eq_true.1 hr c hc
      simpa using hc

/-- A character that is none of the class and no colon stands in no literal. -/
theorem not_mem_literal {s : List Char} (h : Uri.IpLiteral s) {c : Char}
    (hname : Uri.isNameChar c = false) (hcolon : c ≠ ':') : c ∉ s := by
  intro hc
  rcases ipLiteral_chars h c hc with hyes | rfl
  · rw [hname] at hyes
    cases hyes
  · exact hcolon rfl

end literals

section gate

variable {url : String} {scheme rest : List Char}

/-- The scheme and what stands after the slashes, for a URL that the gate lets through. -/
theorem callbackUrlAllowed_split (h : callbackUrlAllowed (some url) false = true) :
    ∃ scheme, url.toList = scheme ++ ':' :: '/' :: '/' :: url.toList.drop 8 ∧
      scheme.length = 5 ∧ scheme.map tolower = "https".toList ∧
      '@' ∉ url.toList ∧ '#' ∉ url.toList := by
  simp only [callbackUrlAllowed, Bool.false_and, Bool.or_false, Bool.and_eq_true,
    Bool.not_eq_true'] at h
  obtain ⟨⟨⟨-, hno⟩, -⟩, hscheme⟩ := h
  have habsent : '@' ∉ url.toList ∧ '#' ∉ url.toList := by
    simp only [urlHasUserinfoOrFragment, List.any_eq_false] at hno
    exact ⟨fun hc => hno _ hc rfl, fun hc => hno _ hc rfl⟩
  have hfold : (url.toList.take 8).map tolower = "https".toList ++ [':', '/', '/'] :=
    hasPrefixCi_take hscheme
  -- the folded slashes and the colon are the characters themselves
  have hfirst : ((url.toList.take 8).take 5).map tolower = "https".toList := by
    rw [List.map_take, hfold]
    rfl
  have hslashes : (url.toList.take 8).drop 5 = [':', '/', '/'] := by
    apply eq_of_map_tolower _ rfl
    rw [List.map_drop, hfold]
    rfl
  have hlen := congrArg List.length hfirst
  rw [List.length_map] at hlen
  refine ⟨(url.toList.take 8).take 5, ?_, hlen, hfirst, habsent⟩
  calc url.toList = url.toList.take 8 ++ url.toList.drop 8 := (List.take_append_drop 8 _).symm
    _ = (url.toList.take 8).take 5 ++ (url.toList.take 8).drop 5 ++ url.toList.drop 8 := by
      rw [List.take_append_drop 5 (url.toList.take 8)]
    _ = _ := by
      rw [hslashes, List.append_assoc]
      rfl

theorem uriChar_of_word {p : Char → Bool} {s : List Char} (h : Uri.Word p s)
    (hp : ∀ c, p c = true → c ≠ '@' → isUriChar c = true ∧ c ≠ '[' ∧ c ≠ ']')
    (hhex : ∀ c, Uri.isHexdig c = true → p c = true) (hat : '@' ∉ s) :
    ∀ c ∈ s, isUriChar c = true ∧ c ≠ '[' ∧ c ≠ ']' := by
  intro c hc
  rcases h.chars hhex c hc with hyes | rfl
  · refine hp c hyes ?_
    rintro rfl
    exact hat hc
  · exact ⟨rfl, by decide, by decide⟩

theorem nameChar_plain {c : Char} (h : Uri.isNameChar c = true) :
    isUriChar c = true ∧ c ≠ '[' ∧ c ≠ ']' := by
  refine ⟨?_, ?_, ?_⟩
  · simp only [isUriChar, h, Bool.true_or]
  · rintro rfl
    cases h
  · rintro rfl
    cases h

theorem pchar_plain {c : Char} (h : Uri.isPchar c = true) (hat : c ≠ '@') :
    isUriChar c = true ∧ c ≠ '[' ∧ c ≠ ']' := by
  simp only [Uri.isPchar, Bool.or_eq_true, beq_iff_eq] at h
  rcases h with (h | rfl) | rfl
  · exact nameChar_plain h
  · exact ⟨rfl, by decide, by decide⟩
  · exact absurd rfl hat

/-- The text of a port with its colon. -/
def portText (port : Option (List Char)) : List Char := (port.map fun p => ':' :: p).getD []

def queryText (query : Option (List Char)) : List Char := (query.map fun q => '?' :: q).getD []

theorem portText_head {port : Option (List Char)} {c : Char} {t : List Char}
    (h : portText port = c :: t) : c = ':' := by
  cases port with
  | none => cases h
  | some p => exact (List.cons.inj h).1.symm

theorem queryText_head {query : Option (List Char)} {c : Char} {t : List Char}
    (h : queryText query = c :: t) : c = '?' := by
  cases query with
  | none => cases h
  | some q => exact (List.cons.inj h).1.symm

theorem tail_head {path : List Char} {query : Option (List Char)}
    (hpath : path = [] ∨ ∃ p, path = '/' :: p) {c : Char} {t : List Char}
    (h : path ++ queryText query = c :: t) : c = '/' ∨ c = '?' := by
  rcases hpath with rfl | ⟨p, rfl⟩
  · exact Or.inr (queryText_head h)
  · exact Or.inl (List.cons.inj h).1.symm

theorem not_mem_name {host : List Char} (h : Uri.Word Uri.isNameChar host) {c : Char}
    (hname : Uri.isNameChar c = false) (hne : c ≠ '%') : c ∉ host := by
  intro hc
  rcases h.chars (fun c => isNameChar_of_hexdig) c hc with hyes | rfl
  · rw [hname] at hyes
    cases hyes
  · exact hne rfl

theorem host_shape {host : List Char} (h : Uri.Host host) :
    Uri.Bracketed host ∨ (':' ∉ host ∧ host.head? ≠ some '[') := by
  rcases h with ⟨inner, rfl, hinner⟩ | hword
  · exact Or.inl ⟨inner, rfl, not_mem_literal hinner rfl (by decide)⟩
  · refine Or.inr ⟨not_mem_name hword rfl (by decide), ?_⟩
    intro hhead
    exact not_mem_name (c := '[') hword rfl (by decide) (List.mem_of_mem_head? hhead)

/-- A host holds none of the characters that end an authority. -/
theorem host_ends {host : List Char} (h : Uri.Host host) :
    ∀ c ∈ host, Uri.endsAuthority c = false := by
  have hends {c : Char} (hname : Uri.isNameChar c = false) (hcolon : c ≠ ':') (hpercent : c ≠ '%')
      (hopen : c ≠ '[') (hclose : c ≠ ']') : c ∉ host := by
    rcases h with ⟨inner, rfl, hinner⟩ | hword
    · have hnot := not_mem_literal hinner hname hcolon
      simp [hnot, hopen, hclose]
    · exact not_mem_name hword hname hpercent
  intro c hc
  simp only [Uri.endsAuthority, Bool.or_eq_false_iff, beq_eq_false_iff_ne]
  refine ⟨⟨?_, ?_⟩, ?_⟩
  · rintro rfl
    exact hends rfl (by decide) (by decide) (by decide) (by decide) hc
  · rintro rfl
    exact hends rfl (by decide) (by decide) (by decide) (by decide) hc
  · rintro rfl
    exact hends rfl (by decide) (by decide) (by decide) (by decide) hc

theorem host_chars {host : List Char} (h : Uri.Host host) : ∀ c ∈ host, isUriChar c = true := by
  rcases h with ⟨inner, rfl, hinner⟩ | hword
  · intro c hc
    simp only [List.mem_cons, List.mem_append, List.not_mem_nil, or_false] at hc
    rcases hc with rfl | hc | rfl
    · rfl
    · rcases ipLiteral_chars hinner c hc with hyes | rfl
      · exact (nameChar_plain hyes).1
      · rfl
    · rfl
  · intro c hc
    rcases hword.chars (fun c => isNameChar_of_hexdig) c hc with hyes | rfl
    · exact (nameChar_plain hyes).1
    · rfl

theorem host_brackets {host : List Char} (h : Uri.Host host) :
    (∃ inner, host = '[' :: (inner ++ [']']) ∧ Uri.IpLiteral inner) ∨
      ('[' ∉ host ∧ ']' ∉ host) := by
  rcases h with h | hword
  · exact Or.inl h
  · exact Or.inr ⟨not_mem_name hword rfl (by decide), not_mem_name hword rfl (by decide)⟩

theorem host_escapes {host : List Char} (h : Uri.Host host) : Uri.escapesOk host = true := by
  rcases h with ⟨inner, rfl, hinner⟩ | hword
  · have hnot := not_mem_literal (c := '%') hinner rfl (by decide)
    apply Uri.escapesOk_of_not_mem
    simp [hnot]
  · exact hword.escapesOk rfl

theorem digits_plain {p : List Char} (h : p.all Uri.isDigit = true) :
    ∀ c ∈ p, isUriChar c = true ∧ c ≠ '[' ∧ c ≠ ']' := by
  intro c hc
  apply nameChar_plain
  apply isNameChar_of_hexdig
  simp only [Uri.isHexdig, List.all_eq_true.1 h c hc, Bool.true_or]

theorem portText_ends {port : Option (List Char)}
    (h : ∀ p, port = some p → p.all Uri.isDigit = true) :
    ∀ c ∈ portText port, Uri.endsAuthority c = false := by
  have hdigit (c : Char) (hc : Uri.isDigit c = true) : Uri.endsAuthority c = false := by
    have hrange := isDigit_range hc
    simp only [Uri.endsAuthority, Bool.or_eq_false_iff, beq_eq_false_iff_ne]
    refine ⟨⟨?_, ?_⟩, ?_⟩ <;> (rintro rfl; simp at hrange)
  cases port with
  | none => simp [portText]
  | some p =>
    intro c hc
    rcases List.mem_cons.1 hc with rfl | hc
    · rfl
    · exact hdigit c (List.all_eq_true.1 (h p rfl) c hc)

theorem pathChar_plain (c : Char) (h : (Uri.isPchar c || c == '/' || c == '?') = true)
    (hat : c ≠ '@') : isUriChar c = true ∧ c ≠ '[' ∧ c ≠ ']' := by
  simp only [Bool.or_eq_true, beq_iff_eq] at h
  rcases h with (h | rfl) | rfl
  · exact pchar_plain h hat
  · exact ⟨rfl, by decide, by decide⟩
  · exact ⟨rfl, by decide, by decide⟩

theorem hexdig_pathChar (c : Char) (h : Uri.isHexdig c = true) :
    (Uri.isPchar c || c == '/' || c == '?') = true := by
  simp only [Uri.isPchar, isNameChar_of_hexdig h, Bool.true_or]

/-- What stands after the slashes of a URI of the grammar passes the checks that the gate leaves
out. -/
theorem dialable_of_hostUri {host path : List Char} {port query : Option (List Char)}
    (hrest : rest = host ++ portText port ++ (path ++ queryText query))
    (hhost : Uri.Host host) (hne : host ≠ [])
    (hport : ∀ p, port = some p → p.all Uri.isDigit = true)
    (hpath : Uri.PathAbempty path) (hquery : ∀ q, query = some q → Uri.Query q)
    (hat : '@' ∉ rest) : Dialable rest := by
  have hportplain : ∀ c ∈ portText port, isUriChar c = true ∧ c ≠ '[' ∧ c ≠ ']' := by
    cases port with
    | none => simp [portText]
    | some p =>
      intro c hc
      rcases List.mem_cons.1 hc with rfl | hc
      · exact ⟨rfl, by decide, by decide⟩
      · exact digits_plain (hport p rfl) c hc
  have hpathword : Uri.Word (fun c => Uri.isPchar c || c == '/' || c == '?') path :=
    Uri.Word.mono (fun c hc => by rw [hc, Bool.true_or]) hpath.1
  have hpathplain : ∀ c ∈ path, isUriChar c = true ∧ c ≠ '[' ∧ c ≠ ']' := by
    apply uriChar_of_word hpathword pathChar_plain hexdig_pathChar
    intro hmem
    apply hat
    simp [hrest, hmem]
  have hqueryplain : ∀ c ∈ queryText query, isUriChar c = true ∧ c ≠ '[' ∧ c ≠ ']' := by
    cases query with
    | none => simp [queryText]
    | some q =>
      intro c hc
      rcases List.mem_cons.1 hc with rfl | hc
      · exact ⟨rfl, by decide, by decide⟩
      · refine uriChar_of_word (hquery q rfl) pathChar_plain hexdig_pathChar ?_ c hc
        intro hmem
        apply hat
        simp [hrest, queryText, hmem]
  have hhead (c : Char) (t : List Char) (h : path ++ queryText query = c :: t) :
      Uri.isHexdig c = false ∧ Uri.endsAuthority c = true := by
    rcases tail_head hpath.2 h with rfl | rfl
    · exact ⟨rfl, rfl⟩
    · exact ⟨rfl, rfl⟩
  refine ⟨?_, ?_, host, port, ?_, hne, hport, host_brackets hhost, ?_⟩
  · intro c hc
    simp only [hrest, List.mem_append] at hc
    rcases hc with (hc | hc) | hc | hc
    · exact host_chars hhost c hc
    · exact (hportplain c hc).1
    · exact (hpathplain c hc).1
    · exact (hqueryplain c hc).1
  · have hporthead : ∀ c t, portText port = c :: t → Uri.isHexdig c = false := by
      intro c t h
      rw [portText_head h]
      rfl
    have hqueryhead : ∀ c t, queryText query = c :: t → Uri.isHexdig c = false := by
      intro c t h
      rw [queryText_head h]
      rfl
    rw [hrest, Uri.escapesOk_append fun c t h => (hhead c t h).1, Uri.escapesOk_append hporthead,
      Uri.escapesOk_append hqueryhead, host_escapes hhost, hpathword.escapesOk rfl]
    have hportok : Uri.escapesOk (portText port) = true := by
      apply Uri.escapesOk_of_not_mem
      intro hmem
      cases port with
      | none => cases hmem
      | some p =>
        rcases List.mem_cons.1 hmem with h | hmem
        · cases h
        · have hdigit := List.all_eq_true.1 (hport p rfl) _ hmem
          cases hdigit
    have hqueryok : Uri.escapesOk (queryText query) = true := by
      cases query with
      | none => rfl
      | some q => exact (Uri.escapesOk_cons (by decide)).trans ((hquery q rfl).escapesOk rfl)
    rw [hportok, hqueryok]
    rfl
  · refine ⟨?_, host_shape hhost⟩
    rw [hrest, List.append_assoc, Uri.authority_append host _ (host_ends hhost),
      Uri.authority_append (portText port) _ (portText_ends hport)]
    cases htail : path ++ queryText query with
    | nil => exact congrArg (host ++ ·) (List.append_nil _)
    | cons c t =>
      rw [Uri.authority_stop t (hhead c t htail).2, List.append_nil]
      rfl
  · intro c hc
    rw [hrest, List.append_assoc, List.drop_left, List.mem_append, List.mem_append] at hc
    rcases hc with hc | hc | hc
    · exact (hportplain c hc).2
    · exact (hpathplain c hc).2
    · exact (hqueryplain c hc).2

theorem query_split (tail : List Char) :
    ∃ path query, tail = path ++ queryText query ∧ '?' ∉ path := by
  have hno : '?' ∉ tail.takeWhile fun c => c != '?' := by
    intro hmem
    have hp := List.mem_takeWhile_imp hmem
    cases hp
  have hsplit := (List.takeWhile_append_dropWhile (p := fun c => c != '?') (l := tail)).symm
  cases hdrop : tail.dropWhile fun c => c != '?' with
  | nil =>
    rw [hdrop] at hsplit
    exact ⟨_, none, hsplit, hno⟩
  | cons c q =>
    have hc : c = '?' := by
      have hhead := List.head?_dropWhile_not (fun c => c != '?') tail
      rw [hdrop] at hhead
      simpa using hhead
    rw [hdrop, hc] at hsplit
    exact ⟨_, some q, hsplit, hno⟩

theorem authority_split (rest : List Char) :
    ∃ tail, rest = Uri.authority rest ++ tail ∧
      ∀ c t, tail = c :: t → Uri.endsAuthority c = true := by
  refine ⟨rest.dropWhile fun c => !Uri.endsAuthority c,
    List.takeWhile_append_dropWhile.symm, ?_⟩
  intro c t h
  have hhead := List.head?_dropWhile_not (fun c => !Uri.endsAuthority c) rest
  rw [h] at hhead
  simpa using hhead

theorem host_of_plain {host : List Char} (hescapes : Uri.escapesOk host = true)
    (hchars : ∀ c ∈ host, isUriChar c = true ∧ Uri.endsAuthority c = false)
    (hshape : Uri.Bracketed host ∨ (':' ∉ host ∧ host.head? ≠ some '['))
    (hbrackets : (∃ inner, host = '[' :: (inner ++ [']']) ∧ Uri.IpLiteral inner) ∨
      ('[' ∉ host ∧ ']' ∉ host)) : Uri.Host host := by
  rcases hbrackets with hliteral | ⟨hopen, hclose⟩
  · exact Or.inl hliteral
  · have hcolon : ':' ∉ host := by
      rcases hshape with ⟨inner, rfl, -⟩ | ⟨hcolon, -⟩
      · exact absurd List.mem_cons_self hopen
      · exact hcolon
    refine Or.inr (Uri.word_of_chars ?_ hescapes)
    intro c hc
    obtain ⟨huri, hends⟩ := hchars c hc
    rcases isUriChar_cases huri (fun h => hopen (h ▸ hc)) (fun h => hclose (h ▸ hc)) with
      h | rfl | rfl | rfl | h
    · exact Or.inl h
    · exact absurd hc hcolon
    · cases hends
    · cases hends
    · exact Or.inr h

/-- The other way round, a text that passes those checks is a host, a port, a path and a query. -/
theorem hostUri_of_dialable (h : Dialable rest) :
    Uri.HostUri scheme (scheme ++ ':' :: '/' :: '/' :: rest) := by
  obtain ⟨hchars, hescapes, host, port, hsplit, hne, hport, hbrackets, hafter⟩ := h
  obtain ⟨tail, htail, hends⟩ := authority_split rest
  obtain ⟨path, query, rfl, hquestion⟩ := query_split tail
  have hends' : ∀ c ∈ Uri.authority rest, Uri.endsAuthority c = false := by
    intro c hc
    simpa using List.mem_takeWhile_imp hc
  have hwhole : rest = host ++ (portText port ++ (path ++ queryText query)) := by
    rw [← List.append_assoc]
    exact htail.trans (congrArg (· ++ _) hsplit.split)
  have hstart (c : Char) (t : List Char) (ht : path ++ queryText query = c :: t) :
      c = '/' ∨ c = '?' := by
    have hc : isUriChar c = true := by
      apply hchars
      simp [hwhole, ht]
    have hend := hends c t ht
    simp only [Uri.endsAuthority, Bool.or_eq_true, beq_iff_eq, or_assoc] at hend
    rcases hend with rfl | rfl | rfl
    · exact Or.inl rfl
    · exact Or.inr rfl
    · cases hc
  -- no escape reaches over a separator
  have hpieces : Uri.escapesOk host = true ∧ Uri.escapesOk (portText port) = true ∧
      Uri.escapesOk path = true ∧ Uri.escapesOk (queryText query) = true := by
    have hporthead : ∀ c t, portText port ++ (path ++ queryText query) = c :: t →
        Uri.isHexdig c = false := by
      intro c t ht
      cases port with
      | none => rcases hstart c t ht with rfl | rfl <;> rfl
      | some p =>
        obtain ⟨rfl, -⟩ := List.cons.inj ht
        rfl
    have htailhead : ∀ c t, path ++ queryText query = c :: t → Uri.isHexdig c = false := by
      intro c t ht
      rcases hstart c t ht with rfl | rfl <;> rfl
    have hqueryhead : ∀ c t, queryText query = c :: t → Uri.isHexdig c = false := by
      intro c t ht
      rw [queryText_head ht]
      rfl
    rw [hwhole, Uri.escapesOk_append hporthead, Uri.escapesOk_append htailhead,
      Uri.escapesOk_append hqueryhead] at hescapes
    simpa only [Bool.and_eq_true] using hescapes
  have hplain : ∀ c ∈ path ++ queryText query, Uri.isNameChar c = true ∨ c = ':' ∨ c = '/' ∨
      c = '?' ∨ c = '%' := by
    intro c hc
    have hnot := hafter c (by rw [hwhole, List.drop_left]; exact List.mem_append_right _ hc)
    apply isUriChar_cases (hchars c _) hnot.1 hnot.2
    rw [hwhole]
    exact List.mem_append_right _ (List.mem_append_right _ hc)
  refine ⟨host, port, path, query, ?_, ?_, hne, hport, ⟨?_, ?_⟩, ?_⟩
  · rw [hwhole, ← List.append_assoc host]
    rfl
  · apply host_of_plain hpieces.1 _ hsplit.shape hbrackets
    intro c hc
    refine ⟨hchars c (by rw [hwhole]; exact List.mem_append_left _ hc), hends' c ?_⟩
    rw [hsplit.split]
    exact List.mem_append_left _ hc
  · apply Uri.word_of_chars _ hpieces.2.2.1
    intro c hc
    rcases hplain c (List.mem_append_left _ hc) with h | rfl | rfl | rfl | h
    · exact Or.inl (by rw [Uri.isPchar, h]; rfl)
    · exact Or.inl rfl
    · exact Or.inl rfl
    · exact absurd hc hquestion
    · exact Or.inr h
  · cases path with
    | nil => exact Or.inl rfl
    | cons c p =>
      rcases hstart c _ rfl with rfl | rfl
      · exact Or.inr ⟨p, rfl⟩
      · exact absurd List.mem_cons_self hquestion
  · rintro q rfl
    apply Uri.word_of_chars _ ((Uri.escapesOk_cons (by decide)).symm.trans hpieces.2.2.2)
    intro c hc
    rcases hplain c (List.mem_append_right _ (List.mem_cons_of_mem _ hc)) with
      h | rfl | rfl | rfl | h
    · exact Or.inl (by rw [Uri.isPchar, h]; rfl)
    · exact Or.inl rfl
    · exact Or.inl rfl
    · exact Or.inl rfl
    · exact Or.inr h

theorem dialable_of_httpsUri {text : List Char} (h : HttpsUri text) (hat : '@' ∉ text) :
    Dialable (text.drop 8) := by
  obtain ⟨scheme, hfold, host, port, path, query, htext, hhost, hne, hport, hpath, hquery⟩ := h
  have hlen : scheme.length = 5 := by
    rw [← List.length_map (f := tolower), hfold]
    rfl
  have hhead : (scheme ++ [':', '/', '/']).length = 8 := by
    rw [List.length_append, hlen]
    rfl
  have hshape : text = scheme ++ [':', '/', '/'] ++
      (host ++ portText port ++ (path ++ queryText query)) := by
    rw [htext, List.append_assoc scheme]
    rfl
  have hrest : text.drop 8 = host ++ portText port ++ (path ++ queryText query) := by
    rw [hshape]
    exact List.drop_left' hhead
  apply dialable_of_hostUri hrest hhost hne hport hpath hquery
  intro hmem
  exact hat (List.mem_of_mem_drop hmem)

theorem isGraphic_of_letter {c : Char} (h : tolower c ∈ "https".toList) : isGraphic c = true := by
  by_cases hc : 'A' ≤ c ∧ c ≤ 'Z'
  · have hlo : 0x41 ≤ c.toNat := hc.1
    have hhi : c.toNat ≤ 0x5a := hc.2
    exact decide_eq_true (by omega)
  · have hall : "https".toList.all isGraphic = true := by decide
    have hself : tolower c = c := if_neg hc
    rw [hself] at h
    exact List.all_eq_true.1 hall c h

/-- A URL that the production gate lets through is an `https` URI with a host, in graphic
characters, just if the text after the slashes passes the checks that the gate leaves out. -/
theorem allowed_httpsUri_iff (h : callbackUrlAllowed (some url) false = true) :
    (HttpsUri url.toList ∧ ∀ c ∈ url.toList, isGraphic c = true) ↔
      Dialable (url.toList.drop 8) := by
  obtain ⟨scheme, hsplit, hlen, hfold, hat, -⟩ := callbackUrlAllowed_split h
  generalize url.toList = text at *
  constructor
  · rintro ⟨huri, -⟩
    exact dialable_of_httpsUri huri hat
  · intro hdial
    constructor
    · refine ⟨scheme, hfold, ?_⟩
      rw [hsplit]
      exact hostUri_of_dialable hdial
    · intro c hc
      rw [hsplit, List.mem_append] at hc
      rcases hc with hc | hc
      · have hletter : tolower c ∈ "https".toList := by
          rw [← hfold]
          exact List.mem_map_of_mem hc
        exact isGraphic_of_letter hletter
      · simp only [List.mem_cons] at hc
        rcases hc with rfl | rfl | rfl | hc
        · rfl
        · rfl
        · rfl
        · exact isGraphic_of_uriChar (hdial.chars c hc)

end gate

section sample

theorem allowed_httpsUri_callback :
    HttpsUri "HTTPS://amf.local:8443/n%2Fcb?id=1".toList ∧
      ∀ c ∈ "HTTPS://amf.local:8443/n%2Fcb?id=1".toList, isGraphic c = true := by
  have hallowed : callbackUrlAllowed (some "HTTPS://amf.local:8443/n%2Fcb?id=1") false = true := by
    decide
  apply (allowed_httpsUri_iff hallowed).2
  refine ⟨List.all_eq_true.1 (by decide), by decide, "amf.local".toList,
    some "8443".toList, ⟨by decide, Or.inr ⟨by decide, by decide⟩⟩, by decide, ?_,
    Or.inr ⟨by decide, by decide⟩, ?_⟩
  · rintro p hp
    cases hp
    decide
  · have hplain : (("HTTPS://amf.local:8443/n%2Fcb?id=1".toList.drop 8).drop
        "amf.local".toList.length).all (fun c => c != '[' && c != ']') = true := by decide
    intro c hc
    simpa using List.all_eq_true.1 hplain c hc

/-- A space passes the gate, and so does an authority that is a port without a host. -/
theorem gate_admits_no_uri :
    (callbackUrlAllowed (some "https://amf/a b") false = true ∧
      ¬∀ c ∈ "https://amf/a b".toList, isGraphic c = true) ∧
    callbackUrlAllowed (some "https://:443/cb") false = true ∧
      ¬HttpsUri "https://:443/cb".toList := by
  have hempty : Uri.HostPort (Uri.authority ("https://:443/cb".toList.drop 8)) []
      (some "443".toList) := ⟨by decide, Or.inr ⟨by decide, by decide⟩⟩
  refine ⟨⟨by decide, ?_⟩, by decide, ?_⟩
  · intro hall
    have hspace : isGraphic ' ' = true := hall ' ' (by decide)
    cases hspace
  · intro huri
    obtain ⟨host, port, hsplit, hne, -⟩ := (dialable_of_httpsUri huri (by decide)).host
    exact hne (hsplit.host_unique hempty)

end sample

end Nssf
