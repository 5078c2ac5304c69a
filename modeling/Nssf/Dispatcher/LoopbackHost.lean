import Nssf.Base.Uri
import Nssf.OAuth.Jwks

/-! Plain `http` is let through to a loopback host only. The test is made in three places, by
prefixes of the whole URL; here it is compared with the host that the authority designates. -/

namespace Nssf

open Base

section copies

/-- The loop over the authority, left with false at an `@`. -/
def scanUserinfo : List Char → Bool
  | [] => true
  | c :: rest =>
    if c == '/' || c == '?' || c == '#' then true
    else if c == '@' then false
    else scanUserinfo rest

/-- The loop over the table of prefixes. -/
def scanPrefixes (url : List Char) : List String → Bool
  | [] => false
  | pre :: table =>
    if hasPrefixCi url pre.toList then
      match url[pre.length]? with
      | none => true
      | some next => if next == ':' || next == '/' then true else scanPrefixes url table
    else scanPrefixes url table

def loopbackScan (scheme : String) (table : List String) (url : List Char) : Bool :=
  if hasPrefixCi url scheme.toList then
    if scanUserinfo (url.drop scheme.length) then scanPrefixes url table else false
  else false

/-- The test of the notification dispatcher. -/
def dispatcherHostIsLoopback : List Char → Bool :=
  loopbackScan "http://" ["http://127.0.0.1", "http://[::1]", "http://localhost"]

/-- The test of the token client. -/
def outboundHostIsLoopback : List Char → Bool :=
  loopbackScan "http://" ["http://127.0.0.1", "http://[::1]", "http://localhost"]

/-- The test of the key cache. -/
def jwksHostIsLoopback : List Char → Bool :=
  loopbackScan "http://" ["http://127.0.0.1", "http://[::1]", "http://localhost"]

theorem scanUserinfo_eq (rest : List Char) :
    scanUserinfo rest = (Uri.authority rest).all fun c => c != '@' := by
  induction rest with
  | nil => rfl
  | cons c rest ih =>
    cases hstop : Uri.endsAuthority c with
    | true =>
      rw [Uri.authority_stop rest hstop]
      exact if_pos hstop
    | false =>
      have hgo : ¬((c == '/' || c == '?' || c == '#') = true) := Bool.eq_false_iff.1 hstop
      rw [Uri.authority_step rest hstop, List.all_cons, ← ih]
      simp only [scanUserinfo, if_neg hgo, beq_iff_eq]
      by_cases hat : c = '@'
      · subst hat
        rfl
      · rw [if_neg hat, bne_iff_ne.2 hat, Bool.true_and]

theorem scanPrefixes_eq (url : List Char) (table : List String) :
    scanPrefixes url table = table.any (loopbackPrefixMatches url) := by
  induction table with
  | nil => rfl
  | cons pre table ih =>
    have hnext : url[pre.length]? = (url.drop pre.length).head? := by
      rw [List.head?_drop]
    rw [List.any_cons, ← ih]
    by_cases hpre : hasPrefixCi url pre.toList = true
    · cases hrest : url.drop pre.length with
      | nil => simp [scanPrefixes, loopbackPrefixMatches, hpre, hnext, hrest]
      | cons c rest =>
        by_cases hc : c = ':' ∨ c = '/'
        · simp [scanPrefixes, loopbackPrefixMatches, hpre, hnext, hrest, hc]
        · have hno : (c == ':' || c == '/') = false := by simpa using hc
          simp [scanPrefixes, loopbackPrefixMatches, hpre, hnext, hrest, hno]
    · simp [scanPrefixes, loopbackPrefixMatches, hpre]

theorem loopbackScan_eq (url : List Char) :
    loopbackScan "http://" loopbackPrefixes url = hostIsLoopback url := by
  have hauthority : (url.drop 7).takeWhile (fun c => c != '/' && c != '?' && c != '#') =
      Uri.authority (url.drop 7) := by
    congr 1
    funext c
    simp [Uri.endsAuthority, bne, Bool.and_assoc]
  have hlen : "http://".length = 7 := rfl
  simp only [loopbackScan, hostIsLoopback, hauthority, hlen, scanUserinfo_eq, scanPrefixes_eq]
  cases hasPrefixCi url "http://".toList
  · rfl
  · cases (Uri.authority (url.drop 7)).all fun c => c != '@'
    · rfl
    · rfl

end copies

section host

/-- The hosts that the relaxation trusts. -/
def loopbackHosts : List String := ["127.0.0.1", "[::1]", "localhost"]

/-- The URL designates one of the trusted hosts over plain `http`: its authority carries no user
information, and whatever way it splits into a host and a port, the host is a trusted one. -/
def DesignatesLoopback (url : List Char) : Prop :=
  hasPrefixCi url "http://".toList = true ∧
    '@' ∉ Uri.authority (url.drop 7) ∧
    (∃ host port, Uri.HostPort (Uri.authority (url.drop 7)) host port) ∧
    ∀ host port, Uri.HostPort (Uri.authority (url.drop 7)) host port →
      ∃ name ∈ loopbackHosts, host.map tolower = name.toList

theorem tolower_letter {n : ℕ} (hlo : 0x41 ≤ n) (hhi : n ≤ 0x5a) :
    'a' ≤ tolower (Char.ofNat n) ∧ tolower (Char.ofNat n) ≤ 'z' := by
  have hall : ∀ n < 0x5b, 0x41 ≤ n →
      'a' ≤ tolower (Char.ofNat n) ∧ tolower (Char.ofNat n) ≤ 'z' := by
    decide
  exact hall n (by omega) hlo

/-- Folding to lower case makes letters only. -/
theorem eq_of_tolower {c d : Char} (h : tolower c = d) (hd : ¬('a' ≤ d ∧ d ≤ 'z')) : c = d := by
  by_cases hc : 'A' ≤ c ∧ c ≤ 'Z'
  · have hletter := tolower_letter (n := c.toNat) hc.1 hc.2
    rw [Char.ofNat_toNat, h] at hletter
    exact absurd hletter hd
  · rw [← h]
    exact (if_neg hc).symm

theorem hasPrefixCi_take {url pre : List Char} (h : hasPrefixCi url pre = true) :
    (url.take pre.length).map tolower = pre.map tolower := by
  induction pre generalizing url with
  | nil => rfl
  | cons p pre ih =>
    cases url with
    | nil => cases h
    | cons c url =>
      simp only [hasPrefixCi, Bool.and_eq_true, beq_iff_eq] at h
      rw [List.length_cons, List.take_succ_cons, List.map_cons, List.map_cons, h.1, ih h.2]

theorem hasPrefixCi_append {url a b : List Char} (h : hasPrefixCi url (a ++ b) = true) :
    hasPrefixCi (url.drop a.length) b = true := by
  induction a generalizing url with
  | nil => exact h
  | cons x a ih =>
    cases url with
    | nil => cases h
    | cons c url =>
      simp only [List.cons_append, hasPrefixCi, Bool.and_eq_true] at h
      exact ih h.2

/-- What a prefix of the table says about the text after the scheme. -/
theorem loopbackPrefix_split {url : List Char} {name : String}
    (h : loopbackPrefixMatches url ("http://" ++ name) = true) :
    ∃ host rest, url.drop 7 = host ++ rest ∧ host.map tolower = name.toList.map tolower ∧
      (rest = [] ∨ ∃ tail, rest = ':' :: tail ∨ rest = '/' :: tail) := by
  simp only [loopbackPrefixMatches, Bool.and_eq_true, String.toList_append,
    String.length_append] at h
  have hhost := hasPrefixCi_take (hasPrefixCi_append h.1)
  have hlen : "http://".toList.length = 7 := rfl
  rw [hlen, String.length_toList] at hhost
  refine ⟨_, (url.drop 7).drop name.length, (List.take_append_drop name.length _).symm, hhost, ?_⟩
  have hrest := h.2
  rw [show "http://".length = 7 from rfl, ← List.drop_drop] at hrest
  cases hdrop : (url.drop 7).drop name.length with
  | nil => exact Or.inl rfl
  | cons c tail =>
    rw [hdrop] at hrest
    simp only [Bool.or_eq_true, beq_iff_eq] at hrest
    rcases hrest with rfl | rfl
    · exact Or.inr ⟨tail, Or.inl rfl⟩
    · exact Or.inr ⟨tail, Or.inr rfl⟩

theorem eq_of_map_tolower {host l : List Char} (h : host.map tolower = l)
    (hl : (l.all fun c => !decide ('a' ≤ c ∧ c ≤ 'z')) = true) : host = l := by
  subst h
  have hself : host.map tolower = host.map id := by
    apply List.map_congr_left
    intro c hc
    have hno := List.all_eq_true.1 hl _ (List.mem_map_of_mem hc)
    rw [Bool.not_eq_true', decide_eq_false_iff_not] at hno
    exact (eq_of_tolower rfl hno).symm
  rw [hself, List.map_id]

/-- A character that is not a letter stands in a host only if it stands in the folded host. -/
theorem mem_of_map_tolower {host l : List Char} (h : host.map tolower = l) {c : Char}
    (hc : c ∈ host) (hself : tolower c = c) : c ∈ l := by
  rw [← h, ← hself]
  exact List.mem_map_of_mem hc

theorem trustedHost_shape {host : List Char} {name : String} (hname : name ∈ loopbackHosts)
    (h : host.map tolower = name.toList) :
    Uri.Bracketed host ∨ (':' ∉ host ∧ host.head? ≠ some '[') := by
  have hplain (hcolon : ':' ∉ name.toList) (hbracket : '[' ∉ name.toList) :
      Uri.Bracketed host ∨ (':' ∉ host ∧ host.head? ≠ some '[') := by
    refine Or.inr ⟨fun hc => hcolon (mem_of_map_tolower h hc rfl), ?_⟩
    intro hhead
    exact hbracket (mem_of_map_tolower h (List.mem_of_mem_head? hhead) rfl)
  simp only [loopbackHosts, List.mem_cons, List.not_mem_nil, or_false] at hname
  rcases hname with rfl | rfl | rfl
  · exact hplain (by decide) (by decide)
  · refine Or.inl ⟨[':', ':', '1'], eq_of_map_tolower h rfl, by decide⟩
  · exact hplain (by decide) (by decide)

theorem trustedHost_end {host : List Char} {name : String} (hname : name ∈ loopbackHosts)
    (h : host.map tolower = name.toList) : ∀ c ∈ host, Uri.endsAuthority c = false := by
  have hall : ∀ name ∈ loopbackHosts, '/' ∉ name.toList ∧ '?' ∉ name.toList ∧ '#' ∉ name.toList := by
    decide
  obtain ⟨hslash, hquery, hhash⟩ := hall name hname
  intro c hc
  simp only [Uri.endsAuthority, Bool.or_eq_false_iff, beq_eq_false_iff_ne]
  refine ⟨⟨?_, ?_⟩, ?_⟩
  · rintro rfl
    exact hslash (mem_of_map_tolower h hc rfl)
  · rintro rfl
    exact hquery (mem_of_map_tolower h hc rfl)
  · rintro rfl
    exact hhash (mem_of_map_tolower h hc rfl)

theorem hostIsLoopback_designates {url : List Char} (h : hostIsLoopback url = true) :
    DesignatesLoopback url := by
  rw [← loopbackScan_eq] at h
  have hlen : "http://".length = 7 := rfl
  simp only [loopbackScan, hlen, scanUserinfo_eq, scanPrefixes_eq] at h
  split_ifs at h with hscheme huser
  have hmatch : ∃ name ∈ loopbackHosts, loopbackPrefixMatches url ("http://" ++ name) = true := by
    obtain ⟨pre, hpre, hm⟩ := List.any_eq_true.1 h
    simp only [loopbackPrefixes, List.mem_cons, List.not_mem_nil, or_false] at hpre
    rcases hpre with rfl | rfl | rfl
    · exact ⟨"127.0.0.1", by simp [loopbackHosts], hm⟩
    · exact ⟨"[::1]", by simp [loopbackHosts], hm⟩
    · exact ⟨"localhost", by simp [loopbackHosts], hm⟩
  obtain ⟨name, hname, hm⟩ := hmatch
  obtain ⟨host, rest, hsplit, hfold, hrest⟩ := loopbackPrefix_split hm
  have hlower : ∀ name ∈ loopbackHosts, name.toList.map tolower = name.toList := by decide
  rw [hlower name hname] at hfold
  have hauthority : ∃ port, Uri.HostPort (Uri.authority (url.drop 7)) host port := by
    rw [hsplit, Uri.authority_append host rest (trustedHost_end hname hfold)]
    rcases hrest with rfl | ⟨tail, rfl | rfl⟩
    · exact ⟨none, rfl, trustedHost_shape hname hfold⟩
    · refine ⟨some (Uri.authority tail), ?_, trustedHost_shape hname hfold⟩
      rw [Uri.authority_step tail rfl]
      rfl
    · refine ⟨none, ?_, trustedHost_shape hname hfold⟩
      rw [Uri.authority_stop tail rfl]
      rfl
  obtain ⟨port, hport⟩ := hauthority
  refine ⟨hscheme, ?_, ⟨host, port, hport⟩, ?_⟩
  · intro hat
    exact bne_iff_ne.1 (List.all_eq_true.1 huser '@' hat) rfl
  · intro host' port' hport'
    rw [hport'.host_unique hport]
    exact ⟨name, hname, hfold⟩

theorem callbackUrlAllowed_loopback {url : String}
    (h : callbackUrlAllowed (some url) true = true)
    (hplain : hasPrefixCi url.toList "https://".toList = false) :
    hostIsLoopback url.toList = true := by
  simp only [callbackUrlAllowed, hplain, Bool.false_or, Bool.true_and, Bool.and_eq_true] at h
  exact h.2

/-- The three tests give one answer, and a URL that they let through, or that the relaxed gate
lets through without `https`, designates a loopback host and no other. -/
theorem loopback_relaxation_sound (url : String) :
    (outboundHostIsLoopback url.toList = dispatcherHostIsLoopback url.toList ∧
      jwksHostIsLoopback url.toList = dispatcherHostIsLoopback url.toList ∧
      hostIsLoopback url.toList = dispatcherHostIsLoopback url.toList) ∧
    (dispatcherHostIsLoopback url.toList = true → DesignatesLoopback url.toList) ∧
    (callbackUrlAllowed (some url) true = true →
      hasPrefixCi url.toList "https://".toList = false → DesignatesLoopback url.toList) := by
  have hdispatcher : dispatcherHostIsLoopback url.toList = hostIsLoopback url.toList :=
    loopbackScan_eq url.toList
  have houtbound : outboundHostIsLoopback url.toList = hostIsLoopback url.toList :=
    loopbackScan_eq url.toList
  have hjwks : jwksHostIsLoopback url.toList = hostIsLoopback url.toList :=
    loopbackScan_eq url.toList
  refine ⟨⟨houtbound.trans hdispatcher.symm, hjwks.trans hdispatcher.symm, hdispatcher.symm⟩,
    ?_, ?_⟩
  · intro h
    exact hostIsLoopback_designates (hdispatcher.symm.trans h)
  · intro h hplain
    exact hostIsLoopback_designates (callbackUrlAllowed_loopback h hplain)

theorem loopback_relaxation_upper : DesignatesLoopback "HTTP://LocalHost:8080/cb".toList :=
  (loopback_relaxation_sound "HTTP://LocalHost:8080/cb").2.2 (by decide) (by decide)

end host

end Nssf
