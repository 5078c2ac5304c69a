import Nssf.Dispatcher.HeaderLines

/-! The trace headers of a delivery. An id that the guard lets through is sent as it is, and its
hexadecimal digits, padded with zeros, become the trace id and the span id. -/

namespace Nssf

open Base Run OAuth

/-- The value of a header line that carries the name. -/
def headerValue (name line : String) : Option String :=
  let head := name.toList ++ [':', ' ']
  if head.isPrefixOf line.toList then some (String.ofList (line.toList.drop head.length)) else none

def headerValues (name : String) (headers : List String) : List String :=
  headers.filterMap (headerValue name)

def PrintableId (id : String) : Prop :=
  id ≠ "" ∧ id.length ≤ 128 ∧ ∀ c ∈ id.toList, 0x20 ≤ c.toNat ∧ c.toNat ≤ 0x7e

def isLowerHex (c : Char) : Bool :=
  decide ('0' ≤ c ∧ c ≤ '9') || decide ('a' ≤ c ∧ c ≤ 'f')

/-- A version-00 value of W3C trace context, sampled. -/
def W3cTraceparent (value : String) : Prop :=
  ∃ trace span : List Char,
    value = "00-" ++ String.ofList trace ++ "-" ++ String.ofList span ++ "-01" ∧
    trace.length = 32 ∧ span.length = 16 ∧
    trace.all isLowerHex = true ∧ span.all isLowerHex = true ∧
    (∃ c ∈ trace, c ≠ '0') ∧ ∃ c ∈ span, c ≠ '0'

/-- Both trace headers stand in the lines once, with well-formed values, and a printable id that
was given is propagated. -/
def TraceHeaders (given : Option String) (headers : List String) : Prop :=
  ∃ id parent, headerValues "3gpp-Sbi-Correlation-Info" headers = [id] ∧
    headerValues "traceparent" headers = [parent] ∧
    PrintableId id ∧ (∀ x, given = some x → PrintableId x → id = x) ∧ W3cTraceparent parent

/-- An id whose header values come out well formed once the guard lets it through. -/
def Traceable (id : String) : Prop :=
  (∀ c ∈ id.toList, c.toNat ≤ 0x7e) ∧ ∃ c ∈ (id.toList.filter isXdigit).take 16, c ≠ '0'

section digits

theorem isLowerHex_digitChar {n : ℕ} (h : n < 16) : isLowerHex (Nat.digitChar n) = true := by
  have hall : ∀ n < 16, isLowerHex (Nat.digitChar n) = true := by decide
  exact hall n h

theorem xdigit_range {c : Char} (h : isXdigit c = true) :
    (0x30 ≤ c.toNat ∧ c.toNat ≤ 0x39) ∨ (0x41 ≤ c.toNat ∧ c.toNat ≤ 0x46) ∨
      (0x61 ≤ c.toNat ∧ c.toNat ≤ 0x66) := by
  simp only [isXdigit, Binary64.isDigit, Bool.or_eq_true, Bool.and_eq_true,
    decide_eq_true_eq, Char.le_def, UInt32.le_iff_toNat_le] at h
  simp only [Char.toNat]
  rcases h with (⟨hl, hr⟩ | ⟨hl, hr⟩) | ⟨hl, hr⟩
  · exact Or.inl ⟨hl, hr⟩
  · exact Or.inr (Or.inr ⟨hl, hr⟩)
  · exact Or.inr (Or.inl ⟨hl, hr⟩)

theorem tolower_xdigit {c : Char} (h : isXdigit c = true) :
    isLowerHex (tolower c) = true ∧ (tolower c = '0' → c = '0') := by
  have hrange := xdigit_range h
  have hall : ∀ n < 0x67, (0x30 ≤ n ∧ n ≤ 0x39) ∨ (0x41 ≤ n ∧ n ≤ 0x46) ∨ (0x61 ≤ n ∧ n ≤ 0x66) →
      isLowerHex (tolower (Char.ofNat n)) = true ∧
        (tolower (Char.ofNat n) = '0' → Char.ofNat n = '0') := by
    decide
  have hc := hall c.toNat (by omega) hrange
  rwa [Char.ofNat_toNat] at hc

theorem toTraceId_length (id : String) : (toTraceId id).length = 32 := by
  simp only [toTraceId, List.length_append, List.length_replicate, List.length_take]
  omega

theorem toTraceId_lowerHex (id : String) : (toTraceId id).all isLowerHex = true := by
  simp only [toTraceId, List.all_append, Bool.and_eq_true]
  constructor
  · apply List.all_eq_true.2
    intro c hc
    obtain ⟨x, hx, rfl⟩ := List.mem_map.1 (List.mem_of_mem_take hc)
    exact (tolower_xdigit (List.mem_filter.1 hx).2).1
  · apply List.all_eq_true.2
    intro c hc
    rw [List.eq_of_mem_replicate hc]
    rfl

/-- The span id is not all zero just where the id has a digit that is not zero early enough. -/
theorem span_nonzero_iff (id : String) :
    (∃ c ∈ (toTraceId id).take 16, c ≠ '0') ↔
      ∃ c ∈ (id.toList.filter isXdigit).take 16, c ≠ '0' := by
  have hspan : (toTraceId id).take 16 =
      ((id.toList.filter isXdigit).take 16).map tolower ++
        List.replicate (16 - ((id.toList.filter isXdigit).take 16).length) '0' := by
    simp only [toTraceId, List.take_append, List.take_take, List.map_take, List.take_replicate,
      List.length_map, List.length_take]
    congr 2
    omega
  rw [hspan]
  constructor
  · rintro ⟨c, hc, hne⟩
    rcases List.mem_append.1 hc with hc | hc
    · obtain ⟨x, hx, rfl⟩ := List.mem_map.1 hc
      refine ⟨x, hx, ?_⟩
      intro hzero
      rw [hzero] at hne
      exact hne rfl
    · exact absurd (List.eq_of_mem_replicate hc) hne
  · rintro ⟨c, hc, hne⟩
    have hdigit := (List.mem_filter.1 (List.mem_of_mem_take hc)).2
    refine ⟨tolower c, List.mem_append_left _ (List.mem_map_of_mem hc), ?_⟩
    intro hzero
    exact hne ((tolower_xdigit hdigit).2 hzero)

/-- A number whose low digits are all zero. -/
theorem mod_pow_of_digits_zero (n k : ℕ) (h : ∀ i < k, n / 16 ^ i % 16 = 0) : n % 16 ^ k = 0 := by
  induction k with
  | zero => exact Nat.mod_one n
  | succ k ih =>
    have hlow := ih fun i hi => h i (by omega)
    have htop := h k (by omega)
    rw [Nat.mod_pow_succ, hlow, htop, Nat.mul_zero]

theorem digitChar_zero {n : ℕ} (hn : n < 16) (h : Nat.digitChar n = '0') : n = 0 := by
  have hall : ∀ n < 16, Nat.digitChar n = '0' → n = 0 := by decide
  exact hall n hn h

theorem hex16_nonzero {n : ℕ} (hpos : 0 < n) (hlt : n < 2 ^ 64) : ∃ c ∈ hex16 n, c ≠ '0' := by
  by_contra hnone
  push Not at hnone
  have hdigits : ∀ i < 16, n / 16 ^ i % 16 = 0 := by
    intro i hi
    have hmem : Nat.digitChar (n / 16 ^ i % 16) ∈ hex16 n := by
      simp only [hex16, List.mem_map, List.mem_range]
      refine ⟨15 - i, by omega, ?_⟩
      rw [show 15 - (15 - i) = i by omega]
    exact digitChar_zero (Nat.mod_lt _ (by decide)) (hnone _ hmem)
  have hmod := mod_pow_of_digits_zero n 16 hdigits
  rw [Nat.mod_eq_of_lt (by omega)] at hmod
  omega

theorem hex16_length (n : ℕ) : (hex16 n).length = 16 := by
  simp only [hex16, List.length_map, List.length_range]

theorem hex16_lowerHex (n : ℕ) : ∀ c ∈ hex16 n, isLowerHex c = true := by
  intro c hc
  simp only [hex16, List.mem_map] at hc
  obtain ⟨i, -, rfl⟩ := hc
  exact isLowerHex_digitChar (Nat.mod_lt _ (by decide))

theorem lowerHex_facts {c : Char} (h : isLowerHex c = true) :
    isXdigit c = true ∧ 0x20 ≤ c.toNat ∧ c.toNat ≤ 0x7e := by
  simp only [isLowerHex, Bool.or_eq_true, decide_eq_true_eq] at h
  have hx : isXdigit c = true := by
    simp only [isXdigit, Binary64.isDigit, Bool.or_eq_true, Bool.and_eq_true, decide_eq_true_eq]
    tauto
  have hrange := xdigit_range hx
  exact ⟨hx, by omega, by omega⟩

end digits

section values

variable {d d' : Dispatcher} {item : RetryItem} {inbound : Option String} {corr : String}
  {headers : List String} {e e' : Env}

/-- The value of the second trace header for an id. -/
def traceparentValue (id : String) : String :=
  "00-" ++ String.ofList (toTraceId id) ++ "-" ++ String.ofList ((toTraceId id).take 16) ++ "-01"

theorem headerValue_head (name value : String) :
    headerValue name (name ++ ": " ++ value) = some value := by
  have hline : (name ++ ": " ++ value).toList = (name.toList ++ [':', ' ']) ++ value.toList := by
    simp only [String.toList_append]
    rfl
  simp only [headerValue, hline]
  rw [if_pos (List.isPrefixOf_iff_prefix.2 (List.prefix_append _ _)), List.drop_left,
    String.ofList_toList]

/-- The names as they stand at the head of their lines, and the one line that is fixed. -/
theorem heads_split :
    "3gpp-Sbi-Correlation-Info: " = "3gpp-Sbi-Correlation-Info" ++ ": " ∧
      "traceparent: 00-" = "traceparent" ++ ": " ++ "00-" ∧
      headerValue "3gpp-Sbi-Correlation-Info" "Content-Type: application/json" = none ∧
      headerValue "traceparent" "Content-Type: application/json" = none := by
  decide

theorem correlationLine_eq (id : String) :
    correlationLine id = "3gpp-Sbi-Correlation-Info" ++ ": " ++ id :=
  congrArg (fun head => head ++ id) heads_split.1

theorem traceparentLine_eq (id : String) :
    traceparentLine id = "traceparent" ++ ": " ++ traceparentValue id := by
  have hhead := congrArg (fun head => head ++ String.ofList (toTraceId id) ++ "-" ++
    String.ofList ((toTraceId id).take 16) ++ "-01") heads_split.2.1
  apply hhead.trans
  simp only [traceparentValue, String.append_assoc]

theorem headerValue_none {name head : String} (rest : String)
    (h : (name.toList ++ [':', ' ']).isPrefixOf (head.toList ++ rest.toList) = false) :
    headerValue name (head ++ rest) = none := by
  simp only [headerValue, String.toList_append, h]
  rfl

/-- The lines of a dispatch, with the bearer last when there is one. -/
def dispatchLines (corr : String) (bearer : Option String) : List String :=
  ["Content-Type: application/json", correlationLine corr, traceparentLine corr] ++
    bearer.toList.map bearerLine

theorem headerValues_correlation (corr : String) (bearer : Option String) :
    headerValues "3gpp-Sbi-Correlation-Info" (dispatchLines corr bearer) = [corr] := by
  have hct := heads_split.2.2.1
  have hown : headerValue "3gpp-Sbi-Correlation-Info" (correlationLine corr) = some corr :=
    (congrArg _ (correlationLine_eq corr)).trans (headerValue_head _ corr)
  have hother : headerValue "3gpp-Sbi-Correlation-Info" (traceparentLine corr) = none :=
    (congrArg _ (traceparentLine_eq corr)).trans (headerValue_none _ rfl)
  have hbearer (token : String) :
      headerValue "3gpp-Sbi-Correlation-Info" (bearerLine token) = none := headerValue_none _ rfl
  cases bearer with
  | none => simp [headerValues, dispatchLines, hct, hown, hother]
  | some token => simp [headerValues, dispatchLines, hct, hown, hother, hbearer]

theorem headerValues_traceparent (corr : String) (bearer : Option String) :
    headerValues "traceparent" (dispatchLines corr bearer) = [traceparentValue corr] := by
  have hct := heads_split.2.2.2
  have hown : headerValue "traceparent" (traceparentLine corr) = some (traceparentValue corr) :=
    (congrArg _ (traceparentLine_eq corr)).trans (headerValue_head _ _)
  have hother : headerValue "traceparent" (correlationLine corr) = none := headerValue_none _ rfl
  have hbearer (token : String) : headerValue "traceparent" (bearerLine token) = none :=
    headerValue_none _ rfl
  cases bearer with
  | none => simp [headerValues, dispatchLines, hct, hown, hother]
  | some token => simp [headerValues, dispatchLines, hct, hown, hother, hbearer]

theorem w3cTraceparent_iff (id : String) :
    W3cTraceparent (traceparentValue id) ↔
      ∃ c ∈ (id.toList.filter isXdigit).take 16, c ≠ '0' := by
  rw [← span_nonzero_iff]
  have hspan : ((toTraceId id).take 16).length = 16 := by
    rw [List.length_take, toTraceId_length]
    rfl
  constructor
  · rintro ⟨trace, span, heq, htrace, hspan', -, -, -, hnonzero⟩
    -- the two texts have their dashes in the same places
    have hlist := congrArg String.toList heq
    simp only [traceparentValue, String.toList_append, String.toList_ofList, List.append_assoc]
      at hlist
    have hrest := List.append_cancel_left hlist
    obtain ⟨-, hrest⟩ := List.append_inj hrest (by rw [toTraceId_length, htrace])
    have hrest := List.append_cancel_left hrest
    obtain ⟨hsame, -⟩ := List.append_inj hrest (by rw [hspan, hspan'])
    rwa [hsame]
  · intro hnonzero
    have hall := toTraceId_lowerHex id
    have htake : ((toTraceId id).take 16).all isLowerHex = true := by
      apply List.all_eq_true.2
      intro c hc
      exact List.all_eq_true.1 hall c (List.mem_of_mem_take hc)
    obtain ⟨c, hc, hne⟩ := hnonzero
    exact ⟨toTraceId id, (toTraceId id).take 16, rfl, toTraceId_length id, hspan, hall, htake,
      ⟨c, List.mem_of_mem_take hc, hne⟩, ⟨c, hc, hne⟩⟩

theorem printableId_iff (id : String) :
    PrintableId id ↔ correlationIdIsSafe id = true ∧ ∀ c ∈ id.toList, c.toNat ≤ 0x7e := by
  have hempty : id ≠ "" ↔ id.toList.isEmpty = false := by
    rw [List.isEmpty_eq_false_iff, ne_eq, ne_eq, String.toList_eq_nil_iff]
  simp only [PrintableId, correlationIdIsSafe, hempty, Bool.and_eq_true, Bool.not_eq_true',
    decide_eq_true_eq, correlationIdMax, String.length_toList, List.all_eq_true, bne_iff_ne]
  constructor
  · rintro ⟨hne, hlen, hall⟩
    refine ⟨⟨⟨hne, hlen⟩, ?_⟩, fun c hc => (hall c hc).2⟩
    intro c hc
    have hrange := hall c hc
    exact ⟨hrange.1, by omega⟩
  · rintro ⟨⟨⟨hne, hlen⟩, hall⟩, htop⟩
    exact ⟨hne, hlen, fun c hc => ⟨(hall c hc).1, htop c hc⟩⟩

/-- An id that is made up from a clock after the epoch is fit for both headers. -/
theorem genCorrelationHex_fit {id : String} (h : genCorrelationHex e = .ok (id, e'))
    (hpos : 1 ≤ e.time.head) (hmax : e.time.head < 2 ^ 63) :
    PrintableId id ∧ ∃ c ∈ (id.toList.filter isXdigit).take 16, c ≠ '0' := by
  simp only [genCorrelationHex] at h
  obtain ⟨n, e₁, hn, h⟩ := Prog.bind_eq_ok.1 h
  obtain ⟨t, e₂, ht, h⟩ := Prog.bind_eq_ok.1 h
  cases hn
  cases ht
  cases h
  have hpositive : 0 < (e.time.head % 2 ^ 64).toNat ∧ (e.time.head % 2 ^ 64).toNat < 2 ^ 64 := by
    omega
  have hhex : ∀ c ∈ hex16 (e.time.head % 2 ^ 64).toNat ++
      hex16 ((e.correlations + 1) % 2 ^ 64), isLowerHex c = true := by
    intro c hc
    rcases List.mem_append.1 hc with hc | hc
    · exact hex16_lowerHex _ c hc
    · exact hex16_lowerHex _ c hc
  constructor
  · refine ⟨?_, ?_, ?_⟩
    · intro hempty
      have hlen := congrArg String.length hempty
      simp only [String.length_ofList, List.length_append, hex16_length] at hlen
      cases hlen
    · simp only [String.length_ofList, List.length_append, hex16_length]
      omega
    · intro c hc
      rw [String.toList_ofList] at hc
      exact (lowerHex_facts (hhex c hc)).2
  · rw [String.toList_ofList, List.filter_eq_self.2 fun c hc => (lowerHex_facts (hhex c hc)).1,
      List.take_left' (hex16_length _)]
    exact hex16_nonzero hpositive.1 hpositive.2

theorem effectiveCorrelation_of_safe {id : String} (hid : inbound.or item.correlationId = some id)
    (hsafe : correlationIdIsSafe id = true)
    (h : effectiveCorrelation inbound item.correlationId e = .ok (corr, e')) : corr = id := by
  simp only [effectiveCorrelation, hid, if_pos hsafe] at h
  cases h
  rfl

theorem effectiveCorrelation_generated
    (hrejected : ∀ id, inbound.or item.correlationId = some id → correlationIdIsSafe id = false)
    (h : effectiveCorrelation inbound item.correlationId e = .ok (corr, e')) :
    genCorrelationHex e = .ok (corr, e') := by
  cases hid : inbound.or item.correlationId with
  | none =>
    simp only [effectiveCorrelation, hid] at h
    exact h
  | some id =>
    simp only [effectiveCorrelation, hid, hrejected id hid] at h
    exact h

/-- The lines that are handed to the transport carry the chosen id. -/
theorem prepare_dispatchLines (h : d.prepare item inbound e = .ok ((.ok headers, d'), e')) :
    ∃ corr e₁ bearer, effectiveCorrelation inbound item.correlationId e = .ok (corr, e₁) ∧
      headers = dispatchLines corr bearer := by
  simp only [Dispatcher.prepare] at h
  obtain ⟨corr, e₁, hcorr, h⟩ := Prog.bind_eq_ok.1 h
  simp only [buildHeaders] at h
  obtain ⟨base, e₂, hbase, h⟩ := Prog.bind_eq_ok.1 h
  cases base with
  | none => cases h
  | some base =>
    have hlines := baseHeaders_eq hbase
    cases hd : d.oauth with
    | none =>
      simp only [hd] at h
      cases h
      exact ⟨corr, e₁, none, hcorr, hlines⟩
    | some ob =>
      simp only [hd] at h
      obtain ⟨⟨st, ob'⟩, e₃, hattach, h⟩ := Prog.bind_eq_ok.1 h
      cases st with
      | abort => cases h
      | noAttach =>
        cases h
        exact ⟨corr, e₁, none, hcorr, hlines⟩
      | ok attached =>
        cases h
        obtain ⟨n, token, -, -, hattached⟩ := attachBearer_source hattach
        exact ⟨corr, e₁, some token, hcorr, by rw [hattached, hlines]; rfl⟩

/-- The trace headers of a delivery are well formed just when an id that passes the guard is
plain ASCII and has a digit other than zero among its first sixteen. -/
theorem prepare_traceHeaders_iff (h : d.prepare item inbound e = .ok ((.ok headers, d'), e'))
    (hpos : 1 ≤ e.time.head) (hmax : e.time.head < 2 ^ 63) :
    TraceHeaders (inbound.or item.correlationId) headers ↔
      ∀ id, inbound.or item.correlationId = some id → correlationIdIsSafe id = true →
        Traceable id := by
  obtain ⟨corr, e₁, bearer, hcorr, rfl⟩ := prepare_dispatchLines h
  have hvalues : TraceHeaders (inbound.or item.correlationId) (dispatchLines corr bearer) ↔
      PrintableId corr ∧
        (∀ x, inbound.or item.correlationId = some x → PrintableId x → corr = x) ∧
        ∃ c ∈ (corr.toList.filter isXdigit).take 16, c ≠ '0' := by
    simp only [TraceHeaders, headerValues_correlation, headerValues_traceparent,
      List.cons.injEq, and_true]
    constructor
    · rintro ⟨id, parent, rfl, rfl, hprint, hgiven, hparent⟩
      exact ⟨hprint, hgiven, (w3cTraceparent_iff _).1 hparent⟩
    · rintro ⟨hprint, hgiven, hdigit⟩
      exact ⟨corr, _, rfl, rfl, hprint, hgiven, (w3cTraceparent_iff _).2 hdigit⟩
  rw [hvalues]
  by_cases hsafe : ∃ id, inbound.or item.correlationId = some id ∧ correlationIdIsSafe id = true
  · obtain ⟨id, hid, hsafe⟩ := hsafe
    obtain rfl := effectiveCorrelation_of_safe hid hsafe hcorr
    constructor
    · rintro ⟨hprint, -, hdigit⟩ x hx -
      rw [hid] at hx
      cases hx
      exact ⟨((printableId_iff _).1 hprint).2, hdigit⟩
    · intro htraceable
      have ht := htraceable corr hid hsafe
      refine ⟨(printableId_iff _).2 ⟨hsafe, ht.1⟩, ?_, ht.2⟩
      intro x hx _
      exact Option.some.inj (hid.symm.trans hx)
  · have hrejected : ∀ id, inbound.or item.correlationId = some id →
        correlationIdIsSafe id = false := by
      intro id hid
      by_contra hno
      exact hsafe ⟨id, hid, Bool.eq_true_of_not_eq_false hno⟩
    have hfit := genCorrelationHex_fit (effectiveCorrelation_generated hrejected hcorr) hpos hmax
    constructor
    · intro _ id hid hyes
      rw [hrejected id hid] at hyes
      cases hyes
    · intro _
      refine ⟨hfit.1, ?_, hfit.2⟩
      intro x hx hprint
      have hyes := ((printableId_iff x).1 hprint).1
      rw [hrejected x hx] at hyes
      cases hyes

end values

section sample

/-- The clock stands at the first second after the epoch. -/
def firstSecond : Env := { Env.quiet with time := Stream'.const 1 }

def plainDispatcher : Dispatcher := notificationDispatcherNew none

theorem plain_prepared : ∀ id ∈ ["00f067aa0ba902b7", "zzz"],
    Prog.result? (plainDispatcher.prepare plainItem (some id)) firstSecond =
      some (.ok (dispatchLines id none), plainDispatcher) := by
  decide

theorem prepare_traceHeaders_hex : ∃ headers d' e',
    plainDispatcher.prepare plainItem (some "00f067aa0ba902b7") firstSecond =
      .ok ((.ok headers, d'), e') ∧
    TraceHeaders (some "00f067aa0ba902b7") headers := by
  obtain ⟨e', hrun⟩ := Prog.exists_of_result? (plain_prepared "00f067aa0ba902b7" (by simp))
  refine ⟨_, _, e', hrun, ?_⟩
  apply (prepare_traceHeaders_iff hrun (by decide) (by decide)).2
  intro id hid _
  cases hid
  constructor
  · simp
  · exact ⟨'f', by decide, by decide⟩

/-- An id without a digit gives a trace id of zeros. -/
theorem zero_trace_id_is_sent : ∃ headers d' e',
    plainDispatcher.prepare plainItem (some "zzz") firstSecond = .ok ((.ok headers, d'), e') ∧
    ¬TraceHeaders (some "zzz") headers := by
  obtain ⟨e', hrun⟩ := Prog.exists_of_result? (plain_prepared "zzz" (by simp))
  refine ⟨_, _, e', hrun, ?_⟩
  rintro ⟨id, parent, -, hparent, -, -, hw3c⟩
  rw [headerValues_traceparent] at hparent
  obtain rfl := (List.cons.inj hparent).1
  obtain ⟨c, hc, -⟩ := (w3cTraceparent_iff "zzz").1 hw3c
  have hnone : ("zzz".toList.filter isXdigit).take 16 = [] := by decide
  rw [hnone] at hc
  cases hc

end sample

end Nssf
